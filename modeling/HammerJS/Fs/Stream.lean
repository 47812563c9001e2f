import HammerJS.Fs.Fstream

/-!
# The `Stream` objects of the `fs` module

`fs.cpp`: opening a stream and the functions of its object.  A function takes the
arguments of the call, already converted to strings, and the `std::fstream`
behind the object.

* `V8` — the two conversions of strings.
* `stream_constructor`, `stream_next`, `stream_readLine`, `stream_writeLine`,
  `stream_flush`, `stream_close` — the functions.
* `StreamCall`, `Stream.run` — calls on a stream, one after the other.
-/

namespace HammerJS

open Fs

/-- The strings of a script: UTF-16 code units. -/
abbrev JSString := List UInt16

/-- The conversions between the strings of a script and those of the code. -/
class V8 where
  /-- `String::New(const char*)`, of the bytes before the terminator. -/
  decode : Bytes → JSString
  /-- `String::Utf8Value`. -/
  encode : JSString → Bytes

/-- What a function gives back to the script. -/
inductive Reply where
  | string (s : JSString)
  | undefined
  /-- `args.This()`. -/
  | stream
  | exception (message : String)
  deriving DecidableEq

/-- Whether a function threw. -/
def Reply.isException : Reply → Bool
  | .exception _ => true
  | _ => false

section Functions

variable [V8]

/-- `String::New(buffer.c_str())`. -/
def newString (buffer : Bytes) : Reply :=
  .string (V8.decode (buffer.takeWhile (· ≠ 0)))

/-- The open mode that the second argument of the constructor asks for, if there
is one. -/
def streamMode (modes : Option JSString) : Except String OpenMode :=
  match modes with
  | none => .ok { input := true, output := false }
  | some modes =>
      -- `strchr` stops at the terminator
      let options := (V8.encode modes).takeWhile (· ≠ 0)
      let read := options.contains 'r'.toUInt8
      let write := options.contains 'w'.toUInt8
      if !read && !write then .error "Exception: Invalid open mode for Stream"
      else .ok { input := read, output := write }

/-- `stream_constructor`, where the file named by the first argument holds `file`. -/
def stream_constructor (file : Option Bytes) (args : List JSString) : Except String Fstream :=
  if args.length ≠ 1 ∧ args.length ≠ 2 then
    .error "Exception: Stream constructor accepts 1 or 2 arguments"
  else
    match streamMode args[1]? with
    | .error message => .error message
    | .ok mode =>
        match Fstream.openFile file mode with
        | none => .error "Exception: Can't open the file"
        | some stream => .ok stream

/-- `stream_close`. -/
def stream_close (args : List JSString) (fs : Fstream) : Reply × Fstream :=
  if args.length ≠ 0 then (.exception "Exception: Stream.close() accepts no argument", fs)
  else (.undefined, fs.close)

/-- `stream_flush`. -/
def stream_flush (args : List JSString) (fs : Fstream) : Reply × Fstream :=
  if args.length ≠ 0 then (.exception "Exception: Stream.flush() accepts no argument", fs)
  else (.stream, fs.flush)

/-- `stream_next`. -/
def stream_next (args : List JSString) (fs : Fstream) : Reply × Fstream :=
  if args.length ≠ 0 then (.exception "Exception: Stream.next() accepts no argument", fs)
  else
    let (buffer, fs) := fs.getline
    if fs.eof then (.exception "Exception: Stream.next() reaches end of file", fs)
    else (newString buffer, fs)

/-- `stream_readLine`. -/
def stream_readLine (args : List JSString) (fs : Fstream) : Reply × Fstream :=
  if args.length ≠ 0 then (.exception "Exception: Stream.readLine() accepts no argument", fs)
  else if fs.eof then (.string [], fs)
  else
    let (buffer, fs) := fs.getline
    (newString (buffer ++ [newline]), fs)

/-- `stream_writeLine`. -/
def stream_writeLine (args : List JSString) (fs : Fstream) : Reply × Fstream :=
  match args with
  | [line] => (.stream, (fs.write (V8.encode line)).write [newline])
  | _ => (.exception "Exception: Stream.writeLine() accepts 1 argument", fs)

end Functions

/-! ## Calls -/

/-- A call of a function of a stream, with the arguments it accepts. -/
inductive StreamCall where
  | next
  | readLine
  | writeLine (line : JSString)
  | flush
  deriving DecidableEq

variable [V8]

/-- What a call does. -/
def StreamCall.perform : StreamCall → Fstream → Reply × Fstream
  | .next, fs => stream_next [] fs
  | .readLine, fs => stream_readLine [] fs
  | .writeLine line, fs => stream_writeLine [line] fs
  | .flush, fs => stream_flush [] fs

/-- The stream after some calls. -/
def runCalls (fs : Fstream) (calls : List StreamCall) : Fstream :=
  calls.foldl (fun fs call => (call.perform fs).2) fs

/-- `close()`. -/
def closeStream (fs : Fstream) : Fstream := (stream_close [] fs).2

/-- The loop of `readFile` in `tests/run.js`: append what `readLine()` returns
until it is empty.  None when the bound on the calls is too small, or when a call
throws. -/
def readFile : Nat → Fstream → Option JSString
  | 0, _ => none
  | k + 1, fs =>
      match stream_readLine [] fs with
      | (.string line, fs) =>
          if line.length = 0 then some [] else (readFile k fs).map (line ++ ·)
      | _ => none

/-- What `next()` returns until it throws.  None when the bound on the calls is
too small. -/
def iterate : Nat → Fstream → Option (List JSString)
  | 0, _ => none
  | k + 1, fs =>
      match stream_next [] fs with
      | (.string line, fs) => (iterate k fs).map (line :: ·)
      | _ => some []

end HammerJS
