import Mathlib.Data.List.TakeWhile
import Mathlib.Tactic.Common

/-!
# File streams

`std::fstream`, as far as the `fs` module uses it: a file, the position in it
that reading and writing share, and the state bits.

* `Fstream` — the stream.
* `Fstream.getline`, `Fstream.write`, `Fstream.flush`, `Fstream.close` — the
  operations.
* `splitLines` — the lines of a text.
-/

namespace Fs

/-- Bytes. -/
abbrev Bytes := List UInt8

/-- The byte that ends a line. -/
def newline : UInt8 := 10

/-- `std::fstream::openmode`. -/
structure OpenMode where
  input : Bool
  output : Bool
  deriving DecidableEq, Repr

/-- `std::fstream`.  The content of the file is cut at the current position. -/
structure Fstream where
  /-- The bytes before the position. -/
  before : Bytes
  /-- The bytes from the position on. -/
  rest : Bytes
  mode : OpenMode
  isOpen : Bool
  eofbit : Bool
  failbit : Bool
  badbit : Bool
  deriving DecidableEq, Repr

namespace Fstream

/-- The file. -/
def content (s : Fstream) : Bytes := s.before ++ s.rest

/-- `good()`. -/
def good (s : Fstream) : Bool := !s.eofbit && !s.failbit && !s.badbit

/-- `fail()`. -/
def fail (s : Fstream) : Bool := s.failbit || s.badbit

/-- `eof()`. -/
def eof (s : Fstream) : Bool := s.eofbit

/-- Whether the buffer of the stream can be read from. -/
def readable (s : Fstream) : Bool := s.isOpen && s.mode.input

/-- Whether the buffer of the stream can be written to. -/
def writable (s : Fstream) : Bool := s.isOpen && s.mode.output

/-- `open(name, mode)` on a new stream, where the file holds `file`; none when it
can not be opened.  Without `in`, the file is created or cut off. -/
def openFile (file : Option Bytes) (mode : OpenMode) : Option Fstream :=
  let stream := fun rest : Bytes =>
    { before := [], rest, mode, isOpen := true, eofbit := false, failbit := false, badbit := false }
  if mode.input then file.map stream
  else if mode.output then some (stream [])
  else none

/-- `std::getline(s, buffer)`, with an empty buffer. -/
def getline (s : Fstream) : Bytes × Fstream :=
  if !s.good then ([], { s with failbit := true })
  else if !s.readable then ([], { s with eofbit := true, failbit := true })
  else
    let line := s.rest.takeWhile (· ≠ newline)
    match s.rest.dropWhile (· ≠ newline) with
    | [] =>
        -- the end was met before a newline; it is a failure when nothing was read
        (line, { s with before := s.before ++ line, rest := [], eofbit := true,
                        failbit := line.isEmpty })
    | _ :: rest => (line, { s with before := s.before ++ line ++ [newline], rest })

/-- `write(bytes, n)`. -/
def write (s : Fstream) (bytes : Bytes) : Fstream :=
  if !s.good then { s with failbit := true }
  else if bytes = [] then s
  else if !s.writable then { s with badbit := true }
  else { s with before := s.before ++ bytes, rest := s.rest.drop bytes.length }

/-- `flush()`: nothing is left unwritten, in this model of the file. -/
def flush (s : Fstream) : Fstream := s

/-- `close()`. -/
def close (s : Fstream) : Fstream :=
  if s.isOpen then { s with isOpen := false } else { s with failbit := true }

end Fstream

/-! ## Lines -/

/-- The lines of a text, without their newlines.  What follows the last newline
is a line unless it is empty. -/
def splitLines : Bytes → List Bytes
  | [] => []
  | b :: bs =>
      if b = newline then [] :: splitLines bs
      else
        match splitLines bs with
        | [] => [[b]]
        | line :: lines => (b :: line) :: lines

/-- Whether a text ends with a newline. -/
def EndsWithNewline (c : Bytes) : Prop := c.getLast? = some newline

instance (c : Bytes) : Decidable (EndsWithNewline c) := inferInstanceAs (Decidable (_ = _))

/-- The lines of a text that are not cut off by its end. -/
def endedLines (c : Bytes) : List Bytes :=
  if c = [] ∨ EndsWithNewline c then splitLines c else (splitLines c).dropLast

/-- The text of some lines, each with its newline. -/
def joinLines (lines : List Bytes) : Bytes := lines.flatMap (· ++ [newline])

/-- A text is empty, or it starts with a line and its newline, or it is a line
without one. -/
theorem text_cases (c : Bytes) :
    c = [] ∨ (∃ line rest, newline ∉ line ∧ c = line ++ newline :: rest) ∨
      (c ≠ [] ∧ newline ∉ c) := by
  by_cases hc : c = []
  · exact Or.inl hc
  by_cases hmem : newline ∈ c
  · obtain ⟨line, rest, rfl, hline⟩ := List.eq_append_cons_of_mem hmem
    exact Or.inr (Or.inl ⟨line, rest, hline, rfl⟩)
  · exact Or.inr (Or.inr ⟨hc, hmem⟩)

theorem splitLines_line {line : Bytes} (h : newline ∉ line) (rest : Bytes) :
    splitLines (line ++ newline :: rest) = line :: splitLines rest := by
  induction line with
  | nil => rfl
  | cons b line ih =>
      rw [List.mem_cons, not_or] at h
      rw [List.cons_append, splitLines, if_neg (Ne.symm h.1), ih h.2]

theorem splitLines_last {line : Bytes} (h : newline ∉ line) (hne : line ≠ []) :
    splitLines line = [line] := by
  induction line with
  | nil => exact absurd rfl hne
  | cons b line ih =>
      rw [List.mem_cons, not_or] at h
      rw [splitLines, if_neg (Ne.symm h.1)]
      by_cases hnil : line = []
      · rw [hnil]
        rfl
      · rw [ih h.2 hnil]

theorem splitLines_ne_nil {c : Bytes} (h : c ≠ []) : splitLines c ≠ [] := by
  obtain rfl | ⟨line, rest, hline, rfl⟩ | ⟨hne, hmem⟩ := text_cases c
  · exact absurd rfl h
  · rw [splitLines_line hline]
    exact List.cons_ne_nil _ _
  · rw [splitLines_last hmem hne]
    exact List.cons_ne_nil _ _

theorem endsWithNewline_line (line rest : Bytes) :
    EndsWithNewline (line ++ newline :: rest) ↔ rest = [] ∨ EndsWithNewline rest := by
  unfold EndsWithNewline
  cases rest with
  | nil => simp
  | cons b rest =>
      rw [List.getLast?_append, List.getLast?_cons_cons]
      have hsome : (b :: rest).getLast? ≠ none := by simp
      cases hlast : (b :: rest).getLast? with
      | none => exact absurd hlast hsome
      | some x => simp

theorem endedLines_line {line : Bytes} (h : newline ∉ line) (rest : Bytes) :
    endedLines (line ++ newline :: rest) = line :: endedLines rest := by
  have hne : line ++ newline :: rest ≠ [] := by simp
  unfold endedLines
  rw [splitLines_line h]
  by_cases hrest : rest = [] ∨ EndsWithNewline rest
  · rw [if_pos hrest, if_pos (Or.inr ((endsWithNewline_line line rest).mpr hrest))]
  · have hcond : ¬ (line ++ newline :: rest = [] ∨ EndsWithNewline (line ++ newline :: rest)) := by
      rintro (hnil | hend)
      · exact hne hnil
      · exact hrest ((endsWithNewline_line line rest).mp hend)
    rw [if_neg hrest, if_neg hcond,
      List.dropLast_cons_of_ne_nil (splitLines_ne_nil fun h => hrest (Or.inl h))]

theorem endedLines_of_notMem {c : Bytes} (h : newline ∉ c) : endedLines c = [] := by
  by_cases hc : c = []
  · rw [hc]
    rfl
  · have hend : ¬ EndsWithNewline c := fun hend => h (List.mem_of_getLast? hend)
    rw [endedLines, if_neg (by tauto), splitLines_last h hc]
    rfl

/-- No line is cut off exactly if the text is empty or ends with a newline. -/
theorem endedLines_eq_iff (c : Bytes) :
    endedLines c = splitLines c ↔ c = [] ∨ EndsWithNewline c := by
  unfold endedLines
  constructor
  · intro h
    by_contra hcond
    rw [if_neg hcond] at h
    have hlength := congrArg List.length h
    have hne := List.length_pos_iff.mpr (splitLines_ne_nil fun h => hcond (Or.inl h))
    rw [List.length_dropLast] at hlength
    omega
  · intro h
    rw [if_pos h]

theorem endsWithNewline_joinLines (lines : List Bytes) :
    joinLines lines = [] ∨ EndsWithNewline (joinLines lines) := by
  induction lines with
  | nil => exact Or.inl rfl
  | cons line lines ih =>
      right
      rw [joinLines, List.flatMap_cons, List.append_assoc, List.singleton_append,
        endsWithNewline_line]
      exact ih

/-- Splitting the lines of a text undoes joining them. -/
theorem splitLines_joinLines {lines : List Bytes} (h : ∀ line ∈ lines, newline ∉ line) :
    splitLines (joinLines lines) = lines := by
  induction lines with
  | nil => rfl
  | cons line lines ih =>
      rw [List.forall_mem_cons] at h
      rw [joinLines, List.flatMap_cons, List.append_assoc, List.singleton_append,
        splitLines_line h.1]
      exact congrArg _ (ih h.2)

/-! ## What the operations do -/

section Getline

variable {s : Fstream}

theorem getline_line {line rest : Bytes} (hgood : s.good = true) (hread : s.readable = true)
    (h : newline ∉ line) (hrest : s.rest = line ++ newline :: rest) :
    s.getline = (line, { s with before := s.before ++ line ++ [newline], rest }) := by
  have hline : ∀ b ∈ line, decide (b ≠ newline) = true := fun b hb =>
    decide_eq_true fun heq => h (heq ▸ hb)
  have hstop : decide (newline ≠ newline) = false := by simp
  unfold Fstream.getline
  rw [hgood, hread, hrest, List.takeWhile_append_of_pos hline, List.dropWhile_append_of_pos hline]
  simp

theorem getline_last (hgood : s.good = true) (hread : s.readable = true)
    (h : newline ∉ s.rest) :
    s.getline = (s.rest, { s with before := s.before ++ s.rest, rest := [], eofbit := true,
                                  failbit := s.rest.isEmpty }) := by
  have hline : ∀ b ∈ s.rest, decide (b ≠ newline) = true := fun b hb =>
    decide_eq_true fun heq => h (heq ▸ hb)
  unfold Fstream.getline
  rw [hgood, hread, List.takeWhile_eq_self_iff.mpr hline, List.dropWhile_eq_nil_iff.mpr hline]
  rfl

end Getline

end Fs
