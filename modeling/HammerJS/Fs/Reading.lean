import HammerJS.Fs.Stream
import HammerJS.Fs.Utf8

/-!
# What comes back from a stream

Reading a file through its stream, with `readLine()` until it returns the empty
string, and with `next()` until it throws.

* `V8.Utf8` — what the module relies on: texts are encoded in UTF-8.
* `readFile_reads` — `readLine()` gives back the file and one newline, always.
* `iterate_lines` — `next()` gives back the lines that end with a newline.
-/

namespace HammerJS

open Fs

/-- The conversions of strings keep to UTF-8. -/
structure V8.Utf8 [V8] : Prop where
  /-- `String::New` decodes what `Utf8Value` encodes. -/
  decode_encode : ∀ s, V8.decode (V8.encode s) = s
  /-- ASCII text stands for itself. -/
  encode_ascii : ∀ s : JSString, (∀ u ∈ s, u.toNat < 0x80) →
    V8.encode s = s.map fun u => UInt8.ofNat u.toNat
  /-- A newline is a character by itself. -/
  decode_newline : ∀ a b, V8.decode (a ++ newline :: b) = V8.decode a ++ 10 :: V8.decode b
  /-- An ASCII byte is part of no other character. -/
  mem_encode : ∀ (u : UInt16) (s : JSString), u.toNat < 0x80 →
    (UInt8.ofNat u.toNat ∈ V8.encode s ↔ u ∈ s)

/-- Conversions that keep to UTF-8, each code unit by itself. -/
@[reducible] def utf8Strings : V8 := ⟨Utf8.decode, Utf8.encode⟩

theorem utf8Strings_utf8 : @V8.Utf8 utf8Strings :=
  letI := utf8Strings
  { decode_encode := Utf8.decode_encode
    encode_ascii := fun _ h => Utf8.encode_ascii h
    decode_newline := Utf8.decode_append_ascii (x := newline) (by decide)
    mem_encode := fun _ s h => Utf8.mem_encode_ascii h s }

section

variable [V8]

theorem V8.Utf8.decode_nil (h : V8.Utf8) : V8.decode [] = [] := by
  have hencode : V8.encode [] = [] := h.encode_ascii [] (by simp)
  have hdecode := h.decode_encode []
  rwa [hencode] at hdecode

/-- The bytes of a text without a NUL are all handed to `String::New`. -/
theorem newString_of_notMem {c : Bytes} (h : 0 ∉ c) : newString c = .string (V8.decode c) := by
  have hall : ∀ b ∈ c, decide (b ≠ 0) = true := fun b hb => decide_eq_true fun heq => h (heq ▸ hb)
  rw [newString, List.takeWhile_eq_self_iff.mpr hall]

/-! ## Opening a stream -/

/-- A stream at the start of `c`, ready to be read. -/
structure Ready (s : Fstream) (c : Bytes) : Prop where
  good : s.good = true
  readable : s.readable = true
  rest : s.rest = c

omit [V8] in
/-- A new stream has the mode asked for, and no bit is set. -/
theorem openFile_eq {file : Option Bytes} {mode : OpenMode} {s : Fstream}
    (h : Fstream.openFile file mode = some s) :
    s.mode = mode ∧ s.isOpen = true ∧ s.good = true ∧
      (mode.input = true → file = some s.rest) := by
  unfold Fstream.openFile at h
  dsimp only at h
  split at h
  · cases file with
    | none => cases h
    | some c =>
        cases h
        exact ⟨rfl, rfl, rfl, fun _ => rfl⟩
  · split at h
    · cases h
      exact ⟨rfl, rfl, rfl, fun hinput => by contradiction⟩
    · cases h

theorem stream_constructor_eq {file : Option Bytes} {args : List JSString} {s : Fstream}
    (h : stream_constructor file args = .ok s) :
    streamMode args[1]? = .ok s.mode ∧ Fstream.openFile file s.mode = some s := by
  unfold stream_constructor at h
  split at h
  · cases h
  · cases hmode : streamMode args[1]? with
    | error message => rw [hmode] at h; cases h
    | ok mode =>
        rw [hmode] at h
        dsimp only at h
        cases hopen : Fstream.openFile file mode with
        | none => rw [hopen] at h; cases h
        | some stream =>
            rw [hopen] at h
            cases h
            have hs := (openFile_eq hopen).1
            exact ⟨by rw [hs], by rw [hs, hopen]⟩

/-- A stream that was opened for reading is at the start of its file. -/
theorem stream_constructor_ready {c : Bytes} {a : List JSString} {s : Fstream}
    (h : stream_constructor (some c) a = .ok s) (hread : s.mode.input = true) : Ready s c := by
  obtain ⟨-, hisOpen, hgood, hfile⟩ := openFile_eq (stream_constructor_eq h).2
  refine ⟨hgood, ?_, (Option.some.inj (hfile hread)).symm⟩
  rw [Fstream.readable, hisOpen, hread]
  rfl

/-- `fs.open(name, 'r')` opens a file for reading. -/
theorem stream_constructor_r (h : V8.Utf8) {name : JSString} {c : Bytes} {s : Fstream}
    (hopen : stream_constructor (some c) [name, [0x72]] = .ok s) : s.mode.input = true := by
  have hmode := (stream_constructor_eq hopen).1
  have hencode : V8.encode [0x72] = [0x72] := h.encode_ascii [0x72] (by simp)
  have hr : streamMode (some [0x72]) = .ok { input := true, output := false } := by
    unfold streamMode
    dsimp only
    rw [hencode]
    rfl
  have heq := hr.symm.trans hmode
  rw [← Except.ok.inj heq]

/-! ## Reading with `readLine()` -/

/-- The loop of `readFile` ends, and the text read is `out`. -/
def ReadsFile (s : Fstream) (out : JSString) : Prop := ∃ n, ∀ k, n ≤ k → readFile k s = some out

theorem ReadsFile.unique {s : Fstream} {out out' : JSString} (h : ReadsFile s out)
    (h' : ReadsFile s out') : out = out' := by
  obtain ⟨n, hn⟩ := h
  obtain ⟨m, hm⟩ := h'
  have heq := (hn (max n m) (le_max_left n m)).symm.trans (hm (max n m) (le_max_right n m))
  exact Option.some.inj heq

/-- The loop goes on after a call that returned something. -/
theorem ReadsFile.step {s s' : Fstream} {line out : JSString}
    (hcall : stream_readLine [] s = (.string line, s')) (hne : line ≠ []) (h : ReadsFile s' out) :
    ReadsFile s (line ++ out) := by
  obtain ⟨n, hn⟩ := h
  refine ⟨n + 1, fun k hk => ?_⟩
  obtain ⟨k, rfl⟩ := Nat.exists_eq_add_of_lt hk
  have hlength : line.length ≠ 0 := fun h0 => hne (List.length_eq_zero_iff.mp h0)
  rw [readFile, hcall]
  simp only [if_neg hlength, hn (n + k) (Nat.le_add_right n k), Option.map_some]

/-- The loop ends at the end of the file. -/
theorem ReadsFile.stop {s : Fstream} (h : s.eof = true) : ReadsFile s [] := by
  refine ⟨1, fun k hk => ?_⟩
  obtain ⟨k, rfl⟩ := Nat.exists_eq_add_of_le' hk
  rw [readFile]
  unfold stream_readLine
  rw [h]
  rfl

/-- `readLine()` returns a line with its newline. -/
theorem stream_readLine_eq {s s' : Fstream} {line : Bytes} (hV8 : V8.Utf8) (hgood : s.good = true)
    (hget : s.getline = (line, s')) (hline : 0 ∉ line) :
    stream_readLine [] s = (.string (V8.decode line ++ [10]), s') := by
  have heof : s.eof = false := by
    unfold Fstream.good at hgood
    unfold Fstream.eof
    cases h : s.eofbit with
    | false => rfl
    | true => rw [h] at hgood; cases hgood
  have hzero : 0 ∉ line ++ [newline] := by
    simp only [List.mem_append, List.mem_singleton, not_or]
    exact ⟨hline, by decide⟩
  unfold stream_readLine
  simp only [List.length_nil, heof, hget, newString_of_notMem hzero, hV8.decode_newline,
    hV8.decode_nil]
  rfl

/-- **`readLine()` gives back the file and one newline more**, whatever it ends with. -/
theorem readFile_reads (hV8 : V8.Utf8) {s : Fstream} {c : Bytes} (hc : 0 ∉ c)
    (hs : Ready s c) : ReadsFile s (V8.decode c ++ [10]) := by
  induction hlen : c.length using Nat.strong_induction_on generalizing c s with
  | _ n ih =>
      by_cases hmem : newline ∈ c
      · obtain ⟨line, rest, rfl, hline⟩ := List.eq_append_cons_of_mem hmem
        rw [List.mem_append, List.mem_cons, not_or, not_or] at hc
        have hget := getline_line hs.good hs.readable hline hs.rest
        have hcall := stream_readLine_eq hV8 hs.good hget hc.1
        have hready : Ready { s with before := s.before ++ line ++ [newline], rest } rest :=
          ⟨hs.good, hs.readable, rfl⟩
        have hlater := ih rest.length (by rw [← hlen]; simp; omega) hc.2.2 hready rfl
        have h := hlater.step hcall (by simp)
        rw [List.append_assoc, List.singleton_append] at h
        rw [hV8.decode_newline, List.append_assoc, List.cons_append]
        exact h
      · have hget := getline_last hs.good hs.readable (hs.rest ▸ hmem)
        have hcall := stream_readLine_eq hV8 hs.good hget (hs.rest ▸ hc)
        have h := (ReadsFile.stop (s := _) rfl).step hcall (by simp)
        rw [hs.rest, List.append_nil] at h
        exact h

/-- What the loop should give back: the file, with the newline that its last line
lacks. -/
def fileText (c : Bytes) : JSString :=
  if c = [] ∨ EndsWithNewline c then V8.decode c else V8.decode c ++ [10]

/-- **Reading a file back with `readLine()` is exact only where the file has a last
line without a newline.**  Elsewhere the loop gets one line too many. -/
theorem readFile_exact_iff (hV8 : V8.Utf8) (name : JSString) {c : Bytes} (hc : 0 ∉ c)
    {s : Fstream} (hopen : stream_constructor (some c) [name, [0x72]] = .ok s) :
    ReadsFile s (fileText c) ↔ c ≠ [] ∧ ¬ EndsWithNewline c := by
  have hs := stream_constructor_ready hopen (stream_constructor_r hV8 hopen)
  have hread := readFile_reads hV8 hc hs
  constructor
  · intro h
    by_contra hcond
    have hcases : c = [] ∨ EndsWithNewline c := by tauto
    have heq := hread.unique h
    rw [fileText, if_pos hcases] at heq
    have hlength := congrArg List.length heq
    simp at hlength
  · rintro ⟨hne, hend⟩
    rw [fileText, if_neg (by tauto)]
    exact hread

omit [V8] in
/-- The file `a`. -/
theorem readFile_exact_iff_a :
    letI := utf8Strings
    ∃ s, stream_constructor (some [0x61]) [[0x66], [0x72]] = .ok s ∧
      (ReadsFile s (fileText [0x61]) ↔ ([0x61] : Bytes) ≠ [] ∧ ¬ EndsWithNewline [0x61]) :=
  letI := utf8Strings
  ⟨_, rfl, readFile_exact_iff utf8Strings_utf8 [0x66] (by decide) rfl⟩

omit [V8] in
/-- The file that holds one newline comes back with two. -/
theorem readFile_newline :
    letI := utf8Strings
    ∃ s, stream_constructor (some [newline]) [[0x66], [0x72]] = .ok s ∧
      ReadsFile s [10, 10] ∧ ¬ ReadsFile s (fileText [newline]) := by
  let := utf8Strings
  refine ⟨_, rfl, ?_⟩
  have hs : Ready _ [newline] := stream_constructor_ready (a := [[0x66], [0x72]]) rfl rfl
  have hread := readFile_reads utf8Strings_utf8 (c := [newline]) (by decide) hs
  refine ⟨hread, fun h => ?_⟩
  have heq := hread.unique h
  cases heq

/-! ## Iterating with `next()` -/

/-- `next()` returns the strings `lines`, one a call, and then throws. -/
def Iterates (s : Fstream) (lines : List JSString) : Prop :=
  ∃ n, ∀ k, n ≤ k → iterate k s = some lines

theorem Iterates.unique {s : Fstream} {lines lines' : List JSString} (h : Iterates s lines)
    (h' : Iterates s lines') : lines = lines' := by
  obtain ⟨n, hn⟩ := h
  obtain ⟨m, hm⟩ := h'
  have heq := (hn (max n m) (le_max_left n m)).symm.trans (hm (max n m) (le_max_right n m))
  exact Option.some.inj heq

theorem Iterates.step {s s' : Fstream} {line : JSString} {lines : List JSString}
    (hcall : stream_next [] s = (.string line, s')) (h : Iterates s' lines) :
    Iterates s (line :: lines) := by
  obtain ⟨n, hn⟩ := h
  refine ⟨n + 1, fun k hk => ?_⟩
  obtain ⟨k, rfl⟩ := Nat.exists_eq_add_of_lt hk
  rw [iterate, hcall]
  simp only [hn (n + k) (Nat.le_add_right n k), Option.map_some]

theorem Iterates.stop {s s' : Fstream} {message : String}
    (hcall : stream_next [] s = (.exception message, s')) : Iterates s [] := by
  refine ⟨1, fun k hk => ?_⟩
  obtain ⟨k, rfl⟩ := Nat.exists_eq_add_of_le' hk
  rw [iterate, hcall]

/-- `next()` returns a line unless the file ends in it. -/
theorem stream_next_eq {s s' : Fstream} {line : Bytes} (hget : s.getline = (line, s'))
    (heof : s'.eof = false) (hline : 0 ∉ line) :
    stream_next [] s = (.string (V8.decode line), s') := by
  unfold stream_next
  rw [hget, ← newString_of_notMem hline]
  simp [heof]

/-- **`next()` gives back the lines that end with a newline**, and throws then. -/
theorem iterate_lines {s : Fstream} {c : Bytes} (hc : 0 ∉ c) (hs : Ready s c) :
    Iterates s ((endedLines c).map V8.decode) := by
  induction hlen : c.length using Nat.strong_induction_on generalizing c s with
  | _ n ih =>
      by_cases hmem : newline ∈ c
      · obtain ⟨line, rest, rfl, hline⟩ := List.eq_append_cons_of_mem hmem
        rw [List.mem_append, List.mem_cons, not_or, not_or] at hc
        have hget := getline_line hs.good hs.readable hline hs.rest
        have hready : Ready { s with before := s.before ++ line ++ [newline], rest } rest :=
          ⟨hs.good, hs.readable, rfl⟩
        have heof : s.eof = false := by
          have hgood := hs.good
          unfold Fstream.good at hgood
          unfold Fstream.eof
          cases h : s.eofbit with
          | false => rfl
          | true => rw [h] at hgood; cases hgood
        have hcall := stream_next_eq hget heof hc.1
        have hlater := ih rest.length (by rw [← hlen]; simp; omega) hc.2.2 hready rfl
        rw [endedLines_line hline, List.map_cons]
        exact hlater.step hcall
      · have hget := getline_last hs.good hs.readable (hs.rest ▸ hmem)
        rw [endedLines_of_notMem hmem]
        have hcall : ∃ message s', stream_next [] s = (.exception message, s') := by
          unfold stream_next
          rw [hget]
          exact ⟨_, _, rfl⟩
        obtain ⟨message, s', hcall⟩ := hcall
        exact Iterates.stop hcall

/-! ## Writing lines -/

/-- A stream at the end of `c`, ready to be written to. -/
structure Writing (s : Fstream) (c : Bytes) : Prop where
  good : s.good = true
  writable : s.writable = true
  content : s.content = c
  rest : s.rest = []

/-- A stream that was opened with `w` starts with an empty file. -/
theorem stream_constructor_w (h : V8.Utf8) {file : Option Bytes} {name : JSString} {s : Fstream}
    (hopen : stream_constructor file [name, [0x77]] = .ok s) : Writing s [] := by
  obtain ⟨hmode, hfile⟩ := stream_constructor_eq hopen
  have hencode : V8.encode [0x77] = [0x77] := h.encode_ascii [0x77] (by simp)
  have hw : streamMode (some [0x77]) = .ok { input := false, output := true } := by
    unfold streamMode
    dsimp only
    rw [hencode]
    rfl
  have heq := Except.ok.inj (hw.symm.trans hmode)
  rw [← heq] at hfile
  cases hfile
  exact ⟨rfl, rfl, rfl, rfl⟩

omit [V8] in
theorem Writing.write {s : Fstream} {c : Bytes} (h : Writing s c) (bytes : Bytes) :
    Writing (s.write bytes) (c ++ bytes) := by
  unfold Fstream.write
  rw [h.good, h.writable]
  simp only [Bool.not_true, Bool.false_eq_true, if_false]
  by_cases hnil : bytes = []
  · rw [if_pos hnil, hnil, List.append_nil]
    exact h
  · rw [if_neg hnil]
    refine ⟨h.good, h.writable, ?_, ?_⟩
    · rw [← h.content]
      unfold Fstream.content
      rw [h.rest]
      simp
    · rw [h.rest]
      exact List.drop_nil

/-- Each call of `writeLine()` adds its line to the file. -/
theorem Writing.runCalls {s : Fstream} {c : Bytes} (h : Writing s c) (lines : List JSString) :
    Writing (runCalls s (lines.map .writeLine)) (c ++ joinLines (lines.map V8.encode)) := by
  induction lines generalizing s c with
  | nil =>
      rw [show joinLines (([] : List JSString).map V8.encode) = [] from rfl, List.append_nil]
      exact h
  | cons line lines ih =>
      have hline := (h.write (V8.encode line)).write [newline]
      have hrest := ih hline
      rw [List.append_assoc c, List.append_assoc c] at hrest
      exact hrest

/-- **Iterating a file with `next()` delivers every line exactly if the file is
empty or ends with a newline**, which a file written with `writeLine()` does. -/
theorem iterate_exact_iff (hV8 : V8.Utf8) :
    (∀ (c : Bytes) (args : List JSString) (s : Fstream), 0 ∉ c →
      stream_constructor (some c) args = .ok s → s.mode.input = true →
        (Iterates s ((splitLines c).map V8.decode) ↔ c = [] ∨ EndsWithNewline c)) ∧
      ∀ (lines : List JSString) (file : Option Bytes) (name : JSString) (s t : Fstream)
        (args : List JSString), (∀ line ∈ lines, 10 ∉ line ∧ 0 ∉ line) →
        stream_constructor file [name, [0x77]] = .ok s →
        stream_constructor
          (some (closeStream (runCalls s (lines.map .writeLine))).content) args = .ok t →
        t.mode.input = true → Iterates t lines := by
  constructor
  · intro c args s hc hopen hread
    have hiter := iterate_lines hc (stream_constructor_ready hopen hread)
    rw [← endedLines_eq_iff]
    constructor
    · intro h
      have heq := congrArg List.length (hiter.unique h)
      rw [List.length_map, List.length_map] at heq
      unfold endedLines at heq ⊢
      split at heq
      · rename_i hcond
        rw [if_pos hcond]
      · rename_i hcond
        have hne := List.length_pos_iff.mpr (splitLines_ne_nil fun h => hcond (Or.inl h))
        rw [List.length_dropLast] at heq
        omega
    · intro h
      rw [← h]
      exact hiter
  · intro lines file name s t args hlines hwrite hopen hread
    have hcontent : (closeStream (runCalls s (lines.map .writeLine))).content =
        joinLines (lines.map V8.encode) := by
      have h := ((stream_constructor_w hV8 hwrite).runCalls lines).content
      rw [List.nil_append] at h
      rw [← h]
      unfold closeStream stream_close Fstream.close Fstream.content
      simp only [List.length_nil, ne_eq, not_true_eq_false, if_false]
      split <;> rfl
    rw [hcontent] at hopen
    have hnewline : ∀ line ∈ lines.map V8.encode, newline ∉ line := by
      simp only [List.forall_mem_map]
      exact fun line hline hmem =>
        (hlines line hline).1 ((hV8.mem_encode 10 line (by decide)).mp hmem)
    have hzero : (0 : UInt8) ∉ joinLines (lines.map V8.encode) := by
      simp only [joinLines, List.mem_flatMap, List.mem_map, List.mem_append, List.mem_singleton]
      rintro ⟨_, ⟨line, hline, rfl⟩, hmem | hmem⟩
      · exact (hlines line hline).2 ((hV8.mem_encode 0 line (by decide)).mp hmem)
      · cases hmem
    have hiter := iterate_lines hzero (stream_constructor_ready hopen hread)
    rw [(endedLines_eq_iff _).mpr (endsWithNewline_joinLines _), splitLines_joinLines hnewline,
      List.map_map] at hiter
    have hid : V8.decode ∘ V8.encode = id := funext hV8.decode_encode
    rwa [hid, List.map_id] at hiter

omit [V8] in
/-- The file `a` and a newline, and one written with a line `a`. -/
theorem iterate_exact_iff_a :
    letI := utf8Strings
    (∃ s, stream_constructor (some [0x61, newline]) [[0x66]] = .ok s ∧
      (Iterates s [[0x61]] ↔ ([0x61, newline] : Bytes) = [] ∨ EndsWithNewline [0x61, newline])) ∧
      ∃ s t, stream_constructor none [[0x66], [0x77]] = .ok s ∧
        stream_constructor (some (closeStream (runCalls s [.writeLine [0x61]])).content)
          [[0x66]] = .ok t ∧ Iterates t [[0x61]] :=
  letI := utf8Strings
  ⟨⟨_, rfl, (iterate_exact_iff utf8Strings_utf8).1 [0x61, newline] [[0x66]] _ (by decide) rfl rfl⟩,
    _, _, rfl, rfl, (iterate_exact_iff utf8Strings_utf8).2 [[0x61]] none [0x66] _ _ [[0x66]]
      (by decide) rfl rfl rfl⟩

omit [V8] in
/-- The last line of the file `a` is lost. -/
theorem iterate_a :
    letI := utf8Strings
    ∃ s, stream_constructor (some [0x61]) [[0x66], [0x72]] = .ok s ∧
      Iterates s [] ∧ ¬ Iterates s ((splitLines [0x61]).map V8.decode) := by
  let := utf8Strings
  refine ⟨_, rfl, ?_⟩
  have hs : Ready _ [0x61] := stream_constructor_ready (a := [[0x66], [0x72]]) rfl rfl
  have hiter := iterate_lines (c := [0x61]) (by decide) hs
  refine ⟨hiter, fun h => ?_⟩
  have heq := hiter.unique h
  cases heq

/-! ## Closed streams -/

/-- No call opens or closes a stream. -/
theorem perform_isOpen (call : StreamCall) (s : Fstream) :
    (call.perform s).2.isOpen = s.isOpen := by
  have hgetline : s.getline.2.isOpen = s.isOpen := by
    unfold Fstream.getline
    split
    · rfl
    · split
      · rfl
      · dsimp only
        split <;> rfl
  have hwrite : ∀ (s : Fstream) bytes, (s.write bytes).isOpen = s.isOpen := by
    intro s bytes
    unfold Fstream.write
    split
    · rfl
    · split
      · rfl
      · split <;> rfl
  cases call with
  | next =>
      unfold StreamCall.perform stream_next
      simp only [List.length_nil, ne_eq, not_true_eq_false, if_false]
      split <;> exact hgetline
  | readLine =>
      unfold StreamCall.perform stream_readLine
      simp only [List.length_nil, ne_eq, not_true_eq_false, if_false]
      split
      · rfl
      · exact hgetline
  | writeLine line => exact (hwrite _ _).trans (hwrite _ _)
  | flush => rfl

theorem runCalls_isOpen (s : Fstream) (calls : List StreamCall) :
    (runCalls s calls).isOpen = s.isOpen := by
  induction calls generalizing s with
  | nil => rfl
  | cons call calls ih => exact (ih _).trans (perform_isOpen call s)

omit [V8] in
theorem closeStream_isOpen (s : Fstream) : (closeStream s).isOpen = false := by
  show (Fstream.close s).isOpen = false
  unfold Fstream.close
  split
  · rfl
  · rename_i h
    exact Bool.eq_false_iff.mpr h

/-- **A call on a closed stream throws exactly if it is `next()`, and the end of the
file was met before or no operation has failed yet.**  `readLine()`, `writeLine()`
and `flush()` never do. -/
theorem closed_throws_iff (s : Fstream) (calls later : List StreamCall) (call : StreamCall) :
    (call.perform (runCalls (closeStream (runCalls s calls)) later)).1.isException = true ↔
      call = .next ∧ ((runCalls (closeStream (runCalls s calls)) later).eof = true ∨
        (runCalls (closeStream (runCalls s calls)) later).fail = false) := by
  have hopen : (runCalls (closeStream (runCalls s calls)) later).isOpen = false :=
    (runCalls_isOpen _ later).trans (closeStream_isOpen _)
  generalize runCalls (closeStream (runCalls s calls)) later = t at hopen ⊢
  cases call with
  | next =>
      have hread : t.readable = false := by rw [Fstream.readable, hopen, Bool.false_and]
      unfold StreamCall.perform stream_next Fstream.getline
      simp only [List.length_nil, ne_eq, not_true_eq_false, if_false, hread, true_and]
      unfold Fstream.good Fstream.eof Fstream.fail
      cases t.eofbit <;> cases t.failbit <;> cases t.badbit <;> simp [Reply.isException, newString]
  | readLine =>
      unfold StreamCall.perform stream_readLine
      simp only [List.length_nil, ne_eq, not_true_eq_false, if_false, reduceCtorEq, false_and,
        iff_false]
      split <;> simp [Reply.isException, newString]
  | writeLine line => simp [StreamCall.perform, stream_writeLine, Reply.isException]
  | flush => simp [StreamCall.perform, stream_flush, Reply.isException]

omit [V8] in
/-- On a stream that is closed right after it was opened, a line that is written
and a line that is read are reported as if nothing were wrong. -/
theorem closed_accepts :
    letI := utf8Strings
    ∃ s, stream_constructor (some [0x61]) [[0x66], [0x72]] = .ok s ∧
      ((StreamCall.writeLine [0x62]).perform (closeStream s)).1 = .stream ∧
        (StreamCall.readLine.perform (closeStream s)).1 = .string [10] ∧
          (StreamCall.flush.perform (closeStream s)).1 = .stream :=
  ⟨_, rfl, rfl, rfl, rfl⟩

end

end HammerJS
