import HammerJS.Spelling.Scanners

/-!
# Reading identifiers

`parseIdentifier` over the ways to write an ASCII identifier name.

* `NamePrefix` — what an ASCII identifier name begins with.
* `NameSpelling` — the texts of a name: any of its characters may stand as `\uXXXX`.
* `identifierLoop_reads` — the scanning loop over a spelled part of a name.
* `parseIdentifier_reads` — the name and the token of a spelling, and the error token
  where an escape denotes a character that cannot stand there.
-/

namespace HammerJS

open Lexer Procs

/-! ## Names and their spellings -/

/-- A letter, `$` or `_`. -/
def isIdStart (c : Char) : Bool := c.isAlpha || c == '$' || c == '_'

/-- What may stand in a name behind its first character. -/
def isIdPart (c : Char) : Bool := isIdStart c || c.isDigit

/-- The characters begin an ASCII identifier name, or there are none. -/
structure NamePrefix (name : List Char) : Prop where
  head : ∀ c ∈ name.head?, isIdStart c = true
  all : ∀ c ∈ name, isIdPart c = true

/-- The texts of a name, and whether an escape is used. -/
inductive NameSpelling : Identifier → List UChar → Bool → Prop
  | nil : NameSpelling [] [] false
  | char {c : UChar} {name : Identifier} {text : List UChar} {escaped : Bool}
      (h : NameSpelling name text escaped) : NameSpelling (c :: name) (c :: text) escaped
  | escape {digits text : List UChar} {name : Identifier} {escaped : Bool}
      (hd : HexDigits digits) (hlen : digits.length = 4) (h : NameSpelling name text escaped) :
      NameSpelling (hexUnit digits :: name) (identifierOfChars ['\\', 'u'] ++ digits ++ text) true

/-- The text goes on with a character of a name, or with an escape. -/
def GoesOn (text : List UChar) : Prop :=
  ∃ c : Char, (isIdPart c = true ∨ c = '\\') ∧ text.head? = some c.toNat.toUInt16

/-! ## The character classes -/

theorem isIdPart_ascii {c : Char} (h : isIdPart c = true) : c.toNat < 128 := by
  simp only [isIdPart, isIdStart, Char.isAlpha, Char.isUpper, Char.isLower, Char.isDigit,
    Bool.or_eq_true, Bool.and_eq_true, decide_eq_true_eq, beq_iff_eq, UInt32.le_iff_toNat_le,
    ge_iff_le] at h
  have : c.toNat = c.val.toNat := rfl
  have : 'Z'.val.toNat = 90 := rfl
  have : 'z'.val.toNat = 122 := rfl
  have : '9'.val.toNat = 57 := rfl
  rcases h with (((h | h) | rfl) | rfl) | h
  · omega
  · omega
  · decide
  · decide
  · omega

theorem isIdPart_of_isIdStart {c : Char} (h : isIdStart c = true) : isIdPart c = true := by
  simp [isIdPart, h]

/-- The classes of the lexer are the ASCII ones. -/
theorem ident_classes {n : Nat} (h : n < 128) :
    isIdentStart n = isIdStart (Char.ofNat n) ∧ isIdentPart n = isIdPart (Char.ofNat n) := by
  have hall : ∀ n < 128, isIdentStart (n : Nat) = isIdStart (Char.ofNat n) ∧
      isIdentPart (n : Nat) = isIdPart (Char.ofNat n) := by decide +kernel
  exact hall n h

example : isIdentStart '$'.toNat = true ∧ isIdentPart '7'.toNat = true := by decide +kernel

theorem ident_ascii {c : UChar} (h : isIdentPart c.toNat = true) : c.toNat < 128 := by
  simp only [isIdentPart, isASCII, Bool.and_eq_true, decide_eq_true_eq] at h
  omega

/-- What a name may go on with. -/
def goesWith (started : Bool) (c : Char) : Bool := if started then isIdPart c else isIdStart c

theorem goesWith_ascii {started : Bool} {c : Char} (h : goesWith started c = true) :
    c.toNat < 128 := by
  cases started with
  | true => exact isIdPart_ascii h
  | false => exact isIdPart_ascii (isIdPart_of_isIdStart h)

/-- A character of the text stands in a name when it is the code of an ASCII character
that does. -/
theorem namesWith_iff (started : Bool) (c : UChar) : namesWith started c ↔
    ∃ d : Char, goesWith started d = true ∧ c = d.toNat.toUInt16 := by
  constructor
  · intro h
    have hpart : isIdentPart c.toNat = true := by
      cases started with
      | true => exact h
      | false => exact isIdentPart_of_start h
    have hlt := ident_ascii hpart
    have hchars : ∀ n < 128, (Char.ofNat n).toNat = n := by decide +kernel
    have hchar := hchars c.toNat hlt
    refine ⟨Char.ofNat c.toNat, ?_, by simp [hchar]⟩
    have hclasses := ident_classes hlt
    cases started with
    | true => exact hclasses.2.symm.trans h
    | false => exact hclasses.1.symm.trans h
  · rintro ⟨d, hd, rfl⟩
    have hlt := goesWith_ascii hd
    have hunit : d.toNat.toUInt16.toNat = d.toNat := by
      rw [UInt16.toNat_ofNat', Nat.mod_eq_of_lt (by omega)]
    have hclasses := ident_classes hlt
    rw [Char.ofNat_toNat] at hclasses
    unfold namesWith
    rw [hunit]
    cases started with
    | true => exact hclasses.2.trans hd
    | false => exact hclasses.1.trans hd

/-- A prefix of a name and a character that it may go on with. -/
theorem NamePrefix.append_iff {name : List Char} (h : NamePrefix name) (c : Char) :
    NamePrefix (name ++ [c]) ↔ goesWith (!name.isEmpty) c = true := by
  cases name with
  | nil =>
      constructor
      · exact fun h => h.head c rfl
      · intro hc
        exact ⟨by simpa [goesWith] using hc, by simpa using isIdPart_of_isIdStart hc⟩
  | cons d name =>
      constructor
      · exact fun h => h.all c (by simp)
      · intro hc
        refine ⟨by simpa using h.head, fun e he => ?_⟩
        rcases List.mem_append.mp he with he | he
        · exact h.all e he
        · rw [List.mem_singleton.mp he]
          exact hc

/-- The characters of a text of a name are those that the lexer looks for. -/
theorem NameSpelling.parts {name : Identifier} {text : List UChar} {escaped : Bool}
    (h : NameSpelling name text escaped) {started : Bool}
    (hhead : ∀ c ∈ name.head?, namesWith started c) (hall : ∀ c ∈ name, namesWith true c) :
    IdentifierParts started text name escaped := by
  induction h generalizing started with
  | nil => exact .nil
  | char h ih =>
      have htail := fun c hc => hall c (List.mem_cons_of_mem _ hc)
      exact .char (hhead _ rfl) (ih (fun c hc => htail c (List.mem_of_mem_head? hc)) htail)
  | escape hd hlen h ih =>
      have htail := fun c hc => hall c (List.mem_cons_of_mem _ hc)
      exact .escape hd hlen (hhead _ rfl)
        (ih (fun c hc => htail c (List.mem_of_mem_head? hc)) htail)

theorem NamePrefix.parts {name : List Char} (h : NamePrefix name) {text : List UChar}
    {escaped : Bool} (hs : NameSpelling (identifierOfChars name) text escaped) :
    IdentifierParts false text (identifierOfChars name) escaped := by
  apply hs.parts
  · intro c hc
    simp only [identifierOfChars, List.head?_map, Option.mem_map] at hc
    obtain ⟨d, hd, rfl⟩ := hc
    exact (namesWith_iff false _).mpr ⟨d, h.head d hd, rfl⟩
  · intro c hc
    simp only [identifierOfChars, List.mem_map] at hc
    obtain ⟨d, hd, rfl⟩ := hc
    exact (namesWith_iff true _).mpr ⟨d, h.all d hd, rfl⟩

theorem not_goesOn {text : List UChar} (h : ¬ GoesOn text) :
    isIdentPart (codeUnit text) = false ∧ codeUnit text ≠ chr '\\' := by
  cases text with
  | nil => exact ⟨end_not_class.1, by decide⟩
  | cons c text =>
      constructor
      · rw [← Bool.not_eq_true]
        intro hpart
        obtain ⟨d, hd, rfl⟩ := (namesWith_iff true c).mp hpart
        exact h ⟨d, Or.inl hd, rfl⟩
      · intro hslash
        have hc : c = '\\'.toNat.toUInt16 := by
          apply UInt16.toNat_inj.mp
          have : (c.toNat : Int) = ('\\'.toNat.toUInt16.toNat : Int) := hslash
          exact_mod_cast this
        exact h ⟨'\\', Or.inr rfl, by rw [hc]; rfl⟩

/-! ## The scanning loop -/

namespace Lexer

/-- The lexer in front of `text`. -/
def skipTo (l : Lexer) (text : List UChar) : Lexer :=
  { l with code := text, current := codeUnit text }

theorem Valid.skipTo_code {l : Lexer} (hv : l.Valid) : l.skipTo l.code = l := by
  rw [skipTo, ← show l.current = codeUnit l.code from hv]

theorem codeUnit_cons (c : UChar) (text : List UChar) : codeUnit (c :: text) = c.toNat := rfl

/-- Four hexadecimal digits are read as the code unit they denote. -/
theorem getUnicodeCharacter_reads {l : Lexer} {digits rest : List UChar} (hd : HexDigits digits)
    (hlen : digits.length = 4) {Q : Int → Lexer → Prop}
    (h : Q (hexUnit digits).toNat (l.skipTo rest)) :
    Succeeds getUnicodeCharacter (l.skipTo (digits ++ rest)) Q := by
  match digits, hlen with
  | [c₀, c₁, c₂, c₃], hlen =>
    have h₀ := hd c₀ (by simp)
    have h₁ := hd c₁ (by simp)
    have h₂ := hd c₂ (by simp)
    have h₃ := hd c₃ (by simp)
    have hvalue : (hexUnit [c₀, c₁, c₂, c₃]).toNat =
        (hexValue c₀.toNat * 16 + hexValue c₁.toNat) * 256 +
          (hexValue c₂.toNat * 16 + hexValue c₃.toNat) := by
      rw [hexUnit_toNat hd (le_of_eq hlen), hexValue_eq h₀, hexValue_eq h₁, hexValue_eq h₂,
        hexValue_eq h₃]
      simp only [digitsValue, charsOf, List.map_cons, List.map_nil, List.foldl_cons,
        List.foldl_nil]
      omega
    simp only [getUnicodeCharacter, succeeds_bind, succeeds_getCurrent, succeeds_peek, skipTo,
      List.cons_append, List.nil_append, List.drop_succ_cons, List.drop_zero, codeUnit_cons, h₀,
      h₁, h₂, h₃, Bool.not_true, Bool.or_self, Bool.false_eq_true, if_false, convertUnicode,
      convertHex, succeeds_assert, succeeds_pure, succeeds_shift, advance, List.tail_cons, true_and]
    rw [hvalue] at h
    exact ⟨by omega, by omega, by omega, by omega, h⟩

/-- At an escape the loop goes on behind it, or gives up where a name does not go on with
the character that the escape denotes. -/
theorem identifierLoop_escape {required : Bool} {seg digits rest : List UChar} {l : Lexer}
    {n : Nat} {Q : Option (Bool × List UChar) → Lexer → Prop} (hd : HexDigits digits)
    (hlen : digits.length = 4)
    (hnames : namesWith (!(l.buffer16 ++ seg).isEmpty) (hexUnit digits) →
      Succeeds (identifierLoop true rest n)
        ({ l with buffer16 := l.buffer16 ++ seg ++ [hexUnit digits] }.skipTo rest) Q)
    (hnot : ¬ namesWith (!(l.buffer16 ++ seg).isEmpty) (hexUnit digits) →
      Q none ({ l with buffer16 := l.buffer16 ++ seg }.skipTo rest)) :
    Succeeds (identifierLoop required (seg ++ (identifierOfChars ['\\', 'u'] ++ digits ++ rest))
      (n + 1)) (l.skipTo (identifierOfChars ['\\', 'u'] ++ digits ++ rest)) Q := by
  have hslash : codeUnit (identifierOfChars ['\\', 'u'] ++ digits ++ rest) = chr '\\' := rfl
  have htail : (identifierOfChars ['\\', 'u'] ++ digits ++ rest).tail =
      identifierOfChars ['u'] ++ (digits ++ rest) := rfl
  have hu : codeUnit (identifierOfChars ['u'] ++ (digits ++ rest)) = chr 'u' := rfl
  have htail' : (identifierOfChars ['u'] ++ (digits ++ rest)).tail = digits ++ rest := rfl
  have hpart : ¬ isIdentPart (chr '\\') = true := by decide
  simp only [identifierLoop, succeeds_bind, succeeds_getCurrent, succeeds_appendSegment,
    succeeds_shift, succeeds_ite, skipTo, advance, hslash, htail, hu, htail', if_neg hpart, ne_eq,
    not_true, if_false, segment_append]
  refine ⟨by decide, by decide, ?_⟩
  apply getUnicodeCharacter_reads (l := { l with buffer16 := l.buffer16 ++ seg }) hd hlen
  have hne : ((hexUnit digits).toNat : Int) ≠ -1 := by omega
  simp only [if_neg hne, succeeds_get, succeeds_record16, succeeds_currentCharacter, recorded_unit,
    succeeds_pure, skipTo]
  have hlt := (hexUnit digits).toNat_lt
  have htest : (if ¬ (l.buffer16 ++ seg).length = 0 then !isIdentPart (hexUnit digits).toNat
      else !isIdentStart (hexUnit digits).toNat) = true ↔
        ¬ namesWith (!(l.buffer16 ++ seg).isEmpty) (hexUnit digits) := by
    cases h : l.buffer16 ++ seg <;> simp [namesWith]
  by_cases hc : namesWith (!(l.buffer16 ++ seg).isEmpty) (hexUnit digits)
  · rw [if_neg fun h => htest.mp h hc]
    exact ⟨by omega, hnames hc⟩
  · rw [if_pos (htest.mpr hc)]
    exact hnot hc

/-- Over the text of a part of a name the loop gathers the part: what is in the buffer and
the text behind `identifierStart`, put together. -/
theorem identifierLoop_reads {started escaped : Bool} {text : List UChar} {name : Identifier}
    (h : IdentifierParts started text name escaped) {required : Bool} {s rest : List UChar}
    {l : Lexer} {n : Nat} {Q : Option (Bool × List UChar) → Lexer → Prop}
    (hstarted : started = !(l.buffer16 ++ s).isEmpty) (hn : (text ++ rest).length < n)
    (hrest : ∀ m seg' buffer, rest.length < m → buffer ++ seg' = l.buffer16 ++ s ++ name →
      (escaped = false → buffer = l.buffer16) →
      Succeeds (identifierLoop (required || escaped) (seg' ++ rest) m)
        ({ l with buffer16 := buffer }.skipTo rest) Q) :
    Succeeds (identifierLoop required (s ++ (text ++ rest)) n) (l.skipTo (text ++ rest)) Q := by
  induction h generalizing required s l n with
  | nil =>
      rw [← Bool.or_false required]
      exact hrest n s l.buffer16 hn (by simp) fun _ => rfl
  | @char b escaped c text name hc h ih =>
      obtain ⟨n, rfl⟩ : ∃ m, n = m + 1 := ⟨n - 1, by omega⟩
      have hpart : isIdentPart c.toNat = true := by
        cases b with
        | true => exact hc
        | false => exact isIdentPart_of_start hc
      simp only [identifierLoop, succeeds_bind, succeeds_getCurrent, skipTo, List.cons_append,
        codeUnit_cons, if_pos hpart, succeeds_shift, advance, List.tail_cons]
      refine ⟨by omega, ?_⟩
      have happ : s ++ c :: (text ++ rest) = s ++ [c] ++ (text ++ rest) := by simp
      rw [happ]
      refine ih (by simp) (by simpa using hn) fun m seg' buffer hm hbuffer hkeep => ?_
      exact hrest m seg' buffer hm (by simpa using hbuffer) hkeep
  | @escape b escaped digits text name hd hlen hc h ih =>
      obtain ⟨n, rfl⟩ : ∃ m, n = m + 1 := ⟨n - 1, by omega⟩
      rw [List.append_assoc (identifierOfChars ['\\', 'u'] ++ digits)] at hn ⊢
      subst hstarted
      refine identifierLoop_escape hd hlen (fun _ => ?_) fun hnot => absurd hc hnot
      have hn' : (text ++ rest).length < n := by
        simp only [List.length_append, identifierOfChars, List.length_map, List.length_cons,
          List.length_nil] at hn ⊢
        omega
      refine ih (l := { l with buffer16 := l.buffer16 ++ s ++ [hexUnit digits] }) (s := [])
        (by simp) hn' fun m seg' buffer hm hbuffer _ => ?_
      rw [Bool.true_or]
      have hrest := hrest m seg' buffer hm (by simpa using hbuffer) (by simp)
      rwa [Bool.or_true] at hrest

/-- Where the text does not go on with the name, the loop ends. -/
theorem identifierLoop_ends {required : Bool} {start rest : List UChar} {l : Lexer} {n : Nat}
    {Q : Option (Bool × List UChar) → Lexer → Prop} (hn : 0 < n) (hrest : ¬ GoesOn rest)
    (h : Q (some (required, start)) (l.skipTo rest)) :
    Succeeds (identifierLoop required start n) (l.skipTo rest) Q := by
  obtain ⟨n, rfl⟩ : ∃ m, n = m + 1 := ⟨n - 1, by omega⟩
  obtain ⟨hpart, hslash⟩ := not_goesOn hrest
  have hpart : ¬ isIdentPart (l.skipTo rest).current = true := by
    rw [Bool.not_eq_true]
    exact hpart
  simp only [identifierLoop, succeeds_bind, succeeds_getCurrent, if_neg hpart,
    if_pos (show (l.skipTo rest).current ≠ chr '\\' from hslash), succeeds_pure]
  exact h

end Lexer

/-! ## Identifiers -/

/-- What `parseIdentifier` answers when its loop has ended. -/
def Lexer.identifierAnswer (lexType : LexType) :
    Option (Bool × List UChar) → LexM (JSTokenType × Option Identifier)
  | none => return (.errorTok, none)
  | some (bufferRequired, identifierStart) => do
      if !bufferRequired then
        let ident := segment identifierStart (← currentCharacter)
        if lexType = .identifyReservedWords then
          return (testKeyword ident, some ident)
        clearBuffer16
        return (.ident, some ident)
      else
        appendSegment identifierStart
        let ident := (← get).buffer16
        clearBuffer16
        return (.ident, some ident)

theorem Lexer.parseIdentifier_eq (lexType : LexType) : parseIdentifier lexType = (do
    let start ← currentCharacter
    let r ← identifierLoop false start (← bound)
    identifierAnswer lexType r) := rfl

/-- `parseIdentifier` over a text of a part of a name: what remains is to read on from
behind it. -/
theorem parseIdentifier_prefix {lexType : LexType} {l : Lexer} {name : List Char}
    {text rest : List UChar} {escaped : Bool} {Q : JSTokenType × Option Identifier → Lexer → Prop}
    (hbuffer : l.buffer16 = []) (hname : NamePrefix name)
    (hspelling : NameSpelling (identifierOfChars name) text escaped)
    (hrest : ∀ m seg buffer, rest.length < m → buffer ++ seg = identifierOfChars name →
      (escaped = false → buffer = []) →
      Succeeds (identifierLoop escaped (seg ++ rest) m) ({ l with buffer16 := buffer }.skipTo rest)
        fun r l' => Succeeds (identifierAnswer lexType r) l' Q) :
    Succeeds (parseIdentifier lexType) (l.skipTo (text ++ rest)) Q := by
  rw [parseIdentifier_eq]
  simp only [succeeds_bind, succeeds_currentCharacter, succeeds_bound]
  have hcode : (l.skipTo (text ++ rest)).code = [] ++ (text ++ rest) := rfl
  rw [hcode]
  apply identifierLoop_reads (hname.parts hspelling)
  · simp [hbuffer]
  · exact Nat.lt_succ_self _
  · intro m seg buffer hm hwhole hkeep
    rw [hbuffer] at hwhole hkeep
    rw [Bool.false_or]
    exact hrest m seg buffer hm hwhole hkeep

/-- A spelling of a name is read to its end, as the name and the token of the name. -/
theorem parseIdentifier_spelled (lexType : LexType) {l : Lexer} {name : List Char}
    {text rest : List UChar} {escaped : Bool} (hv : l.Valid) (hbuffer : l.buffer16 = [])
    (hname : NamePrefix name) (hspelling : NameSpelling (identifierOfChars name) text escaped)
    (hcode : l.code = text ++ rest) (hrest : ¬ GoesOn rest) :
    parseIdentifier lexType l =
      .ok ((nameType lexType escaped (identifierOfChars name), some (identifierOfChars name)),
        l.skipTo rest) := by
  suffices h : Succeeds (parseIdentifier lexType) (l.skipTo (text ++ rest)) fun r l' =>
      r = (nameType lexType escaped (identifierOfChars name), some (identifierOfChars name)) ∧
        l' = l.skipTo rest by
    obtain ⟨r, l', h, rfl, rfl⟩ := h
    rwa [← hcode, hv.skipTo_code] at h
  apply parseIdentifier_prefix hbuffer hname hspelling
  intro m seg buffer hm hwhole hkeep
  apply identifierLoop_ends (by omega) hrest
  have hseg : segment (seg ++ rest) rest = seg := segment_append seg rest
  simp only [identifierAnswer, succeeds_ite, succeeds_bind, succeeds_currentCharacter,
    succeeds_clearBuffer16, succeeds_appendSegment, succeeds_get, succeeds_pure, skipTo, hseg,
    hwhole, hbuffer]
  cases escaped with
  | true => simp [nameType]
  | false =>
      have hkeep := hkeep rfl
      subst hkeep
      cases lexType
      · simp [nameType, ← hwhole]
      · simp [nameType, ← hwhole]

/-- An escape that a name does not go on with ends in the error token. -/
theorem parseIdentifier_bad_escape (lexType : LexType) {l : Lexer} {name : List Char}
    {text digits rest : List UChar} {escaped : Bool} (hv : l.Valid) (hbuffer : l.buffer16 = [])
    (hname : NamePrefix name) (hspelling : NameSpelling (identifierOfChars name) text escaped)
    (hd : HexDigits digits) (hlen : digits.length = 4)
    (hbad : ∀ c : Char, hexUnit digits = c.toNat.toUInt16 → ¬ NamePrefix (name ++ [c]))
    (hcode : l.code = text ++ (identifierOfChars ['\\', 'u'] ++ digits ++ rest)) :
    ∃ l', parseIdentifier lexType l = .ok ((.errorTok, none), l') := by
  suffices h : Succeeds (parseIdentifier lexType)
      (l.skipTo (text ++ (identifierOfChars ['\\', 'u'] ++ digits ++ rest)))
      fun r _ => r = (.errorTok, none) by
    obtain ⟨r, l', h, rfl⟩ := h
    rw [← hcode, hv.skipTo_code] at h
    exact ⟨l', h⟩
  apply parseIdentifier_prefix hbuffer hname hspelling
  intro m seg buffer hm hwhole hkeep
  obtain ⟨m, rfl⟩ : ∃ n, m = n + 1 := ⟨m - 1, by omega⟩
  have hempty : (buffer ++ seg).isEmpty = name.isEmpty := by
    rw [hwhole]
    cases name <;> rfl
  apply identifierLoop_escape hd hlen
  · intro hnames
    rw [hempty, namesWith_iff] at hnames
    obtain ⟨c, hc, hunit⟩ := hnames
    exact absurd ((hname.append_iff c).mpr hc) (hbad c hunit)
  · intro _
    exact (succeeds_pure _).mpr rfl

theorem NamePrefix.chars {name : List Char} (h : NamePrefix name) :
    (identifierOfChars name).map (fun c => Char.ofNat c.toNat) = name := by
  simp only [identifierOfChars, List.map_map]
  conv_rhs => rw [← List.map_id name]
  apply List.map_congr_left
  intro c hc
  have hlt := isIdPart_ascii (h.all c hc)
  have hunit : c.toNat.toUInt16.toNat = c.toNat := by
    rw [UInt16.toNat_ofNat', Nat.mod_eq_of_lt (by omega)]
  simp [hunit]

/-- For every ASCII identifier name in every spelling, `parseIdentifier` reads the spelling
and nothing else and answers the name, with nothing left in the buffer.  The token is the
one of a reserved word exactly if the name is one, in plain characters and where reserved
words are looked for.  After an escape that denotes a character which cannot stand there
the answer is the error token. -/
theorem parseIdentifier_reads (lexType : LexType) {l : Lexer} {name : List Char}
    {text : List UChar} {escaped : Bool} (hv : l.Valid) (hbuffer : l.buffer16 = [])
    (hname : NamePrefix name) (hspelling : NameSpelling (identifierOfChars name) text escaped) :
    (∀ rest, name ≠ [] → l.code = text ++ rest → ¬ GoesOn rest →
      ∃ t l', parseIdentifier lexType l = .ok ((t, some (identifierOfChars name)), l') ∧
        l'.code = rest ∧ l'.Valid ∧ l'.buffer16 = [] ∧
        (t ≠ .ident ↔ escaped = false ∧ lexType = .identifyReservedWords ∧
          name ∈ keywords.map Prod.fst) ∧
        (t ≠ .ident → (name, t) ∈ keywords)) ∧
    (∀ digits rest, HexDigits digits → digits.length = 4 →
      (∀ c : Char, hexUnit digits = c.toNat.toUInt16 → ¬ NamePrefix (name ++ [c])) →
      l.code = text ++ (identifierOfChars ['\\', 'u'] ++ digits ++ rest) →
      ∃ l', parseIdentifier lexType l = .ok ((.errorTok, none), l')) := by
  constructor
  · intro rest _ hcode hrest
    refine ⟨_, _, parseIdentifier_spelled lexType hv hbuffer hname hspelling hcode hrest, rfl, rfl,
      hbuffer, ?_⟩
    rw [nameType, testKeyword_eq, hname.chars]
    by_cases hwhere : escaped = false ∧ lexType = .identifyReservedWords
    · rw [if_pos hwhere]
      refine ⟨⟨fun h => ⟨hwhere.1, hwhere.2, ?_⟩, fun h => ?_⟩, tokenOf_mem⟩
      · exact List.mem_map.mpr ⟨_, tokenOf_mem h, rfl⟩
      · exact tokenOf_ne_ident (by decide) h.2.2
    · rw [if_neg hwhere]
      simp only [ne_eq, not_true, false_iff, false_implies, and_true]
      exact fun h => hwhere ⟨h.1, h.2.1⟩
  · intro digits rest hd hlen hbad hcode
    exact parseIdentifier_bad_escape lexType hv hbuffer hname hspelling hd hlen hbad hcode

theorem parseIdentifier_reads_escaped_if :
    ∃ l', parseIdentifier .identifyReservedWords
        (setCode (identifierOfChars ['i', '\\', 'u', '0', '0', '6', '6'])) =
      .ok ((.ident, some (identifierOfChars ['i', 'f'])), l') ∧ l'.code = [] := by
  have hd : HexDigits (identifierOfChars ['0', '0', '6', '6']) :=
    List.all_iff_forall_prop.mp (by decide)
  have hname : NamePrefix ['i', 'f'] := by
    refine ⟨?_, List.all_iff_forall_prop.mp (by decide)⟩
    rintro c ⟨rfl⟩
    decide
  have hspelling : NameSpelling (identifierOfChars ['i', 'f'])
      (identifierOfChars ['i', '\\', 'u', '0', '0', '6', '6']) true :=
    .char (.escape hd rfl .nil)
  have hv : (setCode (identifierOfChars ['i', '\\', 'u', '0', '0', '6', '6'])).Valid := rfl
  obtain ⟨t, l', h, hcode, -, -, hiff, -⟩ :=
    (parseIdentifier_reads .identifyReservedWords hv rfl hname hspelling).1 [] (by simp) rfl
      (by rintro ⟨c, -, h⟩; cases h)
  have ht : t = .ident := by
    by_contra ht
    exact absurd (hiff.mp ht).1 (by decide)
  rw [ht] at h
  exact ⟨l', h, hcode⟩

end HammerJS
