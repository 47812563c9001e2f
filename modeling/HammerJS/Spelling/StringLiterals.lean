import HammerJS.Spelling.Scanners
import HammerJS.Spelling.Strings

/-!
# The string literals of the grammar

String literals as the language defines them, with the octal escapes of its annex, and
what `parseString` makes of them.

* `StringEscape`, `StringText` — the escapes, and the text of a literal, each with what
  it denotes and what stands behind it.
* `parseEscape_reads`, `stringLoop_reads` — how an escape and a text are read.
* `parseString_reads` — every literal is accepted up to its closing quote, with its value;
  where the text runs into a line terminator or the end of the input, none is.
-/

namespace HammerJS

open Procs Lexer

/-! ## Escapes -/

/-- The single characters that are escaped, and what they stand for. -/
def singleEscapeCharacters : List (Char × Nat) :=
  [ ('b', 0x08), ('t', 0x09), ('n', 0x0A), ('v', 0x0B), ('f', 0x0C), ('r', 0x0D),
    ('"', 0x22), ('\'', 0x27), ('\\', 0x5C) ]

/-- The characters that an escape of another kind starts with, line terminators apart. -/
def escapeCharacters : List Char :=
  singleEscapeCharacters.map Prod.fst ++ "0123456789xu".toList

/-- No octal digit stands at the start. -/
def NoOctalDigit (rest : List UChar) : Prop :=
  ∀ d, rest.head? = some d → isASCIIOctalDigit d.toNat = false

/-- The octal escapes: three digits from `000` to `377`, two where a third would exceed
that or does not follow, one where no second follows. -/
inductive OctalEscape : List UChar → List UChar → Prop
  | one {c : UChar} {rest : List UChar} (hc : isASCIIOctalDigit c.toNat = true)
      (hend : NoOctalDigit rest) : OctalEscape [c] rest
  | two {c d : UChar} {rest : List UChar} (hc : isASCIIOctalDigit c.toNat = true)
      (hd : isASCIIOctalDigit d.toNat = true) (hlow : (c.toNat : Int) ≤ chr '3')
      (hend : NoOctalDigit rest) : OctalEscape [c, d] rest
  | twoHigh {c d : UChar} {rest : List UChar} (hc : isASCIIOctalDigit c.toNat = true)
      (hd : isASCIIOctalDigit d.toNat = true) (hhigh : chr '3' < (c.toNat : Int)) :
      OctalEscape [c, d] rest
  | three {c d e : UChar} {rest : List UChar} (hc : isASCIIOctalDigit c.toNat = true)
      (hd : isASCIIOctalDigit d.toNat = true) (he : isASCIIOctalDigit e.toNat = true)
      (hlow : (c.toNat : Int) ≤ chr '3') : OctalEscape [c, d, e] rest

/-- What follows a backslash, what it denotes, and what stands behind it. A line
terminator is continued by the second character of a pair. -/
inductive StringEscape : List UChar → List UChar → List UChar → Prop
  | single {c : Char} {n : Nat} {rest : List UChar} (h : (c, n) ∈ singleEscapeCharacters) :
      StringEscape (identifierOfChars [c]) [n.toUInt16] rest
  | other {c : UChar} {rest : List UChar} (hline : isLineTerminator c.toNat = false)
      (h : ∀ d ∈ escapeCharacters, (c.toNat : Int) ≠ chr d) : StringEscape [c] [c] rest
  | hex {digits rest : List UChar} (hd : HexDigits digits) (hlen : digits.length = 2) :
      StringEscape (identifierOfChars ['x'] ++ digits) [hexUnit digits] rest
  | unicode {digits rest : List UChar} (hd : HexDigits digits) (hlen : digits.length = 4) :
      StringEscape (identifierOfChars ['u'] ++ digits) [hexUnit digits] rest
  | octal {digits rest : List UChar} (h : OctalEscape digits rest) :
      StringEscape digits [octalUnit digits] rest
  | continuation {eol rest : List UChar} (h : LineEnd eol)
      (hend : ∀ d, rest.head? = some d → ¬ LineEnd (eol ++ [d])) : StringEscape eol [] rest

/-- The text of a literal between its quotes, what it denotes, and what stands behind it. -/
inductive StringText (quote : UChar) (following : List UChar) : List UChar → List UChar → Prop
  | nil : StringText quote following [] []
  | char {c : UChar} {text value : List UChar} (hquote : c ≠ quote)
      (hslash : (c.toNat : Int) ≠ chr '\\') (hline : isLineTerminator c.toNat = false)
      (h : StringText quote following text value) :
      StringText quote following (c :: text) (c :: value)
  | escape {escape value text value' : List UChar}
      (he : StringEscape escape value (text ++ following))
      (h : StringText quote following text value') :
      StringText quote following (identifierOfChars ['\\'] ++ escape ++ text) (value ++ value')

namespace Lexer

/-! ## Reading an escape -/

/-- Where the text begins with a known character, that is the current one. -/
theorem Valid.cons {l : Lexer} (hv : l.Valid) {c : UChar} {rest : List UChar}
    (hcode : l.code = c :: rest) :
    l.current = c.toNat ∧ l.current ≠ -1 ∧ l.advance.Valid ∧ l.advance.code = rest ∧
      l.advance.buffer16 = l.buffer16 := by
  have hcurrent : l.current = c.toNat := by
    rw [show l.current = codeUnit l.code from hv, hcode]
    rfl
  exact ⟨hcurrent, by rw [hcurrent]; omega, rfl, by simp [advance, hcode], rfl⟩

theorem singleEscape_of_mem {c : Char} {n : Nat} (h : (c, n) ∈ singleEscapeCharacters) :
    singleEscape (chr c) = n ∧ n ≠ 0 ∧ c.toNat < 65536 := by
  have hall : ∀ p ∈ singleEscapeCharacters,
      singleEscape (chr p.1) = p.2 ∧ p.2 ≠ 0 ∧ p.1.toNat < 65536 := by decide
  exact hall _ h

theorem singleEscape_of_other {c : Int} (h : ∀ d ∈ escapeCharacters, c ≠ chr d) :
    singleEscape c = 0 := by
  have hne : ∀ d ∈ ['b', 't', 'n', 'v', 'f', 'r', '\\', '\'', '"'], c ≠ chr d :=
    fun d hd => h d (List.all_iff_forall_prop.mp (by decide) d hd)
  simp only [List.forall_mem_cons, List.not_mem_nil, false_imp_iff, implies_true, and_true] at hne
  simp [singleEscape, hne]

theorem octalDigit_of_other {c : UChar} (h : ∀ d ∈ escapeCharacters, (c.toNat : Int) ≠ chr d) :
    isASCIIOctalDigit c.toNat = false := by
  have hne : ∀ d ∈ ['0', '1', '2', '3', '4', '5', '6', '7'], (c.toNat : Int) ≠ chr d :=
    fun d hd => h d (List.all_iff_forall_prop.mp (by decide) d hd)
  simp only [List.forall_mem_cons, List.not_mem_nil, false_imp_iff, implies_true, and_true,
    chr] at hne
  cases hoctal : isASCIIOctalDigit c.toNat with
  | false => rfl
  | true =>
      simp only [isASCIIOctalDigit, chr, Bool.and_eq_true] at hoctal
      simp at hne hoctal
      omega

/-- Where the lexer is behind an escape, with what it has recorded. -/
structure Behind (l : Lexer) (value rest : List UChar) (l' : Lexer) : Prop where
  valid : l'.Valid
  code : l'.code = rest
  buffer16 : l'.buffer16 = l.buffer16 ++ value

/-- A character that is recorded. -/
theorem Behind.shift_record {l : Lexer} {c : UChar} {rest value : List UChar}
    (hcode : l.code = c :: rest) :
    Behind l value rest { l.advance with buffer16 := l.buffer16 ++ value } :=
  ⟨rfl, by simp [advance, hcode], rfl⟩

theorem shiftLineTerminator_reads {eol rest : List UChar} (h : LineEnd eol)
    (hend : ∀ d, rest.head? = some d → ¬ LineEnd (eol ++ [d])) {l : Lexer} (hv : l.Valid)
    (hcode : l.code = eol ++ rest) :
    Yields shiftLineTerminator l fun _ l' => Behind l [] rest l' := by
  simp only [shiftLineTerminator, yields_bind, yields_getCurrent, yields_assert, yields_shift,
    yields_ite, yields_modify]
  intro hline _
  cases h with
  | @single c h =>
      obtain ⟨hcurrent, -, hv₁, hcode₁, hbuffer⟩ := hv.cons hcode
      rw [if_neg]
      · exact ⟨hv₁, hcode₁, by simpa using hbuffer⟩
      · intro hsum
        rw [hcurrent, show l.advance.current = codeUnit l.advance.code from hv₁, hcode₁] at hsum
        cases rest with
        | nil =>
            simp only [isLineTerminator, codeUnit, chr, Bool.or_eq_true, beq_iff_eq] at h hsum
            simp at h hsum
            omega
        | cons d rest => exact hend d rfl (lineEnd_pair h hsum)
  | crlf =>
      obtain ⟨hcurrent, -, hv₁, hcode₁, -⟩ := hv.cons hcode
      obtain ⟨hcurrent', hne, -, hcode₂, -⟩ := hv₁.cons hcode₁
      rw [hcurrent, hcurrent', if_pos (by decide)]
      exact fun _ => ⟨rfl, hcode₂, (List.append_nil _).symm⟩
  | lfcr =>
      obtain ⟨hcurrent, -, hv₁, hcode₁, -⟩ := hv.cons hcode
      obtain ⟨hcurrent', hne, -, hcode₂, -⟩ := hv₁.cons hcode₁
      rw [hcurrent, hcurrent', if_pos (by decide)]
      exact fun _ => ⟨rfl, hcode₂, (List.append_nil _).symm⟩

/-- The kinds of escapes are told apart by their first characters. -/
theorem escape_kinds :
    (singleEscape (chr 'x') = 0 ∧ isLineTerminator (chr 'x') = false) ∧
      singleEscape (chr 'u') = 0 ∧ isLineTerminator (chr 'u') = false ∧ chr 'u' ≠ chr 'x' := by
  decide

/-- The octal escapes, which a third digit ends. -/
theorem parseEscape_reads_octal (quote : Int) {digits rest : List UChar}
    (h : OctalEscape digits rest) {l : Lexer} (hv : l.Valid) (hcode : l.code = digits ++ rest) :
    Yields (parseEscape quote) l fun ok l' => ok = true ∧ Behind l [octalUnit digits] rest l' := by
  simp only [parseEscape, yields_bind, yields_getCurrent, yields_ite, yields_record16,
    yields_shift, yields_pure, yields_peek]
  have hend : ∀ {l : Lexer}, l.Valid → l.code = rest → NoOctalDigit rest →
      isASCIIOctalDigit l.current = false := by
    intro l hv hcode hrest
    rw [show l.current = codeUnit l.code from hv, hcode]
    cases rest with
    | nil => rfl
    | cons d rest => exact hrest d rfl
  have hfirst : ∀ {c : UChar} {more : List UChar}, isASCIIOctalDigit c.toNat = true →
      l.code = c :: more → l.current = c.toNat ∧ singleEscape l.current = 0 ∧
        isLineTerminator l.current = false ∧ l.current ≠ chr 'x' ∧ l.current ≠ chr 'u' := by
    intro c more hc hcode
    obtain ⟨hcurrent, -⟩ := hv.cons hcode
    rw [hcurrent]
    exact ⟨rfl, octalDigit_kind hc⟩
  cases h with
  | @one c _ hc hrest =>
      obtain ⟨hcurrent, hsingle, hline, hx, hu⟩ := hfirst hc hcode
      obtain ⟨-, -, hv₁, hcode₁, -⟩ := hv.cons hcode
      simp only [hsingle, hline, hx, hu, ne_eq, not_true_eq_false, if_false, Bool.false_eq_true]
      simp only [hcurrent, hc, if_true, hend hv₁ hcode₁ hrest, Bool.false_eq_true, if_false]
      intro _ _ _
      rw [octalUnit_eq [c] (by simp [charsOf, digitsValue, (octalDigit_value hc).1])]
      exact ⟨trivial, rfl, hcode₁, rfl⟩
  | @two c d _ hc hd hlow hrest =>
      obtain ⟨hcurrent, hsingle, hline, hx, hu⟩ := hfirst hc hcode
      obtain ⟨-, -, hv₁, hcode₁, -⟩ := hv.cons hcode
      obtain ⟨hcurrent₁, -, hv₂, hcode₂, -⟩ := hv₁.cons hcode₁
      simp only [hsingle, hline, hx, hu, ne_eq, not_true_eq_false, if_false, Bool.false_eq_true]
      simp only [hcurrent, hcurrent₁, hc, hd, if_true, hend hv₂ hcode₂ hrest, Bool.false_eq_true,
        and_false, if_false]
      intro _ _ _ _
      rw [octalUnit_eq _ (octal_value_two hc hd)]
      exact ⟨trivial, rfl, hcode₂, rfl⟩
  | @twoHigh c d _ hc hd hhigh =>
      obtain ⟨hcurrent, hsingle, hline, hx, hu⟩ := hfirst hc hcode
      obtain ⟨-, -, hv₁, hcode₁, -⟩ := hv.cons hcode
      obtain ⟨hcurrent₁, -, -, hcode₂, -⟩ := hv₁.cons hcode₁
      have hlow : ¬ (c.toNat : Int) ≤ chr '3' := by omega
      simp only [hsingle, hline, hx, hu, ne_eq, not_true_eq_false, if_false, Bool.false_eq_true]
      simp only [hcurrent, hcurrent₁, hc, hd, if_true, hlow, false_and, and_false, if_false]
      intro _ _ _ _
      rw [octalUnit_eq _ (octal_value_two hc hd)]
      exact ⟨trivial, rfl, hcode₂, rfl⟩
  | @three c d e _ hc hd he hlow =>
      obtain ⟨hcurrent, hsingle, hline, hx, hu⟩ := hfirst hc hcode
      obtain ⟨-, -, hv₁, hcode₁, -⟩ := hv.cons hcode
      obtain ⟨hcurrent₁, -, hv₂, hcode₂, -⟩ := hv₁.cons hcode₁
      obtain ⟨hcurrent₂, -, -, hcode₃, -⟩ := hv₂.cons hcode₂
      have hzero : chr '0' ≤ (c.toNat : Int) := by
        simp only [isASCIIOctalDigit, Bool.and_eq_true, decide_eq_true_eq] at hc
        exact hc.1
      simp only [hsingle, hline, hx, hu, ne_eq, not_true_eq_false, if_false, Bool.false_eq_true]
      simp only [hcurrent, hcurrent₁, hcurrent₂, hc, hd, he, hzero, hlow, if_true, and_self]
      intro _ _ _ _ _
      rw [octalUnit_eq _ (octal_value_three hc hd he)]
      exact ⟨trivial, rfl, hcode₃, rfl⟩

/-- How an escape is read. -/
theorem parseEscape_reads (quote : Int) {escape value rest : List UChar}
    (h : StringEscape escape value rest) {l : Lexer} (hv : l.Valid)
    (hcode : l.code = escape ++ rest) :
    Yields (parseEscape quote) l fun ok l' => ok = true ∧ Behind l value rest l' := by
  simp only [parseEscape, yields_bind, yields_getCurrent, yields_ite, yields_record16,
    yields_shift, yields_pure, yields_peek]
  obtain ⟨⟨hx, hxline⟩, hu, huline, hux⟩ := escape_kinds
  cases h with
  | @single c n rest h =>
      obtain ⟨hescape, hne, hlt⟩ := singleEscape_of_mem h
      obtain ⟨hcurrent, -⟩ := hv.cons hcode
      have hcurrent : l.current = chr c := by
        rw [hcurrent, UInt16.toNat_ofNat', Nat.mod_eq_of_lt hlt]
        rfl
      rw [hcurrent, if_pos (by rw [hescape]; omega), hescape]
      intro _ _ _
      exact ⟨trivial, .shift_record hcode⟩
  | @other c rest hline h =>
      obtain ⟨hcurrent, hne, -⟩ := hv.cons hcode
      have hx := h 'x' (by decide)
      have hu := h 'u' (by decide)
      simp only [hcurrent, singleEscape_of_other h, hline, hx, hu, octalDigit_of_other h,
        ne_eq, not_true_eq_false, if_false, Bool.false_eq_true]
      rw [if_pos (by omega)]
      intro _ _ _
      rw [recorded_unit]
      exact ⟨trivial, .shift_record hcode⟩
  | @hex digits rest hd hlen =>
      obtain ⟨hcurrent, -, hv₁, hcode₁, hbuffer₁⟩ := hv.cons hcode
      obtain ⟨a, b, rfl⟩ := List.length_eq_two.mp hlen
      obtain ⟨ha, -, hv₂, hcode₂, hbuffer₂⟩ := hv₁.cons hcode₁
      obtain ⟨hb, -, -, hcode₃, -⟩ := hv₂.cons hcode₂
      have hpeek : codeUnit (l.advance.code.drop 1) = b.toNat := by
        rw [show l.advance.code = a :: b :: rest from hcode₁]
        rfl
      simp only [show l.current = chr 'x' from hcurrent, hx, hxline, ne_eq, not_true_eq_false,
        if_false, Bool.false_eq_true, if_true, ha, hpeek, hd a (by simp), hd b (by simp),
        Bool.and_self, hb]
      intro _ _
      refine convertHex_yields.mono ?_
      rintro n l₁ ⟨rfl, -, rfl⟩ _ _ _
      exact ⟨trivial, rfl, by simpa [advance] using hcode₃, rfl⟩
  | @unicode digits rest hd hlen =>
      obtain ⟨hcurrent, -, hv₁, hcode₁, hbuffer₁⟩ := hv.cons hcode
      have hcode₁ : l.advance.code = digits ++ rest := hcode₁
      simp only [show l.current = chr 'u' from hcurrent, hu, huline, hux, ne_eq,
        not_true_eq_false, if_false, Bool.false_eq_true, if_true]
      intro _
      refine (getUnicodeCharacter_takes hv₁).mono ?_
      rintro character l' (⟨rfl, rfl, hnot⟩ | ⟨digits', hd', hlen', rfl, h⟩)
      · refine absurd ⟨?_, ?_⟩ hnot
        · rw [hcode₁, List.take_append_of_le_length (by omega), ← hlen, List.take_length]
          exact hd
        · rw [hcode₁, List.length_append]
          omega
      · have hsplit : digits ++ rest = digits' ++ l'.code := hcode₁.symm.trans h.code
        obtain ⟨rfl, hrest⟩ := List.append_inj hsplit (hlen.trans hlen'.symm)
        rw [if_pos (by omega)]
        intro _ _
        refine ⟨trivial, h.valid, hrest.symm, ?_⟩
        simp only [recorded_unit, h.buffer16, hbuffer₁]
  | octal h =>
      have hread := parseEscape_reads_octal quote h hv hcode
      simpa only [parseEscape, yields_bind, yields_getCurrent, yields_ite, yields_record16,
        yields_shift, yields_pure, yields_peek] using hread
  | continuation h hend =>
      cases escape with
      | nil => exact absurd rfl h.ne_nil
      | cons c tail =>
          obtain ⟨hcurrent, -⟩ := hv.cons hcode
          have hline := h.isLineTerminator c (List.mem_cons_self ..)
          simp only [hcurrent, singleEscape_of_line hline, hline, ne_eq, not_true_eq_false,
            if_false, if_true]
          exact (shiftLineTerminator_reads h hend hv hcode).mono fun _ l' h => ⟨trivial, h⟩

/-! ## Reading a literal -/

/-- How the text of a literal is read: `seg` is the part of the value that is not in the
buffer yet, and what becomes of the rest does not depend on the text. -/
theorem stringLoop_reads {quote : UChar} (hquote : (quote.toNat : Int) ≠ chr '\\')
    {following text value : List UChar} (h : StringText quote following text value)
    {Q : Option (List UChar) → Lexer → Prop} (n : Nat) (seg : List UChar) {l : Lexer}
    (hv : l.Valid) (hcode : l.code = text ++ following)
    (hrest : ∀ n' seg' l', l'.Valid → l'.code = following →
      l'.buffer16 ++ seg' = l.buffer16 ++ seg ++ value →
        Yields (stringLoop quote.toNat (seg' ++ l'.code) n') l' Q) :
    Yields (stringLoop quote.toNat (seg ++ l.code) n) l Q := by
  induction h generalizing n seg l with
  | nil => exact hrest n seg l hv hcode (List.append_nil _).symm
  | @char c text value hne hslash hline h ih =>
      cases n with
      | zero => simp [stringLoop]
      | succ n =>
          obtain ⟨hcurrent, -, hv₁, hcode₁, hbuffer₁⟩ := hv.cons hcode
          have hne : (c.toNat : Int) ≠ quote.toNat := fun heq =>
            hne (UInt16.toNat_inj.mp (Int.ofNat_inj.mp heq))
          have hend : ((c.toNat : Int) == -1) = false := by
            rw [beq_eq_false_iff_ne]
            omega
          simp only [stringLoop, yields_bind, yields_getCurrent, yields_ite, yields_shift,
            hcurrent, hne, hslash, hline, hend, if_false, Bool.or_self, Bool.and_false,
            Bool.false_eq_true]
          intro _
          have hsplit : seg ++ l.code = (seg ++ [c]) ++ l.advance.code := by
            rw [hcode, hcode₁]
            simp
          rw [hsplit]
          refine ih n (seg ++ [c]) hv₁ hcode₁ fun n' seg' l' hv' hcode' hbuffer => ?_
          refine hrest n' seg' l' hv' hcode' ?_
          rw [hbuffer, hbuffer₁]
          simp
  | @escape escape value text value' he h ih =>
      cases n with
      | zero => simp [stringLoop]
      | succ n =>
          obtain ⟨hcurrent, -⟩ := hv.cons hcode
          have hcurrent : l.current = chr '\\' := hcurrent
          simp only [stringLoop, yields_bind, yields_getCurrent, yields_ite, yields_shift,
            yields_appendSegment, segment_append, hcurrent, hquote.symm, if_false, if_true]
          intro _
          -- the segment before the escape moves to the buffer
          let l₁ : Lexer := { l with buffer16 := l.buffer16 ++ seg }
          have hcode₁ : l₁.advance.code = escape ++ (text ++ following) := by
            simp [l₁, advance, hcode, identifierOfChars]
          refine (parseEscape_reads quote.toNat he (l := l₁.advance) rfl hcode₁).mono ?_
          rintro ok l₂ ⟨rfl, h₂⟩
          rw [if_pos rfl, yields_currentCharacter]
          refine ih n [] h₂.valid h₂.code fun n' seg' l' hv' hcode' hbuffer => ?_
          refine hrest n' seg' l' hv' hcode' ?_
          rw [hbuffer, h₂.buffer16]
          simp [l₁, advance]

/-- The characters that enclose a string. -/
def IsQuote (quote : UChar) : Prop :=
  (quote.toNat : Int) = chr '"' ∨ (quote.toNat : Int) = chr '\''

theorem IsQuote.ne_slash {quote : UChar} (h : IsQuote quote) : (quote.toNat : Int) ≠ chr '\\' := by
  rcases h with h | h <;> rw [h] <;> decide

/-- How `parseString` goes on behind the text of a literal. -/
theorem parseString_text {quote : UChar} (hquote : IsQuote quote) {l : Lexer} (hv : l.Valid)
    (hbuffer : l.buffer16 = []) {following text value : List UChar}
    (hcode : l.code = quote :: text ++ following) (h : StringText quote following text value)
    {Q : Option Identifier → Lexer → Prop}
    (hrest : ∀ n seg l', l'.Valid → l'.code = following → l'.buffer16 ++ seg = value →
      Yields (stringLoop quote.toNat (seg ++ l'.code) n) l' fun r l' => match r with
        | none => Q none l'
        | some start =>
            Q (some (l'.buffer16 ++ segment start l'.code)) { l' with buffer16 := [] }) :
    Yields parseString l Q := by
  obtain ⟨hcurrent, -, hv₁, hcode₁, hbuffer₁⟩ := hv.cons hcode
  simp only [parseString, yields_bind, yields_getCurrent, yields_shift, yields_currentCharacter,
    yields_bound]
  intro _
  rw [hcurrent]
  have hbody : ∀ (r : Option (List UChar)) (l' : Lexer), (match r with
      | none => Q none l'
      | some start => Q (some (l'.buffer16 ++ segment start l'.code)) { l' with buffer16 := [] }) →
      Yields (match r with
        | none => return none
        | some stringStart => do
            appendSegment stringStart
            let ident := (← get).buffer16
            clearBuffer16
            return some ident) l' Q := by
    rintro (_ | start) l' h
    · exact (yields_pure _).mpr h
    · simpa using h
  refine (stringLoop_reads hquote.ne_slash h _ [] hv₁ hcode₁ fun n seg l' hv' hcode' hb => ?_).mono
    hbody
  refine hrest n seg l' hv' hcode' ?_
  rw [hb, hbuffer₁, hbuffer]
  rfl

theorem parseString_accepts {quote : UChar} (hquote : IsQuote quote) {l : Lexer} (hv : l.Valid)
    (hbuffer : l.buffer16 = []) {text value rest : List UChar}
    (hcode : l.code = quote :: text ++ quote :: rest)
    (h : StringText quote (quote :: rest) text value) :
    Yields parseString l fun r l' =>
      r = some value ∧ l'.code = quote :: rest ∧ l'.buffer16 = [] := by
  refine parseString_text hquote hv hbuffer hcode h fun n seg l' hv' hcode' hb => ?_
  cases n with
  | zero => simp [stringLoop]
  | succ n =>
      obtain ⟨hcurrent, -⟩ := hv'.cons hcode'
      simp only [stringLoop, yields_bind, yields_getCurrent, hcurrent, if_true]
      refine (yields_pure _).mpr ⟨?_, hcode', trivial⟩
      rw [segment_append, hb]

theorem parseString_rejects {quote : UChar} (hquote : IsQuote quote) {l : Lexer} (hv : l.Valid)
    (hbuffer : l.buffer16 = []) {text value following : List UChar}
    (hcode : l.code = quote :: text ++ following) (h : StringText quote following text value)
    (hend : ∀ c, following.head? = some c → isLineTerminator c.toNat = true) :
    Yields parseString l fun r _ => r = none := by
  refine parseString_text hquote hv hbuffer hcode h fun n seg l' hv' hcode' hb => ?_
  cases n with
  | zero => simp [stringLoop]
  | succ n =>
      have hcurrent : l'.current = codeUnit following := by
        rw [show l'.current = codeUnit l'.code from hv', hcode']
      simp only [stringLoop, yields_bind, yields_getCurrent, yields_ite, hcurrent]
      cases following with
      | nil =>
          have hne : ((-1 : Int) = quote.toNat) = False := eq_false (by omega)
          have hslash : ((-1 : Int) = chr '\\') = False := by decide
          have hspecial : needsSpecialHandling (-1) = true := by decide
          simp only [codeUnit, hne, hslash, hspecial, beq_self_eq_true, if_false, Bool.or_true,
            Bool.and_self, if_true]
          exact (yields_pure _).mpr trivial
      | cons c rest =>
          have hline := hend c rfl
          have hne : ∀ d : Char, isLineTerminator (chr d) = false → (c.toNat : Int) ≠ chr d :=
            fun d hd heq => by rw [heq, hd] at hline; cases hline
          have hc : (c.toNat : Int) ≠ quote.toNat := by
            rcases hquote with h | h <;> rw [h] <;> exact hne _ (by decide)
          simp only [codeUnit, hc, hne '\\' (by decide), hline, needsSpecialHandling_of_line hline,
            if_false, Bool.true_or, Bool.and_self, if_true]
          exact (yields_pure _).mpr trivial

/-! ## Spellings -/

/-- The digit for a number below 16. -/
def hexDigitUnit (n : Nat) : UChar := (if n < 10 then 48 + n else 87 + n).toUInt16

theorem hexDigitUnit_digit {n : Nat} (h : n < 16) :
    isASCIIHexDigit (hexDigitUnit n).toNat = true ∧
      digitValue (Char.ofNat (hexDigitUnit n).toNat) = n := by
  have hall : ∀ n < 16, isASCIIHexDigit (hexDigitUnit n).toNat = true ∧
      digitValue (Char.ofNat (hexDigitUnit n).toNat) = n := by decide +kernel
  exact hall n h

/-- The four digits of a code unit. -/
def unitDigits (u : UChar) : List UChar :=
  [ hexDigitUnit (u.toNat / 4096), hexDigitUnit (u.toNat / 256 % 16),
    hexDigitUnit (u.toNat / 16 % 16), hexDigitUnit (u.toNat % 16) ]

theorem unitDigits_hex (u : UChar) : HexDigits (unitDigits u) ∧ hexUnit (unitDigits u) = u := by
  have hlt := u.toNat_lt
  obtain ⟨h₁, v₁⟩ := hexDigitUnit_digit (show u.toNat / 4096 < 16 by omega)
  obtain ⟨h₂, v₂⟩ := hexDigitUnit_digit (show u.toNat / 256 % 16 < 16 by omega)
  obtain ⟨h₃, v₃⟩ := hexDigitUnit_digit (show u.toNat / 16 % 16 < 16 by omega)
  obtain ⟨h₄, v₄⟩ := hexDigitUnit_digit (show u.toNat % 16 < 16 by omega)
  refine ⟨by simp [HexDigits, unitDigits, h₁, h₂, h₃, h₄], ?_⟩
  have hvalue : digitsValue 16 (charsOf (unitDigits u)) = u.toNat := by
    simp only [digitsValue, charsOf, unitDigits, List.map_cons, List.map_nil, List.foldl_cons,
      List.foldl_nil, v₁, v₂, v₃, v₄]
    omega
  rw [hexUnit, hvalue]
  exact UInt16.ofNat_toNat

/-- Every text can be spelled, with an escape for each of its code units. -/
theorem StringText.spelling (quote : UChar) (following value : List UChar) :
    ∃ text, StringText quote following text value := by
  induction value with
  | nil => exact ⟨[], .nil⟩
  | cons u value ih =>
      obtain ⟨text, h⟩ := ih
      obtain ⟨hd, hunit⟩ := unitDigits_hex u
      have hescape : StringEscape _ _ (text ++ following) := .unicode hd rfl
      rw [hunit] at hescape
      exact ⟨_, .escape hescape h⟩

end Lexer

/-- **How string literals are decoded.** Every literal is accepted, up to its closing quote and
with its value, and leaves `m_buffer16` empty; every text is the value of some literal; a text
that runs into a line terminator or the end of the input is rejected; and what is accepted ends
in front of a closing quote, with no line terminator that is not escaped. -/
theorem parseString_exact {quote : UChar} (hquote : IsQuote quote) {l : Lexer} (hv : l.Valid)
    (hcurrent : l.current = quote.toNat) (hbuffer : l.buffer16 = []) :
    (∀ text value rest, l.code = quote :: text ++ quote :: rest →
      StringText quote (quote :: rest) text value →
        ∃ l', parseString l = .ok (some value, l') ∧ l'.code = quote :: rest ∧ l'.buffer16 = []) ∧
    (∀ following value, ∃ text, StringText quote following text value) ∧
    (∀ text value following, l.code = quote :: text ++ following →
      StringText quote following text value →
        (∀ c, following.head? = some c → isLineTerminator c.toNat = true) →
          ∃ l', parseString l = .ok (none, l')) ∧
    ∀ value l', parseString l = .ok (some value, l') →
      ∃ text, l.code = quote :: text ++ l'.code ∧ l'.code.head? = some quote ∧
        StringChars quote text value := by
  have hne : l.current ≠ -1 := by
    rw [hcurrent]
    omega
  obtain ⟨r, l', hrun, -⟩ := parseString_succeeds hne
  refine ⟨fun text value rest hcode h => ?_, StringText.spelling quote,
    fun text value following hcode h hend => ?_, fun value l₁ hrun₁ => ?_⟩
  · obtain ⟨rfl, hcode', hbuffer'⟩ := (parseString_accepts hquote hv hbuffer hcode h).of_eq hrun
    exact ⟨l', hrun, hcode', hbuffer'⟩
  · have hr := (parseString_rejects hquote hv hbuffer hcode h hend).of_eq hrun
    exact ⟨l', hr ▸ hrun⟩
  · obtain ⟨quote', text, hcurrent', hscans, hend, hchars⟩ :=
      (parseString_scans hv hbuffer).of_eq hrun₁ value rfl
    have hquote' : quote' = quote :=
      UInt16.toNat_inj.mp (Int.ofNat_inj.mp (hcurrent'.symm.trans hcurrent))
    subst hquote'
    obtain ⟨rest, hrest⟩ := hscans.valid.quote_code hend
    exact ⟨text, hscans.code, by rw [hrest]; rfl, hchars⟩

/-- A lexer in front of a literal with an escape. -/
theorem parseString_exact_escape :
    let l := setCode (identifierOfChars ['"', '\\', 'n', '"'])
    (∀ text value rest, l.code = '"'.toNat.toUInt16 :: text ++ '"'.toNat.toUInt16 :: rest →
      StringText '"'.toNat.toUInt16 ('"'.toNat.toUInt16 :: rest) text value →
        ∃ l', parseString l = .ok (some value, l') ∧ l'.code = '"'.toNat.toUInt16 :: rest ∧
          l'.buffer16 = []) ∧
    (∀ following value, ∃ text, StringText '"'.toNat.toUInt16 following text value) ∧
    (∀ text value following, l.code = '"'.toNat.toUInt16 :: text ++ following →
      StringText '"'.toNat.toUInt16 following text value →
        (∀ c, following.head? = some c → isLineTerminator c.toNat = true) →
          ∃ l', parseString l = .ok (none, l')) ∧
    ∀ value l', parseString l = .ok (some value, l') →
      ∃ text, l.code = '"'.toNat.toUInt16 :: text ++ l'.code ∧
        l'.code.head? = some '"'.toNat.toUInt16 ∧ StringChars '"'.toNat.toUInt16 text value :=
  parseString_exact (Or.inl (by decide)) rfl (by decide) rfl

end HammerJS
