import Mathlib.Data.Rat.Floor
import HammerJS.Spelling.Sources
import HammerJS.Syntax.Literals

/-!
# Literals from the source to the value

What `Reflect.parse` makes of the number literals of a source.

* `Parsed` — a source, its tokens, the statements found in it and their value.
* `reflectParse_parsed` — every value returned is the value of such statements.
* `Parsed.literals` — the literals of the value, each with its place in the source.
* `number_value_iff` — which numbers keep their value.
-/

namespace HammerJS

open Procs Lexer

/-! ## Sources that are accepted -/

section Parsed

variable [Platform] {source rest : List UChar} {j : Json} {body : Phrase .stmts}
  {pieces : List Spelling}

/-- `Reflect.parse` reads in the source the tokens `pieces`, which are those of the statements
`body`, and returns their value; `rest` is not read. -/
structure Parsed (source : List UChar) (j : Json) (body : Phrase .stmts) (pieces : List Spelling)
    (rest : List UChar) : Prop where
  accepted : ∃ start stop, Accepted source body start stop
  lexemes : pieces.map Spelling.lexeme = body.lexemes
  cut : Cut [] pieces source rest
  value : j = programValue body.value

theorem reflectParse_parsed (h : reflectParse source = .tree j) :
    ∃ body pieces rest, Parsed source j body pieces rest ∧ body.Legal true := by
  obtain ⟨body, start, stop, haccepted, hlegal, hvalue⟩ := reflectParse_tree h
  have hfrom : start.From (setCode source) :=
    ⟨⟨rfl, rfl, rfl, rfl⟩, le_rfl, _, _, haccepted.next⟩
  obtain ⟨pieces, m, hpieces, hcut, -⟩ := reads_cut haccepted.reads hfrom []
  exact ⟨body, pieces, m.code, ⟨⟨start, stop, haccepted⟩, hpieces, hcut, hvalue⟩, hlegal⟩

omit [Platform] in
/-- What is left of some results belongs to some of the values. -/
theorem exists_sublist_of_filterMap {α β : Type} {f : α → Option β} {xs : List α} {ys : List β}
    (h : ys.Sublist (xs.filterMap f)) :
    ∃ kept : List α, kept.Sublist xs ∧ List.Forall₂ (fun x y => f x = some y) kept ys := by
  induction xs generalizing ys with
  | nil =>
      rw [List.filterMap_nil, List.sublist_nil] at h
      exact ⟨[], .refl _, h ▸ .nil⟩
  | cons x xs ih =>
      cases hx : f x with
      | none =>
          rw [List.filterMap_cons_none hx] at h
          obtain ⟨kept, hkept, hall⟩ := ih h
          exact ⟨kept, hkept.cons x, hall⟩
      | some y =>
          rw [List.filterMap_cons_some hx] at h
          cases h with
          | cons _ h =>
              obtain ⟨kept, hkept, hall⟩ := ih h
              exact ⟨kept, hkept.cons x, hall⟩
          | cons_cons _ h =>
              obtain ⟨kept, hkept, hall⟩ := ih h
              exact ⟨x :: kept, hkept.cons_cons x, .cons hx hall⟩

/-- The literals of the value that `pick` chooses are those of some tokens, in order. -/
theorem Parsed.literals {α : Type} (h : Parsed source j body pieces rest)
    (pick : Literal → Option α) :
    ∃ kept, kept.Sublist pieces ∧ List.Forall₂
      (fun piece a => piece ∈ pieces ∧ piece.lexeme.literal.bind pick = some a) kept
        (j.literals.filterMap pick) := by
  have hbody := body.literals
  have hj : j.literals = literalsIn body.value := by
    rw [h.value]
    simp [programValue]
  rw [hj]
  have hsub : ((literalsIn body.value).filterMap pick).Sublist
      (pieces.filterMap fun piece => piece.lexeme.literal.bind pick) := by
    have := hbody.filterMap pick
    rw [← h.lexemes, literalsOf, List.filterMap_filterMap, List.filterMap_map] at this
    exact this
  obtain ⟨kept, hkept, hall⟩ := exists_sublist_of_filterMap hsub
  exact ⟨kept, hkept, (List.forall₂_and_left _ _).mpr ⟨fun _ hx => hkept.subset hx, hall⟩⟩

end Parsed

/-! ## Conversions of digits -/

theorem digitValue_toLower (c : Char) : digitValue c.toLower = digitValue c := by
  unfold Char.toLower
  split
  case isFalse => rfl
  case isTrue h =>
    have hall : ∀ n < 91, 65 ≤ n → (n + 32 ||| 0x20) = (n ||| 0x20) := by decide
    have hrange : 65 ≤ c.toNat ∧ c.toNat ≤ 90 := by
      simp only [ge_iff_le, UInt32.le_iff_toNat_le] at h
      exact h
    have hlower : (c.val + ('a'.val - 'A'.val)).toNat = c.toNat + 32 := by
      rw [UInt32.toNat_add]
      change (c.toNat + 32) % 2 ^ 32 = _
      omega
    have hnine : '9'.toNat = 57 := rfl
    simp only [digitValue, Char.toNat, hlower] at hall hrange hnine ⊢
    rw [if_neg (by omega), if_neg (by omega), hall _ (by omega) hrange.1]

theorem digitsValue_toLower (radix : Nat) (digits : List Char) :
    digitsValue radix (digits.map Char.toLower) = digitsValue radix digits := by
  simp [digitsValue, List.foldl_map, digitValue_toLower]

theorem digitsValue_zero (radix : Nat) (digits : List Char) :
    digitsValue radix ('0' :: digits) = digitsValue radix digits := by
  simp [digitsValue, show digitValue '0' = 0 from rfl]

/-- The rational is the value of a finite `double`. -/
def Representable (q : ℚ) : Prop :=
  ∃ m e : ℤ, |m| < 2 ^ 53 ∧ -1074 ≤ e ∧ e ≤ 971 ∧ q = m * (2 : ℚ) ^ e

/-- What is assumed of the conversions: those of digits are exact on literals whose value is
one of the numbers `known`, and a `double` that is out of range becomes some `int`. -/
structure ExactConversions [Platform] (known : ℚ → Prop) : Prop where
  strtod : ∀ text, DecimalText text → known (decimalValue (lowerExponent text)) →
    Platform.strtod (lowerExponent text) = .finite (decimalValue (lowerExponent text))
  parseIntOverflow : ∀ digits radix, (∀ c ∈ digits, digitValue c < radix) →
    known (digitsValue radix digits) →
      Platform.parseIntOverflow digits radix = .finite (digitsValue radix digits)
  narrow : ∀ d, -2 ^ 31 ≤ Platform.narrow d ∧ Platform.narrow d < 2 ^ 31

theorem exactPlatform_exact (known : ℚ → Prop) : @ExactConversions exactPlatform known :=
  @ExactConversions.mk exactPlatform known (fun _ _ _ => rfl) (fun _ _ _ _ => rfl)
    fun _ => ⟨le_rfl, show (-2 ^ 31 : ℤ) < 2 ^ 31 by norm_num⟩

section Numbers

variable [Platform] {text : List UChar} {q : ℚ} {d : Double} {known : ℚ → Prop}

theorem NumberText.nonneg (h : NumberText text q d) : 0 ≤ q := by
  cases h with
  | hex => exact Nat.cast_nonneg _
  | octal => exact Nat.cast_nonneg _
  | decimal => exact mul_nonneg (Nat.cast_nonneg _) (zpow_nonneg (by norm_num) _)

/-- A literal on which the conversions are exact is converted to its value. -/
theorem NumberText.exact (h : NumberText text q d) (hexact : ExactConversions known)
    (hq : known q) : d = .finite q := by
  cases h with
  | @hex x digits d hx hd hne hv =>
      rcases hv with rfl | ⟨buffer, hbuffer, rfl⟩
      · rfl
      · have hvalue : digitsValue 16 buffer = digitsValue 16 (charsOf digits) := by
          rw [← digitsValue_toLower, hbuffer, digitsValue_toLower]
        rw [← hvalue] at hq ⊢
        refine hexact.parseIntOverflow buffer 16 (fun c hc => ?_) hq
        have hc : c.toLower ∈ (charsOf digits).map Char.toLower :=
          hbuffer ▸ List.mem_map_of_mem hc
        obtain ⟨c', hc', heq⟩ := List.mem_map.mp hc
        obtain ⟨u, hu, rfl⟩ := List.mem_map.mp hc'
        rw [← digitValue_toLower, ← heq, digitValue_toLower]
        exact hexDigit_value (hd u hu)
  | @octal digits d hd hne hv =>
      rcases hv with rfl | rfl
      · rfl
      · rw [← digitsValue_zero] at hq ⊢
        refine hexact.parseIntOverflow _ 8 (fun c hc => ?_) hq
        rcases List.mem_cons.mp hc with rfl | hc
        · decide
        · obtain ⟨u, hu, rfl⟩ := List.mem_map.mp hc
          exact (octalDigit_value (hd u hu)).2
  | decimal h hoctal hv =>
      rcases hv with rfl | rfl
      · rfl
      · exact hexact.strtod _ h hq

/-- Narrowing to `int` keeps a number exactly if it is an integer in range. -/
theorem narrowToInt_eq_iff (hexact : ExactConversions known) (hq : 0 ≤ q) :
    ((narrowToInt (.finite q) : ℤ) : ℚ) = q ↔ q.den = 1 ∧ q < 2 ^ 31 := by
  constructor
  · intro h
    have hlt : narrowToInt (.finite q) < 2 ^ 31 := by
      simp only [narrowToInt]
      split
      case isTrue hrange => exact hrange.2
      case isFalse => exact (hexact.narrow _).2
    rw [← h]
    exact ⟨Rat.den_intCast _, by exact_mod_cast hlt⟩
  · rintro ⟨hden, hlt⟩
    have hnum : (q.num : ℚ) = q := Rat.coe_int_num_of_den_eq_one hden
    have hnonneg : 0 ≤ q.num := Rat.num_nonneg.mpr hq
    have hbound : q.num < 2 ^ 31 := by
      rw [← hnum] at hlt
      exact_mod_cast hlt
    have hdiv : q.num.tdiv q.den = q.num := by rw [hden]; exact Int.tdiv_one _
    simp only [narrowToInt, hdiv]
    rw [if_pos ⟨by omega, hbound⟩]
    exact hnum

end Numbers

/-! ## Numbers of a value -/

/-- The value of a literal that is a number. -/
def Literal.integer : Literal → Option ℤ
  | (_, .integer n) => some n
  | _ => none

/-- The numbers among the literals of a value. -/
def Json.numbers (j : Json) : List ℤ := j.literals.filterMap Literal.integer

/-- Each number of the value returned for a source stands, in the same order, in the source as
a literal, which denotes a number that it is related to. -/
def NumbersRelated [Platform] (related : ℚ → ℤ → Prop) (source : List UChar) (j : Json) : Prop :=
  ∃ body pieces rest kept, Parsed source j body pieces rest ∧ kept.Sublist pieces ∧
    List.Forall₂ (fun piece n => ∃ q d, piece.lexeme = .number d ∧ NumberText piece.text q d ∧
      related q n) kept j.numbers

/-- The text of a lexeme that is a number. -/
theorem number_text [Platform] {following text : List UChar} {d : Double}
    (h : (Lexeme.number d).Text following text) : ∃ q, NumberText text q d := by
  rcases h with ⟨lexType, data, hspells, hd⟩ | ⟨h, -⟩
  · obtain ⟨q, d', htext, rfl⟩ := hspells.number_text
    exact ⟨q, (show d' = d from hd) ▸ htext⟩
  · cases h

/-- **Which numbers keep their value**: a literal whose value is a `double` does exactly if this
value is an integer below `2 ^ 31`. -/
theorem number_value_iff [Platform] (hexact : ExactConversions Representable)
    (source : List UChar) (j : Json) (h : reflectParse source = .tree j) :
    NumbersRelated (fun q n => Representable q → ((n : ℚ) = q ↔ q.den = 1 ∧ q < 2 ^ 31))
      source j := by
  obtain ⟨body, pieces, rest, hparsed, -⟩ := reflectParse_parsed h
  obtain ⟨kept, hkept, hall⟩ := hparsed.literals Literal.integer
  refine ⟨body, pieces, rest, kept, hparsed, hkept, hall.imp fun piece n ⟨hmem, hn⟩ => ?_⟩
  obtain ⟨following, -, htext⟩ := hparsed.cut.mem piece hmem
  have hnumber : ∃ d, piece.lexeme = .number d ∧ n = narrowToInt d := by
    cases hl : piece.lexeme with
    | number d =>
        rw [hl] at hn
        exact ⟨d, rfl, (Option.some.inj hn).symm⟩
    | _ =>
        rw [hl] at hn
        simp [Lexeme.literal, Literal.integer] at hn
  obtain ⟨d, hl, rfl⟩ := hnumber
  rw [hl] at htext
  obtain ⟨q, htext⟩ := number_text htext
  refine ⟨q, d, hl, htext, fun hq => ?_⟩
  rw [htext.exact hexact hq]
  exact narrowToInt_eq_iff hexact htext.nonneg

/-- The numbers of the value returned for a source. -/
def ReflectResult.numbers : ReflectResult → Option (List ℤ)
  | .tree j => some j.numbers
  | _ => none

theorem ReflectResult.of_numbers {r : ReflectResult} {ns : List ℤ} (h : r.numbers = some ns) :
    ∃ j, r = .tree j ∧ j.numbers = ns := by
  cases r with
  | tree j => exact ⟨j, rfl, Option.some.inj h⟩
  | _ => cases h

/-- The number 7 keeps its value. -/
theorem number_value_seven : ∃ j, @reflectParse exactPlatform (identifierOfChars ['7']) = .tree j ∧
    @NumbersRelated exactPlatform
      (fun q n => Representable q → ((n : ℚ) = q ↔ q.den = 1 ∧ q < 2 ^ 31))
        (identifierOfChars ['7']) j := by
  have hrun : (@reflectParse exactPlatform (identifierOfChars ['7'])).numbers = some [7] := by
    decide +kernel
  obtain ⟨j, hj, -⟩ := ReflectResult.of_numbers hrun
  exact ⟨j, hj, @number_value_iff exactPlatform (exactPlatform_exact _) _ j hj⟩

/-! ## A number that loses its fraction -/

section AtEnd

variable [Platform]

/-- Every lexeme is the current token, and the next one is read behind it. -/
theorem Lexeme.Step.next {l : Lexeme} {a b : Stream} (h : l.Step a b) :
    (∃ lexType, a.Next lexType b) ∨ a.token.type = .divide ∨ a.token.type = .divEqual := by
  cases l with
  | regExp patternPrefix pattern flags =>
      cases patternPrefix with
      | none => exact Or.inr (Or.inl h.1)
      | some _ => exact Or.inr (Or.inr h.1)
  | mark | dot => exact Or.inl ⟨_, h.2⟩
  | key => exact Or.inl ⟨_, h.2.2.2⟩
  | ident | string | number | numericKey | skipped => exact Or.inl ⟨_, h.2.2⟩

/-- At the end of the input no token is read any more. -/
theorem Stream.Next.at_end {lexType : LexType} {a b : Stream} (h : a.Next lexType b)
    (hv : a.lexer.Valid) (hcode : a.lexer.code = []) :
    b.token.type.isReal = false ∧ b.lexer.Valid ∧ b.lexer.code = [] := by
  have hlexed := (lex_succeeds lexType a.token (idle_of_lex hv h)).of_eq h
  have hsuffix := hlexed.reached.suffix
  rw [hcode, List.suffix_nil] at hsuffix
  refine ⟨?_, hlexed.reached.valid, hsuffix⟩
  cases hreal : b.token.type.isReal with
  | false => rfl
  | true =>
      have := hlexed.progress hreal
      rw [hcode] at this
      simp at this

theorem number_not_mem {ls : List Lexeme} {a b : Stream} (hreads : Reads ls a b)
    (hreal : a.token.type.isReal = false) (hv : a.lexer.Valid) (hcode : a.lexer.code = [])
    (d : Double) : .number d ∉ ls := by
  induction ls generalizing a with
  | nil => simp
  | cons l ls ih =>
      obtain ⟨m, hstep, hrest⟩ := hreads
      rcases hstep.next with ⟨lexType, hn⟩ | ht | ht
      · obtain ⟨hreal', hv', hcode'⟩ := hn.at_end hv hcode
        rw [List.mem_cons, not_or]
        refine ⟨?_, ih hrest hreal' hv' hcode'⟩
        rintro rfl
        rw [hstep.1] at hreal
        cases hreal
      · rw [ht] at hreal
        cases hreal
      · rw [ht] at hreal
        cases hreal

/-- The last token of the input is a number, and no other token is. -/
theorem number_of_mem {ls : List Lexeme} {a b : Stream} {d : Double} (hreads : Reads ls a b)
    (ht : a.token.type = .number) (hv : a.lexer.Valid) (hcode : a.lexer.code = [])
    (hmem : .number d ∈ ls) : d = a.token.data.getDouble := by
  cases ls with
  | nil => cases hmem
  | cons l ls =>
      obtain ⟨m, hstep, hrest⟩ := hreads
      rcases List.mem_cons.mp hmem with rfl | hmem
      · exact hstep.2.1.symm
      · rcases hstep.next with ⟨lexType, hn⟩ | ht' | ht'
        · obtain ⟨hreal, hv', hcode'⟩ := hn.at_end hv hcode
          exact absurd hmem (number_not_mem hrest hreal hv' hcode' d)
        · rw [ht] at ht'
          cases ht'
        · rw [ht] at ht'
          cases ht'

/-- The first token of a source: its type, its number, and what is left behind it. -/
def firstToken (source : List UChar) : Option (JSTokenType × Double × List UChar) :=
  match lex .identifyReservedWords (initialState source).token (setCode source) with
  | .ok (t, l) => some (t.type, t.data.getDouble, l.code)
  | .error _ => none

theorem firstToken_of_next {source : List UChar} {start : Stream}
    (h : (initialState source).stream.Next .identifyReservedWords start) :
    firstToken source = some (start.token.type, start.token.data.getDouble, start.lexer.code) := by
  have h : lex .identifyReservedWords (initialState source).token (setCode source) =
    .ok (start.token, start.lexer) := h
  unfold firstToken
  rw [h]

end AtEnd

/-- The source `1.5`. -/
def fractionSource : List UChar := identifierOfChars ['1', '.', '5']

/-- Its value is 1. -/
theorem number_value_truncated : ∃ j, @reflectParse exactPlatform fractionSource = .tree j ∧
    ¬ @NumbersRelated exactPlatform (fun q n => Representable q → (n : ℚ) = q)
      fractionSource j := by
  let _ : Platform := exactPlatform
  have hrun : (@reflectParse exactPlatform fractionSource).numbers = some [1] := by decide +kernel
  have hfirst : @firstToken exactPlatform fractionSource = some (.number, .finite (3 / 2), []) := by
    decide +kernel
  obtain ⟨j, hj, hnumbers⟩ := ReflectResult.of_numbers hrun
  refine ⟨j, hj, ?_⟩
  rintro ⟨body, pieces, rest, kept, hparsed, hkept, hall⟩
  rw [hnumbers] at hall
  obtain ⟨piece, hpiece, q, d, hl, htext, hvalue⟩ : ∃ piece ∈ kept, ∃ q d,
      piece.lexeme = .number d ∧ NumberText piece.text q d ∧
        (Representable q → ((1 : ℤ) : ℚ) = q) := by
    cases hall with
    | cons h _ => exact ⟨_, List.mem_cons_self .., h⟩
  have hmem : .number d ∈ body.lexemes := by
    rw [← hparsed.lexemes, ← hl]
    exact List.mem_map_of_mem (hkept.subset hpiece)
  obtain ⟨start, stop, haccepted⟩ := hparsed.accepted
  have hstart := firstToken_of_next haccepted.next
  rw [hfirst] at hstart
  simp only [Option.some.injEq, Prod.mk.injEq] at hstart
  have hidle : (setCode fractionSource).Idle := ⟨rfl, rfl, rfl, rfl⟩
  have hv : start.lexer.Valid :=
    ((lex_succeeds _ _ hidle).of_eq haccepted.next).reached.valid
  have hd := number_of_mem haccepted.reads hstart.1.symm hv hstart.2.2.symm hmem
  rw [htext.exact (exactPlatform_exact fun _ => True) trivial, ← hstart.2.1] at hd
  have hq : q = 3 / 2 := Double.finite.inj hd
  have hone := hvalue (hq ▸ ⟨3, -1, by norm_num, by norm_num, by norm_num, by norm_num⟩)
  rw [hq] at hone
  norm_num at hone

end HammerJS
