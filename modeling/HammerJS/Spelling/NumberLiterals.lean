import HammerJS.Reflect.Exact
import HammerJS.Spelling.Numbers

/-!
# Numeric literals are scanned exactly

The cases of the switch that read numbers, from the first character of a literal on: every
literal is read to its end and gets its value from all of its digits, by an accumulator
that holds it or by a conversion, and a name may not follow at once.

* `NumericText.first` — how a literal begins.
* `lexSwitch_reads` — what the switch does there.
* `number_scanned` — the whole literal, with the value and what is left behind.
-/

namespace HammerJS

open Procs Lexer

/-! ## How literals begin -/

theorem DecimalText.first {text : List UChar} (h : DecimalText text) :
    isASCIIDigit (codeUnit text) = true ∨
      codeUnit text = chr '.' ∧ isASCIIDigit (codeUnit (text.drop 1)) = true := by
  cases h with
  | whole hw hne he =>
      obtain ⟨c, whole, rfl⟩ := List.exists_cons_of_ne_nil hne
      exact Or.inl (hw c (List.mem_cons_self ..))
  | @point whole fraction exponent hw hf hne he =>
      cases whole with
      | cons c whole => exact Or.inl (hw c (List.mem_cons_self ..))
      | nil =>
          rw [List.nil_append] at hne
          obtain ⟨c, fraction, rfl⟩ := List.exists_cons_of_ne_nil hne
          exact Or.inr ⟨rfl, hf c (List.mem_cons_self ..)⟩

/-- A literal begins with a digit, or with a point and a digit. -/
theorem NumericText.first {text : List UChar} (h : NumericText text) :
    isASCIIDigit (codeUnit text) = true ∨
      codeUnit text = chr '.' ∧ isASCIIDigit (codeUnit (text.drop 1)) = true := by
  cases h with
  | hex hx hd hne =>
      left
      show isASCIIDigit (chr '0') = true
      decide
  | octal hd hne =>
      left
      show isASCIIDigit (chr '0') = true
      decide
  | decimal h hoctal => exact h.first

/-- What stands behind a text does not change its first code units. -/
theorem codeUnit_append {text : List UChar} (h : codeUnit text ≠ -1) (rest : List UChar) :
    codeUnit (text ++ rest) = codeUnit text := by
  cases text with
  | nil => exact absurd rfl h
  | cons c text => rfl

theorem isASCIIDigit_ne_end {c : Int} (h : isASCIIDigit c = true) : c ≠ -1 := by
  rintro rfl
  exact absurd h (by decide)

/-- The code begins as its literal does. -/
theorem LongestNumber.first {text rest : List UChar} (h : LongestNumber text rest) :
    isASCIIDigit (codeUnit (text ++ rest)) = true ∨
      codeUnit (text ++ rest) = chr '.' ∧
        isASCIIDigit (codeUnit ((text ++ rest).drop 1)) = true := by
  rcases h.numeric.first with hdigit | ⟨hpoint, hdigit⟩
  · left
    rwa [codeUnit_append (isASCIIDigit_ne_end hdigit)]
  · right
    obtain ⟨c, text, rfl⟩ : ∃ c text', text = c :: text' := by
      cases text with
      | nil => exact absurd hdigit (by decide)
      | cons c text => exact ⟨c, text, rfl⟩
    refine ⟨hpoint, ?_⟩
    rw [List.cons_append, List.drop_one, List.tail_cons]
    rw [List.drop_one, List.tail_cons] at hdigit
    rwa [codeUnit_append (isASCIIDigit_ne_end hdigit)]

/-! ## The switch -/

/-- The cases of the switch for the digits. -/
theorem characterType_digit {c : Int} (h : isASCIIDigit c = true) :
    characterType c = (if c = chr '0' then .zero else .number) ∧ isWhiteSpace c = false := by
  have hall : ∀ n < 256, isASCIIDigit (n : Nat) = true →
      characterType (n : Nat) = (if (n : Int) = chr '0' then .zero else .number) ∧
        isWhiteSpace (n : Nat) = false := by decide +kernel
  have hrange := digit_range h
  obtain ⟨n, rfl⟩ := Int.eq_ofNat_of_zero_le (a := c) (by omega)
  exact hall n (by omega) h

section Switch

variable [Platform] {lexType : LexType} {l : Lexer}

/-- In front of a literal the switch reads the longest one. -/
theorem lexSwitch_reads (hv : l.Valid) (hbuffer : l.buffer8 = [])
    (h : isASCIIDigit l.current = true ∨
      l.current = chr '.' ∧ isASCIIDigit (codeUnit (l.code.drop 1)) = true) :
    Yields (lexSwitch lexType (characterType l.current)) l fun exit l' =>
      ReadsNumber l exit l' := by
  rcases h with hdigit | ⟨hdot, hdigit⟩
  · rw [(characterType_digit hdigit).1]
    by_cases hzero : l.current = chr '0'
    · rw [if_pos hzero]
      exact lexZero_reads hv hbuffer hzero
    · rw [if_neg hzero]
      exact lexNumber_first_reads hv hbuffer hdigit hzero
  · rw [hdot]
    refine (lexDot_reads hv hbuffer hdot).mono fun exit l' h => ?_
    rwa [if_pos hdigit] at h

/-- The switch answers there. -/
theorem lexSwitch_answers (hv : l.Valid)
    (h : isASCIIDigit l.current = true ∨
      l.current = chr '.' ∧ isASCIIDigit (codeUnit (l.code.drop 1)) = true) :
    ∃ exit l', lexSwitch lexType (characterType l.current) l = .ok (exit, l') := by
  have hkind : l.current ≠ -1 ∧ isWhiteSpace l.current = false := by
    rcases h with hdigit | ⟨hdot, -⟩
    · exact ⟨isASCIIDigit_ne_end hdigit, (characterType_digit hdigit).2⟩
    · rw [hdot]
      decide
  obtain ⟨exit, l', hrun, -⟩ := lexSwitch_scanned lexType hv hkind.1 hkind.2
  exact ⟨exit, l', hrun⟩

/-- **Numeric literals are scanned exactly.** The literal that the code starts with is read,
all of it and nothing more; its value is the accumulator, which never wrapped, or what a
conversion makes of all its digits, and `m_buffer8` is empty again. Where a name follows at
once, the literal is rejected. -/
theorem number_scanned {text rest : List UChar} (hv : l.Valid) (hbuffer : l.buffer8 = [])
    (hcode : l.code = text ++ rest) (h : LongestNumber text rest) :
    ∃ exit l', lexSwitch lexType (characterType l.current) l = .ok (exit, l') ∧
      if isIdentStart (codeUnit rest) = true then exit = .returnError
      else ∃ d, exit = .done .number (some (.doubleValue d)) ∧ NumberScan text d ∧
        l'.code = rest ∧ l'.buffer8 = [] := by
  have hfirst := h.first
  rw [← hcode, hv.codeUnit_eq] at hfirst
  obtain ⟨exit, l', hrun⟩ := @lexSwitch_answers _ lexType l hv hfirst
  refine ⟨exit, l', hrun, ?_⟩
  obtain ⟨text', rest', h', hcode', hleaves⟩ := (lexSwitch_reads hv hbuffer hfirst).of_eq hrun
  -- only one literal is the longest
  obtain ⟨rfl, rfl⟩ := h'.unique h (hcode'.symm.trans hcode)
  by_cases hstart : isIdentStart (codeUnit rest') = true
  · rwa [if_pos hstart] at hleaves ⊢
  · rw [if_neg hstart] at hleaves ⊢
    obtain ⟨d, hexit, hscan, hscans, hempty⟩ := hleaves
    refine ⟨d, hexit, hscan, ?_, hempty⟩
    exact List.append_cancel_left (hscans.code.symm.trans hcode')

end Switch

/-- `0778` starts as an octal literal and is a decimal one. -/
theorem longestNumber_0778 : LongestNumber (identifierOfChars ['0', '7', '7', '8']) [] := by
  have hd : Digits (identifierOfChars ['0', '7', '7', '8']) :=
    List.all_iff_forall_prop.mp (by decide)
  have htext := DecimalText.whole hd (by decide) .none
  have hlongest := @LongestDecimal.whole _ [] [] hd (by decide) (by decide) (.none (by decide))
  rw [List.append_nil] at htext hlongest
  refine .decimal htext ?_ hlongest fun x digits hx _ _ hp => ?_
  · rintro ⟨digits, heq, hoctal, -⟩
    have heq : identifierOfChars ['0'] ++ identifierOfChars ['7', '7', '8'] =
        identifierOfChars ['0'] ++ digits := heq
    have heq := List.append_cancel_left heq
    exact absurd (hoctal '8'.toNat.toUInt16 (by rw [← heq]; decide)) (by decide)
  · obtain ⟨-, hp⟩ := List.cons_prefix_cons.mp hp
    obtain ⟨rfl, -⟩ := List.cons_prefix_cons.mp hp
    exact absurd hx (by decide)

/-- The scanners on `0778`. -/
theorem number_scanned_0778 :
    let _ : Platform := exactPlatform
    let l := setCode (identifierOfChars ['0', '7', '7', '8'])
    ∃ exit l', lexSwitch .identifyReservedWords (characterType l.current) l = .ok (exit, l') ∧
      if isIdentStart (codeUnit []) = true then exit = .returnError
      else ∃ d, exit = .done .number (some (.doubleValue d)) ∧
        NumberScan (identifierOfChars ['0', '7', '7', '8']) d ∧ l'.code = [] ∧ l'.buffer8 = [] := by
  intro _ l
  exact number_scanned rfl rfl (List.append_nil _).symm longestNumber_0778

end HammerJS
