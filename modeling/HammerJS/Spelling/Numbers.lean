import HammerJS.Spelling.NumericTexts
import HammerJS.Spelling.Scanners
import Mathlib.Data.List.TakeWhile

/-!
# What the number scanners read

The digit loops with their accumulators, and the cases of the switch that they serve.

* `Lexer.digitLoop_takes`, `Lexer.parseHex_scans`, `Lexer.parseOctal_scans`,
  `Lexer.parseDecimal_scans` — the digits read, and the number made of them.
* `Lexer.LeavesNumber` — how the scanning of a number ends.
* `Lexer.lexNumber_reads`, `Lexer.lexZero_reads`, `Lexer.lexDot_reads` — whole numbers.
-/

namespace HammerJS

open Procs

/-! ## Digits -/

/-- One more digit in an accumulator of 32 bits. -/
theorem accumulate_cons (radix value d more len : Nat) :
    ((value * radix + d) % 2 ^ 32 * radix ^ len + more) % 2 ^ 32 =
      (value * radix ^ (len + 1) + (d * radix ^ len + more)) % 2 ^ 32 := by
  rw [Nat.add_mod, Nat.mod_mul_mod, ← Nat.add_mod]
  congr 1
  ring

theorem digitsValue_charsOf_cons (radix : Nat) (c : UChar) (digits : List UChar) :
    digitsValue radix (charsOf (c :: digits)) =
      digitValue (Char.ofNat c.toNat) * radix ^ digits.length +
        digitsValue radix (charsOf digits) := by
  have h := digitsValue_append radix [Char.ofNat c.toNat] (charsOf digits)
  rw [digitsValue_single, charsOf, List.length_map] at h
  exact h

theorem digit_value {c : UChar} (h : isASCIIDigit c.toNat = true) :
    digitValue (Char.ofNat c.toNat) = ((c.toNat : Int) - chr '0').toNat ∧
      digitValue (Char.ofNat c.toNat) < 10 := by
  have hall : ∀ n < 256, isASCIIDigit (n : Nat) = true →
      digitValue (Char.ofNat n) = ((n : Int) - chr '0').toNat ∧ digitValue (Char.ofNat n) < 10 := by
    decide +kernel
  have hrange := (Lexer.digit_range h).2
  exact hall c.toNat (by omega) h

theorem digitsValue_charsOf_lt {radix : Nat} {digits : List UChar}
    (h : ∀ d ∈ digits, digitValue (Char.ofNat (UInt16.toNat d)) < radix) :
    digitsValue radix (charsOf digits) < radix ^ digits.length := by
  have hlt : digitsValue radix (charsOf digits) < radix ^ (charsOf digits).length := by
    refine digitsValue_lt fun c hc => ?_
    obtain ⟨u, hu, rfl⟩ := List.mem_map.mp hc
    exact h u hu
  rwa [charsOf, List.length_map] at hlt

/-- Few digits fit into 32 bits, and so does every part of them. -/
theorem fits_of_length {radix n : Nat} {digits : List UChar}
    (h : ∀ d ∈ digits, digitValue (Char.ofNat (UInt16.toNat d)) < radix)
    (hradix : 0 < radix) (hn : radix ^ n ≤ 2 ^ 32) (hlen : digits.length ≤ n) :
    Fits radix digits := by
  intro p hp
  have hvalue : digitsValue radix (charsOf p) < radix ^ p.length :=
    digitsValue_charsOf_lt fun d hd => h d (hp.subset hd)
  have hpow : radix ^ p.length ≤ radix ^ n :=
    Nat.pow_le_pow_right hradix (hp.length_le.trans hlen)
  omega

namespace Lexer

/-- Where the class has ended, no more of it is read. -/
theorem Scans.stays {p : Int → Bool} {l l' : Lexer} {text : List UChar} (h : Scans l text l')
    (hv : l.Valid) (hall : ∀ c ∈ text, p (UInt16.toNat c) = true) (hc : p l.current = false) :
    text = [] ∧ l'.current = l.current := by
  cases text with
  | nil =>
      refine ⟨rfl, ?_⟩
      rw [show l.current = codeUnit l.code from hv, show l'.current = codeUnit l'.code from h.valid,
        show l.code = l'.code from h.code]
  | cons c text =>
      rw [hv.current_of_head (show l.code.head? = some c by rw [h.code]; rfl),
        hall c (List.mem_cons_self ..)] at hc
      cases hc

/-- What the digit loop of `parseHex` reads: the digits that still fit. -/
theorem hexLoop_takes (n value : Nat) (maximumDigits : Int) {l : Lexer} (hv : l.Valid)
    (hmax : 0 ≤ maximumDigits) :
    Yields (hexLoop value maximumDigits n) l fun r l' => ∃ digits : List UChar,
      Takes l digits l' ∧ HexDigits digits ∧ digits ≠ [] ∧
        r.1 = (value * 16 ^ digits.length + digitsValue 16 (charsOf digits)) % 2 ^ 32 ∧
          r.2 = maximumDigits - digits.length ∧ -1 ≤ r.2 ∧
            (0 ≤ r.2 → isASCIIHexDigit l'.current = false) := by
  induction n generalizing value maximumDigits l with
  | zero => simp [hexLoop]
  | succ n ih =>
      simp only [hexLoop, yields_bind, yields_getCurrent, yields_assert, yields_shift, yields_ite]
      intro hhex hne
      obtain ⟨c, hc, h₁⟩ := hv.shift hne
      rw [hc] at hhex ⊢
      rw [hexValue_eq hhex, Nat.mod_add_mod]
      have hd₁ : HexDigits [c] := by simpa [HexDigits] using hhex
      split
      case isTrue hmore =>
        simp only [Bool.and_eq_true, decide_eq_true_eq] at hmore
        refine (ih _ _ h₁.valid (by omega)).mono ?_
        rintro ⟨value', max'⟩ l' ⟨digits, h, hd, -, hvalue, hmax', hle, hend⟩
        refine ⟨[c] ++ digits, h₁.trans h, ?_, by simp, ?_, ?_, hle, hend⟩
        · intro d hmem
          rcases List.mem_append.mp hmem with hmem | hmem
          · exact hd₁ d hmem
          · exact hd d hmem
        · simp only at hvalue
          rw [hvalue, accumulate_cons, List.singleton_append, List.length_cons,
            digitsValue_charsOf_cons]
        · simp only at hmax'
          simp only [List.singleton_append, List.length_cons]
          omega
      case isFalse hmore =>
        simp only [Bool.and_eq_true, decide_eq_true_eq, not_and] at hmore
        refine (yields_pure _).mpr ⟨[c], h₁, hd₁, by simp, ?_, by simp, by simp; omega, ?_⟩
        · rw [digitsValue_charsOf_cons]
          simp [charsOf]
        · intro h0
          cases h : isASCIIHexDigit l.advance.current with
          | false => rfl
          | true => exact absurd h0 (hmore h)

/-- What the digit loop of `parseOctal` and `parseDecimal` reads. -/
theorem digitLoop_takes {radix : Nat} {isDigit : Int → Bool}
    (hdigit : ∀ c : UChar, isDigit c.toNat = true →
      digitValue (Char.ofNat c.toNat) = ((c.toNat : Int) - chr '0').toNat)
    (n value : Nat) (digits : List Int) (maximumDigits : Int) {l : Lexer} (hv : l.Valid)
    (hc : isDigit l.current = true) (hmax : 0 ≤ maximumDigits) :
    Yields (digitLoop radix isDigit value digits maximumDigits n) l fun r l' =>
      ∃ text : List UChar, Takes l text l' ∧ (∀ d ∈ text, isDigit (UInt16.toNat d) = true) ∧
        text ≠ [] ∧
          r.1 = (value * radix ^ text.length + digitsValue radix (charsOf text)) % 2 ^ 32 ∧
            r.2.1 = digits ++ text.map (fun d => (UInt16.toNat d : Int)) ∧
              r.2.2 = maximumDigits - text.length ∧
                (0 ≤ r.2.2 → isDigit l'.current = false) := by
  induction n generalizing value digits maximumDigits l with
  | zero => simp [digitLoop]
  | succ n ih =>
      simp only [digitLoop, yields_bind, yields_getCurrent, yields_assert, yields_shift, yields_ite]
      intro _ hne
      obtain ⟨c, hcur, h₁⟩ := hv.shift hne
      rw [hcur] at hc ⊢
      rw [← hdigit c hc]
      split
      case isTrue hmore =>
        simp only [Bool.and_eq_true, decide_eq_true_eq] at hmore
        refine (ih _ _ _ h₁.valid hmore.1 (by omega)).mono ?_
        rintro ⟨value', digits', max'⟩ l' ⟨text, h, hd, -, hvalue, hdigits, hmax', hend⟩
        refine ⟨[c] ++ text, h₁.trans h, ?_, by simp, ?_, ?_, ?_, hend⟩
        · intro d hmem
          rcases List.mem_append.mp hmem with hmem | hmem
          · rwa [List.mem_singleton.mp hmem]
          · exact hd d hmem
        · simp only at hvalue
          rw [hvalue, accumulate_cons, List.singleton_append, List.length_cons,
            digitsValue_charsOf_cons]
        · simp only at hdigits
          simp [hdigits]
        · simp only at hmax'
          simp only [List.singleton_append, List.length_cons]
          omega
      case isFalse hmore =>
        simp only [Bool.and_eq_true, decide_eq_true_eq, not_and] at hmore
        refine (yields_pure _).mpr ⟨[c], h₁, by simpa using hc, by simp, ?_, by simp, by simp, ?_⟩
        · rw [digitsValue_charsOf_cons]
          simp [charsOf]
        · intro h0
          cases h : isDigit l.advance.current with
          | false => rfl
          | true => exact absurd h0 (hmore h)

/-- The digits of the array go to `m_buffer8`. -/
theorem recordDigits_yields (text : List UChar) {l : Lexer} :
    Yields (recordDigits (text.map fun d => (UInt16.toNat d : Int))) l fun _ l' =>
      l' = { l with buffer8 := l.buffer8 ++ charsOf text } := by
  induction text generalizing l with
  | nil => simp [recordDigits, charsOf]
  | cons c text ih =>
      simp only [List.map_cons, recordDigits, yields_bind, yields_record8]
      intro _ _
      refine ih.mono ?_
      rintro _ l' rfl
      simp [charsOf]

/-- The letter of a digit, in lower case. -/
theorem lower_digit {c : UChar} (h : isASCIIHexDigit c.toNat = true) :
    let d : Int := digitValue (Char.ofNat c.toNat)
    ((if d < 10 then Char.ofNat (d + chr '0').toNat else Char.ofNat (d - 10 + chr 'a').toNat)).toLower =
      (Char.ofNat c.toNat).toLower := by
  have hall : ∀ n < 256, isASCIIHexDigit (n : Nat) = true →
      let d : Int := digitValue (Char.ofNat n)
      ((if d < 10 then Char.ofNat (d + chr '0').toNat
        else Char.ofNat (d - 10 + chr 'a').toNat)).toLower = (Char.ofNat n).toLower := by
    decide +kernel
  have hrange := (hexDigit_range h).2
  exact hall c.toNat (by omega) h

/-- The digits of `hexValue` go to `m_buffer8`; each step takes the highest of them. -/
theorem recordHexValue_yields (digits : List UChar) (hd : HexDigits digits)
    (hlen : digits.length ≤ 8) {value : Nat}
    (hvalue : value = digitsValue 16 (charsOf digits) * 16 ^ (8 - digits.length)) {l : Lexer} :
    Yields (recordHexValue value digits.length) l fun _ l' => ∃ buffer : List Char,
      buffer.map Char.toLower = (charsOf digits).map Char.toLower ∧
        l' = { l with buffer8 := l.buffer8 ++ buffer } := by
  induction digits generalizing value l with
  | nil => simp [recordHexValue, charsOf]
  | cons c digits ih =>
      have hc : isASCIIHexDigit c.toNat = true := hd c (by simp)
      have hd' : HexDigits digits := fun d h => hd d (by simp [h])
      have hlt : digitsValue 16 (charsOf digits) < 16 ^ digits.length :=
        digitsValue_charsOf_lt fun d h => hexDigit_value (hd' d h)
      rw [List.length_cons] at hlen hvalue
      -- the value is the first digit, above the rest
      have hsplit : value = digitValue (Char.ofNat c.toNat) * 16 ^ 7 +
          digitsValue 16 (charsOf digits) * 16 ^ (7 - digits.length) := by
        rw [hvalue, digitsValue_charsOf_cons, Nat.add_mul, Nat.mul_assoc, ← pow_add,
          show 8 - (digits.length + 1) = 7 - digits.length by omega,
          show digits.length + (7 - digits.length) = 7 by omega]
      have hrest : digitsValue 16 (charsOf digits) * 16 ^ (7 - digits.length) < 16 ^ 7 := by
        calc digitsValue 16 (charsOf digits) * 16 ^ (7 - digits.length)
            < 16 ^ digits.length * 16 ^ (7 - digits.length) :=
              Nat.mul_lt_mul_of_pos_right hlt (Nat.pow_pos (by decide))
          _ = 16 ^ 7 := by rw [← pow_add, show digits.length + (7 - digits.length) = 7 by omega]
      have hnext : value * 16 % 2 ^ 32 =
          digitsValue 16 (charsOf digits) * 16 ^ (8 - digits.length) := by
        have hpow : 16 ^ (8 - digits.length) = 16 ^ (7 - digits.length) * 16 := by
          rw [← pow_succ, show 7 - digits.length + 1 = 8 - digits.length by omega]
        rw [hpow, ← Nat.mul_assoc]
        omega
      have hfirst : value / 2 ^ 28 = digitValue (Char.ofNat c.toNat) := by omega
      have hmore : ∀ letter : Char, letter.toLower = (Char.ofNat c.toNat).toLower →
          Yields (recordHexValue (digitsValue 16 (charsOf digits) * 16 ^ (8 - digits.length))
            digits.length) { l with buffer8 := l.buffer8 ++ [letter] } fun _ l' =>
              ∃ buffer : List Char,
                buffer.map Char.toLower = (charsOf (c :: digits)).map Char.toLower ∧
                  l' = { l with buffer8 := l.buffer8 ++ buffer } := by
        intro letter hletter
        refine (ih hd' (by omega) rfl).mono ?_
        rintro _ l' ⟨buffer, hbuffer, rfl⟩
        refine ⟨letter :: buffer, ?_, by simp⟩
        rw [List.map_cons, hletter, hbuffer]
        rfl
      have hlower := lower_digit hc
      simp only at hlower
      simp only [List.length_cons, recordHexValue, hfirst, hnext, yields_bind, yields_ite,
        yields_record8]
      split
      case isTrue hsmall =>
        rw [if_pos hsmall] at hlower
        exact fun _ _ => hmore _ hlower
      case isFalse hlarge =>
        rw [if_neg hlarge] at hlower
        exact fun _ _ => hmore _ hlower

/-- What `parseHex` reads, from the `x` on. -/
theorem parseHex_scans [Platform] {l : Lexer} (hv : l.Valid) (hbuffer : l.buffer8 = [])
    (hne : l.current ≠ -1) :
    Yields parseHex l fun d l' => ∃ (x : UChar) (digits : List UChar),
      l.current = x.toNat ∧ Scans l (x :: digits) l' ∧ HexDigits digits ∧ digits ≠ [] ∧
        isASCIIHexDigit l'.current = false ∧
        (digits.length ≤ 7 ∧ d = .finite (digitsValue 16 (charsOf digits)) ∨
          7 < digits.length ∧ ∃ buffer : List Char,
            buffer.map Char.toLower = (charsOf digits).map Char.toLower ∧
              d = Platform.parseIntOverflow buffer 16) := by
  obtain ⟨x, hx, h₁⟩ := hv.shift hne
  simp only [parseHex, yields_bind, yields_shift, yields_bound]
  intro _
  refine (hexLoop_takes _ 0 7 h₁.valid (by omega)).mono ?_
  rintro ⟨value, maximumDigits⟩ l₂ ⟨digits, h₂, hd, hnil, hvalue, hmax, hle, hend⟩
  simp only [Nat.zero_mul, Nat.zero_add] at hvalue hmax hle hend
  have hlt : digitsValue 16 (charsOf digits) < 16 ^ digits.length :=
    digitsValue_charsOf_lt fun d h => hexDigit_value (hd d h)
  have hpow : 16 ^ digits.length ≤ 16 ^ 8 := Nat.pow_le_pow_right (by decide) (by omega)
  have hvalue : value = digitsValue 16 (charsOf digits) := by
    rw [hvalue, Nat.mod_eq_of_lt]
    omega
  simp only [yields_ite, yields_pure, yields_bind, yields_get]
  split
  case isTrue hfits =>
    exact ⟨x, digits, hx, (h₁.trans h₂).scans, hd, hnil, hend hfits,
      Or.inl ⟨by omega, by rw [hvalue]⟩⟩
  case isFalse hfull =>
    -- all eight places are taken
    have hlen : digits.length = 8 := by omega
    rw [← hlen]
    refine (recordHexValue_yields digits hd (by omega) (by rw [hvalue, hlen]; simp)).mono ?_
    rintro _ l₃ ⟨buffer, hlower, rfl⟩
    have h₃ := (h₁.trans h₂).scans.buffers (l₂.buffer8 ++ buffer) l₂.buffer16
    refine (recordWhile_scans h₃.valid).mono ?_
    rintro _ l₄ ⟨more, h₄, hmore, hbuffer', -, hend₄⟩
    refine ⟨x, digits ++ more, hx, ?_, ?_, by simp [hnil], hend₄,
      Or.inr ⟨by rw [List.length_append]; omega, l₄.buffer8, ?_, rfl⟩⟩
    · rw [← List.singleton_append, ← List.append_assoc]
      exact h₃.trans h₄
    · intro d hmem
      rcases List.mem_append.mp hmem with hmem | hmem
      · exact hd d hmem
      · exact hmore d hmem
    · have hempty : l₂.buffer8 = [] := by rw [h₂.buffer8, h₁.buffer8, hbuffer]
      rw [hbuffer', hempty, charsOf_append, List.nil_append, List.map_append, List.map_append,
        hlower]

/-- What `parseOctal` reads after a zero; without an answer the digits are in `m_buffer8`. -/
theorem parseOctal_scans [Platform] {l : Lexer} (hv : l.Valid) (hbuffer : l.buffer8 = ['0'])
    (hc : isASCIIOctalDigit l.current = true) :
    Yields parseOctal l fun r l' => ∃ digits : List UChar,
      Scans l digits l' ∧ OctalDigits digits ∧ digits ≠ [] ∧
        isASCIIOctalDigit l'.current = false ∧
        (∀ d ∈ r, isASCIIDigit l'.current = false ∧
          (digits.length ≤ 9 ∧ d = .finite (digitsValue 8 (charsOf digits)) ∨
            9 < digits.length ∧ d = Platform.parseIntOverflow ('0' :: charsOf digits) 8)) ∧
        (r = none → l'.buffer8 = '0' :: charsOf digits ∧ isASCIIDigit l'.current = true) := by
  simp only [parseOctal, yields_bind, yields_bound]
  refine (digitLoop_takes (fun c h => (digit_value (octalDigit_isDigit h)).1) _ 0 [] 9 hv hc
    (by omega)).mono ?_
  rintro ⟨value, array, maximumDigits⟩ l₁ ⟨digits, h₁, hd, hnil, hvalue, harray, hmax, hend⟩
  simp only [Nat.zero_mul, Nat.zero_add, List.nil_append] at hvalue harray hmax hend
  simp only [yields_ite, yields_pure, yields_bind, yields_get, yields_getCurrent]
  split
  case isTrue hfast =>
    simp only [Bool.and_eq_true, Bool.not_eq_true', decide_eq_true_eq] at hfast
    refine ⟨digits, h₁.scans, hd, hnil, hend hfast.2, ?_, by simp⟩
    rintro _ ⟨rfl⟩
    refine ⟨hfast.1, Or.inl ⟨by omega, ?_⟩⟩
    have hlt : digitsValue 8 (charsOf digits) < 8 ^ digits.length :=
      digitsValue_charsOf_lt fun d h => (octalDigit_value (hd d h)).2
    have hpow : 8 ^ digits.length ≤ 8 ^ 9 := Nat.pow_le_pow_right (by decide) (by omega)
    rw [hvalue, Nat.mod_eq_of_lt]
    omega
  case isFalse hslow =>
    simp only [Bool.and_eq_true, Bool.not_eq_true', decide_eq_true_eq, not_and] at hslow
    rw [harray]
    refine (recordDigits_yields digits).mono ?_
    rintro _ l₂ rfl
    have h₂ := h₁.scans.buffers (l₁.buffer8 ++ charsOf digits) l₁.buffer16
    refine (recordWhile_scans h₂.valid).mono ?_
    rintro _ l₃ ⟨more, h₃, hmore, hbuffer₃, -, hend₃⟩
    have hall : OctalDigits (digits ++ more) := by
      intro d hmem
      rcases List.mem_append.mp hmem with hmem | hmem
      · exact hd d hmem
      · exact hmore d hmem
    have hbuffer₃ : l₃.buffer8 = '0' :: charsOf (digits ++ more) := by
      rw [hbuffer₃, h₁.buffer8, hbuffer, charsOf_append, List.append_assoc]
      rfl
    have h := h₂.trans h₃
    split
    case isTrue hdigit =>
      exact ⟨digits ++ more, h, hall, by simp [hnil], hend₃, by simp, fun _ => ⟨hbuffer₃, hdigit⟩⟩
    case isFalse hdigit =>
      refine ⟨digits ++ more, h, hall, by simp [hnil], hend₃, ?_, by simp⟩
      rintro _ ⟨rfl⟩
      have hdigit : isASCIIDigit l₃.current = false := by simpa using hdigit
      refine ⟨hdigit, Or.inr ⟨?_, by rw [hbuffer₃]⟩⟩
      -- with fewer digits the number would have ended in the array
      by_contra hfew
      rw [List.length_append] at hfew
      have hmax₀ : 0 ≤ maximumDigits := by omega
      have hcurrent := (h₃.stays h₂.valid hmore (hend hmax₀)).2
      rw [hcurrent] at hdigit
      exact hslow hdigit hmax₀

/-- What `parseDecimal` reads; without an answer the digits are in `m_buffer8`. -/
theorem parseDecimal_scans {l : Lexer} (hv : l.Valid)
    (hc : l.buffer8 = [] → isASCIIDigit l.current = true) :
    Yields parseDecimal l fun r l' => ∃ digits : List UChar,
      Scans l digits l' ∧ Digits digits ∧ (isASCIIDigit l.current = true → digits ≠ []) ∧
        isASCIIDigit l'.current = false ∧
        (∀ d ∈ r, l.buffer8 = [] ∧ digits.length ≤ 9 ∧ l'.current ≠ chr '.' ∧
          orBit20 l'.current ≠ chr 'e' ∧ d = .finite (digitsValue 10 (charsOf digits))) ∧
        (r = none → l'.buffer8 = l.buffer8 ++ charsOf digits ∧ (l.buffer8 = [] →
          9 < digits.length ∨ l'.current = chr '.' ∨ orBit20 l'.current = chr 'e')) := by
  have hrest : ∀ {digits : List UChar} {l₁ : Lexer}, Scans l digits l₁ → Digits digits →
      l₁.buffer8 = l.buffer8 ++ charsOf digits →
      (l.buffer8 = [] → 9 < digits.length ∨
        isASCIIDigit l₁.current = false ∧ (l₁.current = chr '.' ∨ orBit20 l₁.current = chr 'e')) →
      Yields (recordWhile isASCIIDigit >>= fun _ => pure (none : Option Double)) l₁ fun r l' =>
        ∃ digits : List UChar, Scans l digits l' ∧ Digits digits ∧
          (isASCIIDigit l.current = true → digits ≠ []) ∧ isASCIIDigit l'.current = false ∧
          (∀ d ∈ r, l.buffer8 = [] ∧ digits.length ≤ 9 ∧ l'.current ≠ chr '.' ∧
            orBit20 l'.current ≠ chr 'e' ∧ d = .finite (digitsValue 10 (charsOf digits))) ∧
          (r = none → l'.buffer8 = l.buffer8 ++ charsOf digits ∧ (l.buffer8 = [] →
            9 < digits.length ∨ l'.current = chr '.' ∨ orBit20 l'.current = chr 'e')) := by
    intro digits l₁ h₁ hd hbuffer hlong
    refine (yields_bind _ _ _).mpr ((recordWhile_scans h₁.valid).mono ?_)
    rintro _ l₂ ⟨more, h₂, hmore, hbuffer₂, -, hend⟩
    have h := h₁.trans h₂
    refine (yields_pure _).mpr ⟨digits ++ more, h, ?_, fun hdigit => h.ne_nil hv hdigit hend, hend,
      by simp, fun _ => ⟨?_, fun hnil => ?_⟩⟩
    · intro d hmem
      rcases List.mem_append.mp hmem with hmem | hmem
      · exact hd d hmem
      · exact hmore d hmem
    · rw [hbuffer₂, hbuffer, charsOf_append, List.append_assoc]
    · rcases hlong hnil with hlen | ⟨hstop, hkind⟩
      · left
        rw [List.length_append]
        omega
      · right
        rwa [(h₂.stays h₁.valid hmore hstop).2]
  simp only [parseDecimal, yields_bind, yields_get, yields_ite]
  split
  case isFalse hempty =>
    exact (yields_bind _ _ _).mp (hrest (Takes.refl hv).scans (by simp [Digits])
      (by simp [charsOf]) fun hnil => absurd (List.isEmpty_iff.mpr hnil) hempty)
  case isTrue hnil =>
    have hnil : l.buffer8 = [] := List.isEmpty_iff.mp hnil
    simp only [yields_bound]
    refine (digitLoop_takes (fun c h => (digit_value h).1) _ 0 [] 9 hv (hc hnil) (by omega)).mono ?_
    rintro ⟨value, array, maximumDigits⟩ l₁ ⟨digits, h₁, hd, hne, hvalue, harray, hmax, hend⟩
    simp only [Nat.zero_mul, Nat.zero_add, List.nil_append] at hvalue harray hmax hend
    simp only [yields_getCurrent]
    split
    case isTrue hfast =>
      refine (yields_pure _).mpr ⟨digits, h₁.scans, hd, fun _ => hne, hend hfast.1, ?_, by simp⟩
      rintro _ ⟨rfl⟩
      have hlt : digitsValue 10 (charsOf digits) < 10 ^ digits.length :=
        digitsValue_charsOf_lt fun d h => (digit_value (hd d h)).2
      have hpow : 10 ^ digits.length ≤ 10 ^ 9 := Nat.pow_le_pow_right (by decide) (by omega)
      refine ⟨hnil, by omega, hfast.2.1, hfast.2.2, ?_⟩
      rw [hvalue, Nat.mod_eq_of_lt]
      omega
    case isFalse hslow =>
      have hlong : 9 < digits.length ∨ isASCIIDigit l₁.current = false ∧
          (l₁.current = chr '.' ∨ orBit20 l₁.current = chr 'e') := by
        by_cases hmax₀ : 0 ≤ maximumDigits
        · refine Or.inr ⟨hend hmax₀, ?_⟩
          by_contra hkind
          exact hslow ⟨hmax₀, not_or.mp hkind⟩
        · exact Or.inl (by omega)
      rw [harray]
      refine (recordDigits_yields digits).mono ?_
      rintro _ l₂ rfl
      exact (yields_bind _ _ _).mp (hrest (h₁.scans.buffers (l₁.buffer8 ++ charsOf digits)
        l₁.buffer16) hd (by rw [h₁.buffer8]) fun _ => hlong)

/-! ## Whole numbers -/

/-- Digits, signs and points are left as they are. -/
theorem lowerExponent_eq {text : List UChar} (h : ∀ c ∈ text, UInt16.toNat c < 65) :
    lowerExponent text = charsOf text := by
  have hall : ∀ n < 65, Char.ofNat n ≠ 'E' := by decide
  rw [lowerExponent]
  refine (List.map_congr_left fun c hc => ?_).trans (List.map_id _)
  obtain ⟨u, hu, rfl⟩ := List.mem_map.mp hc
  rw [if_neg (hall _ (h u hu))]
  rfl

theorem Digits.lowerExponent {digits : List UChar} (h : Digits digits) :
    lowerExponent digits = charsOf digits := by
  refine lowerExponent_eq fun c hc => ?_
  have h9 : chr '9' = 57 := rfl
  have hd := h c hc
  simp only [isASCIIDigit, Bool.and_eq_true, decide_eq_true_eq] at hd
  omega

theorem lowerExponent_e {e : UChar} (he : orBit20 e.toNat = chr 'e') : lowerExponent [e] = ['e'] := by
  have hall : ∀ n < 128, orBit20 (n : Nat) = chr 'e' →
      (if Char.ofNat n = 'E' then 'e' else Char.ofNat n) = 'e' := by decide
  have hle : e.toNat ≤ e.toNat ||| 0x20 := Nat.left_le_or
  have hor : ((e.toNat ||| 0x20 : Nat) : Int) = 101 := by
    rw [orBit20, if_neg (by omega)] at he
    exact he
  have h := hall e.toNat (by omega) he
  rw [lowerExponent, charsOf_single, List.map_singleton, h]

/-- The current character is the first of the code. -/
theorem Valid.codeUnit_eq {l : Lexer} (hv : l.Valid) : codeUnit l.code = l.current := hv.symm

/-- What `parseNumberAfterExponentIndicator` reads, from the `e` on; it fails where no
exponent follows. -/
theorem parseNumberAfterExponentIndicator_reads {l : Lexer} (hv : l.Valid)
    (he : orBit20 l.current = chr 'e') :
    Yields parseNumberAfterExponentIndicator l fun ok l' =>
      if ok = true then ∃ exponent, Scans l exponent l' ∧ ExponentText exponent ∧
        LongestExponent exponent l'.code ∧ l'.buffer8 = l.buffer8 ++ lowerExponent exponent
      else LongestExponent [] l.code := by
  simp only [parseNumberAfterExponentIndicator, yields_bind, yields_record8, yields_shift,
    yields_getCurrent, yields_ite, show Char.ofNat (chr 'e').toNat = 'e' from rfl]
  intro _ _ hne
  let l₁ : Lexer := advance { l with buffer8 := l.buffer8 ++ ['e'] }
  obtain ⟨e, hcur, h₁⟩ := hv.shift hne
  rw [hcur] at he
  have h₁ : Scans l [e] l₁ := h₁.scans.buffers (l.buffer8 ++ ['e']) l.buffer16
  let Q : Bool → Lexer → Prop := fun ok l' =>
    if ok = true then ∃ exponent, Scans l exponent l' ∧ ExponentText exponent ∧
      LongestExponent exponent l'.code ∧ l'.buffer8 = l.buffer8 ++ lowerExponent exponent
    else LongestExponent [] l.code
  have hdigits : ∀ {sign : List UChar} {l₂ : Lexer}, Scans l₁ sign l₂ → SignText sign →
      (sign = [] → l₂.current ≠ chr '+' ∧ l₂.current ≠ chr '-') →
      l₂.buffer8 = l₁.buffer8 ++ lowerExponent sign →
      if (!isASCIIDigit l₂.current) = true then Yields (pure false : LexM Bool) l₂ Q
      else Yields (recordWhile isASCIIDigit) l₂ fun _ l₃ =>
        Yields (pure true : LexM Bool) l₃ Q := by
    intro sign l₂ h₂ hsign hplain hbuffer
    have hcode : l.code = e :: sign ++ l₂.code := (h₁.trans h₂).code
    rw [← h₂.valid.codeUnit_eq] at hplain
    split
    case isTrue hnot =>
      have hrest : isASCIIDigit (codeUnit l₂.code) = false := by
        rw [h₂.valid.codeUnit_eq]
        simpa using hnot
      refine (yields_pure _).mpr ?_
      show LongestExponent [] l.code
      rw [hcode]
      exact .malformed hsign hplain hrest
    case isFalse hdigit =>
      refine (recordWhile_scans h₂.valid).mono ?_
      rintro _ l₃ ⟨digits, h₃, hd, hbuffer₃, -, hend⟩
      have hne := h₃.ne_nil h₂.valid (by simpa using hdigit) hend
      rw [← h₃.valid.codeUnit_eq] at hend
      refine (yields_pure _).mpr ⟨[e] ++ sign ++ digits, (h₁.trans h₂).trans h₃,
        .some he hsign hd hne, .some hsign hd hne hend, ?_⟩
      rw [hbuffer₃, hbuffer, lowerExponent_append, lowerExponent_append, lowerExponent_e he,
        Digits.lowerExponent hd]
      simp [l₁, advance]
  change if l₁.current = chr '+' ∨ l₁.current = chr '-' then _ else _
  split
  case isTrue hsign =>
    intro _ _ hne₁
    obtain ⟨c, hc, hshift⟩ := h₁.valid.shift hne₁
    rw [hc] at hsign
    have hrecorded : (l₁.current.toNat.toUInt16) = c := by rw [hc, recorded_unit]
    have hsmall : c.toNat < 65 := by
      have hplus : chr '+' = 43 := rfl
      have hminus : chr '-' = 45 := rfl
      omega
    have htext : SignText [c] := by
      right
      rw [← hrecorded, hc]
      rcases hsign with hsign | hsign
      · left
        rw [hsign]
        rfl
      · right
        rw [hsign]
        rfl
    refine hdigits (hshift.scans.buffers (l₁.buffer8 ++ [Char.ofNat l₁.current.toNat]) l₁.buffer16)
      htext (by simp) ?_
    rw [lowerExponent_eq (by simpa using hsmall), charsOf_single, hc]
    rfl
  case isFalse hplain =>
    exact hdigits (Takes.refl h₁.valid).scans (Or.inl rfl) (fun _ => not_or.mp hplain)
      (List.append_nil _).symm

/-- How a number is left after `text`: with an error where a name follows at once, else
with a number of which `P` holds and nothing of which is left in `m_buffer8`. -/
def LeavesNumber (l : Lexer) (text rest : List UChar) (P : Double → Prop) (exit : Exit)
    (l' : Lexer) : Prop :=
  l.code = text ++ rest ∧
    if isIdentStart (codeUnit rest) = true then exit = .returnError
    else ∃ d, exit = .done .number (some (.doubleValue d)) ∧ P d ∧ Scans l text l' ∧ l'.buffer8 = []

section LeavesNumber

variable {l l₁ l' : Lexer} {text more rest : List UChar} {P P' : Double → Prop} {exit : Exit}

theorem LeavesNumber.imp (h : LeavesNumber l text rest P exit l')
    (hp : isIdentStart (codeUnit rest) = false → ∀ d, P d → P' d) :
    LeavesNumber l text rest P' exit l' := by
  obtain ⟨hcode, h⟩ := h
  refine ⟨hcode, ?_⟩
  by_cases hstart : isIdentStart (codeUnit rest) = true
  · rw [if_pos hstart] at h ⊢
    exact h
  · rw [if_neg hstart] at h ⊢
    obtain ⟨d, hexit, hd, h⟩ := h
    exact ⟨d, hexit, hp (Bool.eq_false_iff.mpr hstart) d hd, h⟩

/-- What was read before the rest of a number. -/
theorem LeavesNumber.after (h₁ : Scans l text l₁) (h : LeavesNumber l₁ more rest P exit l') :
    LeavesNumber l (text ++ more) rest P exit l' := by
  obtain ⟨hcode, h⟩ := h
  refine ⟨by rw [h₁.code, hcode, List.append_assoc], ?_⟩
  by_cases hstart : isIdentStart (codeUnit rest) = true
  · rw [if_pos hstart] at h ⊢
    exact h
  · rw [if_neg hstart] at h ⊢
    obtain ⟨d, hexit, hd, h₂, hbuffer⟩ := h
    exact ⟨d, hexit, hd, h₁.trans h₂, hbuffer⟩

/-- What `endNumber` does. -/
theorem endNumber_leaves (d : Double) (hv : l.Valid) :
    Yields (endNumber d) l fun exit l' => LeavesNumber l [] l.code (· = d) exit l' := by
  simp only [endNumber, yields_bind, yields_getCurrent, yields_ite, yields_clearBuffer8]
  split
  case isTrue h =>
    rw [← hv.codeUnit_eq] at h
    exact (yields_pure _).mpr ⟨rfl, by rw [if_pos h]⟩
  case isFalse h =>
    rw [← hv.codeUnit_eq] at h
    refine (yields_pure _).mpr ⟨rfl, ?_⟩
    rw [if_neg h]
    exact ⟨d, rfl, rfl, (Takes.refl hv).scans.buffers _ _, rfl⟩

/-- An error instead of a number, in front of an `e`. -/
theorem LeavesNumber.error (hv : l.Valid) (he : orBit20 l.current = chr 'e') :
    LeavesNumber l [] l.code P .returnError l' := by
  rw [← hv.codeUnit_eq] at he
  exact ⟨rfl, by rw [if_pos (isIdentStart_e he)]⟩

end LeavesNumber

/-- What `finishNumber` reads when `text` is the number so far. -/
theorem finishNumber_reads [Platform] {text : List UChar} {l : Lexer} (hv : l.Valid)
    (hbuffer : l.buffer8 = lowerExponent text) :
    Yields finishNumber l fun exit l' => ∃ exponent rest, ExponentText exponent ∧
      LongestExponent exponent rest ∧ LeavesNumber l exponent rest
        (· = Platform.strtod (lowerExponent (text ++ exponent))) exit l' := by
  have hend : ∀ {exponent : List UChar} {l₁ : Lexer}, Scans l exponent l₁ →
      ExponentText exponent → LongestExponent exponent l₁.code →
      l₁.buffer8 = lowerExponent (text ++ exponent) →
      Yields (endNumber (Platform.strtod l₁.buffer8)) l₁ fun exit l' => ∃ exponent rest,
        ExponentText exponent ∧ LongestExponent exponent rest ∧ LeavesNumber l exponent rest
          (· = Platform.strtod (lowerExponent (text ++ exponent))) exit l' := by
    intro exponent l₁ h₁ hexp hlongest hbuffer
    refine (endNumber_leaves _ h₁.valid).mono fun exit l' h => ⟨exponent, _, hexp, hlongest, ?_⟩
    rw [hbuffer] at h
    have h := h.after h₁
    rwa [List.append_nil] at h
  simp only [finishNumber, yields_bind, yields_getCurrent, yields_ite, yields_get]
  split
  case isFalse he =>
    rw [← hv.codeUnit_eq] at he
    exact hend (Takes.refl hv).scans .none (.none he) (by rw [hbuffer, List.append_nil])
  case isTrue he =>
    refine (parseNumberAfterExponentIndicator_reads hv he).mono fun ok l₁ h => ?_
    cases ok with
    | false => exact (yields_pure _).mpr ⟨[], l.code, .none, h, .error hv he⟩
    | true =>
        obtain ⟨exponent, h₁, hexp, hlongest, hbuffer₁⟩ := h
        exact hend h₁ hexp hlongest (by rw [hbuffer₁, hbuffer, lowerExponent_append])

/-- What is read after the decimal point, `whole` being the digits before it. -/
theorem inNumberAfterDecimalPoint_reads [Platform] (whole : List UChar) {l : Lexer}
    (hv : l.Valid) (hw : Digits whole) (hbuffer : l.buffer8 = charsOf whole) :
    Yields inNumberAfterDecimalPoint l fun exit l' => ∃ fraction exponent rest,
      Digits fraction ∧ (isASCIIDigit l.current = true → fraction ≠ []) ∧
        ExponentText exponent ∧ LongestDecimal
          (whole ++ identifierOfChars ['.'] ++ fraction ++ exponent) rest ∧
          LeavesNumber l (fraction ++ exponent) rest (· = Platform.strtod
            (lowerExponent (whole ++ identifierOfChars ['.'] ++ fraction ++ exponent))) exit l' := by
  simp only [inNumberAfterDecimalPoint, parseNumberAfterDecimalPoint, yields_bind, yields_record8]
  intro _ _
  let l₁ : Lexer := { l with buffer8 := l.buffer8 ++ ['.'] }
  have h₁ : Scans l [] l₁ := (Takes.refl hv).scans.buffers (l.buffer8 ++ ['.']) l.buffer16
  refine (recordWhile_scans (l := l₁) hv).mono ?_
  rintro _ l₂ ⟨fraction, h₂, hd, hbuffer₂, -, hend⟩
  have hbuffer₂ : l₂.buffer8 = lowerExponent (whole ++ identifierOfChars ['.'] ++ fraction) := by
    rw [lowerExponent_append, lowerExponent_append, Digits.lowerExponent hd,
      Digits.lowerExponent hw, hbuffer₂, ← hbuffer]
    rfl
  refine (finishNumber_reads h₂.valid hbuffer₂).mono ?_
  rintro exit l' ⟨exponent, rest, hexp, hlongest, h⟩
  have hdigit : isASCIIDigit (codeUnit (exponent ++ rest)) = false := by
    rw [← h.1, h₂.valid.codeUnit_eq, hend]
  exact ⟨fraction, exponent, rest, hd, fun h => h₂.ne_nil hv h hend, hexp,
    .point hw hd hdigit hlongest, h.after (h₁.trans h₂)⟩

/-- Digits alone denote a whole number. -/
theorem decimalValue_digits {digits : List UChar} (h : Digits digits) :
    decimalValue (HammerJS.lowerExponent digits) = digitsValue 10 (charsOf digits) := by
  have hall : ∀ n < 256, isASCIIDigit (n : Nat) = true →
      Char.ofNat n ≠ '.' ∧ Char.ofNat n ≠ 'e' := by decide +kernel
  have hchars : ∀ c ∈ charsOf digits, c ≠ '.' ∧ c ≠ 'e' := by
    intro c hc
    obtain ⟨u, hu, rfl⟩ := List.mem_map.mp hc
    have hrange := (digit_range (h u hu)).2
    exact hall _ (by omega) (h u hu)
  have hwhole : (charsOf digits).takeWhile (fun c => c != '.' && c != 'e') = charsOf digits :=
    List.takeWhile_eq_self_iff.mpr fun c hc => by simp [hchars c hc]
  have hmantissa : (charsOf digits).takeWhile (· != 'e') = charsOf digits :=
    List.takeWhile_eq_self_iff.mpr fun c hc => by simp [hchars c hc]
  have hrest : (charsOf digits).drop ((charsOf digits).length + 1) = [] :=
    List.drop_eq_nil_of_le (by omega)
  rw [Digits.lowerExponent h, decimalValue]
  simp [hwhole, hmantissa, hrest, exponentValue]

example : decimalValue ['4', '2'] = digitsValue 10 ['4', '2'] := by decide +kernel

/-- The value of a decimal number, the digits `text` of which were in `m_buffer8` already:
the accumulator, for few digits and nothing else, or the conversion. -/
def DecimalScan [Platform] (text more : List UChar) (d : Double) : Prop :=
  text = [] ∧ Digits more ∧ more.length ≤ 9 ∧ d = .finite (digitsValue 10 (charsOf more)) ∨
    (text = [] → Digits more → 9 < more.length) ∧
      d = Platform.strtod (lowerExponent (text ++ more))

theorem not_digits_append {digits more : List UChar} {c : UChar}
    (h : isASCIIDigit c.toNat = false) : ¬ Digits (digits ++ c :: more) := by
  intro hd
  rw [hd c (by simp)] at h
  cases h

/-- What case `CharacterNumber` reads, `text` being the digits that are in `m_buffer8` already. -/
theorem lexNumber_reads [Platform] (text : List UChar) {l : Lexer} (hv : l.Valid)
    (hd : Digits text) (hbuffer : l.buffer8 = charsOf text)
    (hc : text = [] → isASCIIDigit l.current = true) :
    Yields lexNumber l fun exit l' => ∃ more rest, DecimalText (text ++ more) ∧
      LongestDecimal (text ++ more) rest ∧ (isASCIIDigit l.current = true → more ≠ []) ∧
        LeavesNumber l more rest (DecimalScan text more) exit l' := by
  have hnil : l.buffer8 = [] ↔ text = [] := by rw [hbuffer]; simp [charsOf]
  simp only [lexNumber, yields_bind]
  refine (parseDecimal_scans hv fun h => hc (hnil.mp h)).mono ?_
  rintro r l₁ ⟨digits, h₁, hdigits, hne, hend, hsome, hnone⟩
  have hwhole : Digits (text ++ digits) := by
    intro d hmem
    rcases List.mem_append.mp hmem with hmem | hmem
    · exact hd d hmem
    · exact hdigits d hmem
  have hwne : text ++ digits ≠ [] := by
    intro h
    obtain ⟨htext, hdigits⟩ := List.append_eq_nil_iff.mp h
    exact hne (hc htext) hdigits
  cases r with
  | none =>
    obtain ⟨hbuffer₁, hlong⟩ := hnone rfl
    have hbuffer₁ : l₁.buffer8 = charsOf (text ++ digits) := by
      rw [hbuffer₁, hbuffer, charsOf_append]
    simp only [yields_bind, yields_getCurrent, yields_ite, yields_shift]
    split
    case isTrue hpoint =>
      intro _
      have hp := h₁.valid.shift_chr hpoint
      refine (inNumberAfterDecimalPoint_reads _ hp.valid hwhole
        (by rw [hp.buffer8, hbuffer₁])).mono ?_
      rintro exit l' ⟨fraction, exponent, rest, hf, -, hexp, hlongest, h⟩
      refine ⟨digits ++ identifierOfChars ['.'] ++ (fraction ++ exponent), rest, ?_, ?_,
        fun h => by simp [hne h], ?_⟩
      · have := DecimalText.point hwhole hf (fun h => hwne (List.append_eq_nil_iff.mp h).1) hexp
        simpa using this
      · simpa using hlongest
      · refine (h.after (h₁.trans hp.scans)).imp fun _ d hvalue => Or.inr ⟨fun _ hall => ?_, ?_⟩
        · rw [List.append_assoc] at hall
          exact absurd hall (not_digits_append (by decide))
        · simp [hvalue]
    case isFalse hpoint =>
      refine (finishNumber_reads h₁.valid
        (by rw [hbuffer₁, Digits.lowerExponent hwhole])).mono ?_
      rintro exit l' ⟨exponent, rest, hexp, hlongest, h⟩
      have hcurrent : codeUnit (exponent ++ rest) = l₁.current := by
        rw [← h.1, h₁.valid.codeUnit_eq]
      refine ⟨digits ++ exponent, rest, ?_, ?_, fun h => by simp [hne h], ?_⟩
      · rw [← List.append_assoc]
        exact .whole hwhole hwne hexp
      · rw [← List.append_assoc]
        exact .whole hwhole (hcurrent ▸ hend) (hcurrent ▸ hpoint) hlongest
      · refine (h.after h₁).imp fun hstart d hvalue => Or.inr ⟨fun htext hall => ?_, ?_⟩
        · -- an `e` behind few digits is read as an exponent
          rcases hlong (hnil.mpr htext) with hlen | hpoint' | he
          · rw [List.length_append]
            omega
          · exact absurd hpoint' hpoint
          · rw [← hcurrent] at he
            cases hexp with
            | none =>
                rw [List.nil_append] at he
                exact absurd hstart (by simp [isIdentStart_e he])
            | some he' _ _ _ => exact absurd hall (not_digits_append (isASCIIDigit_e he').1)
        · simp [hvalue]
  | some d =>
    obtain ⟨hempty, hlen, hpoint, he, rfl⟩ := hsome d rfl
    have htext := hnil.mp hempty
    subst htext
    rw [← h₁.valid.codeUnit_eq] at hend hpoint he
    refine (endNumber_leaves _ h₁.valid).mono fun exit l' h => ?_
    have h := h.after h₁
    rw [List.append_nil] at h
    refine ⟨digits, l₁.code, ?_, ?_, fun _ => hne (hc rfl), h.imp fun _ => ?_⟩
    · have := DecimalText.whole hdigits (hne (hc rfl)) .none
      simpa using this
    · have := @LongestDecimal.whole digits [] _ hdigits hend hpoint (.none he)
      simpa using this
    · rintro d rfl
      exact Or.inl ⟨rfl, hdigits, hlen, rfl⟩

/-- The digits that are few enough for the array fit into the accumulator. -/
theorem Digits.fits {digits : List UChar} (h : Digits digits) (hlen : digits.length ≤ 9) :
    Fits 10 digits :=
  fits_of_length (fun d hd => (digit_value (h d hd)).2) (by decide) (by decide) hlen

/-- What a scanned literal denotes. -/
theorem numberText_of_scan [Platform] {text : List UChar} {d : Double} (h : NumberScan text d) :
    ∃ q, NumberText text q d := by
  have hnotOctal : ∀ {text : List UChar}, ¬ OctalWhole text →
      ¬ ∃ digits, text = identifierOfChars ['0'] ++ digits ∧ OctalDigits digits ∧ digits ≠ [] := by
    rintro text hwhole ⟨digits, rfl, hd, hne⟩
    exact hwhole ⟨digits, List.takeWhile_eq_self_iff.mpr hd.zero, hd, hne⟩
  cases h with
  | hexFast hx hd hne hlen hfits => exact ⟨_, .hex hx hd hne (Or.inl rfl)⟩
  | hexSlow hx hd hlen hbuffer =>
      exact ⟨_, .hex hx hd (List.ne_nil_of_length_pos (by omega)) (Or.inr ⟨_, hbuffer, rfl⟩)⟩
  | octalFast hd hne hlen hfits => exact ⟨_, .octal hd hne (Or.inl rfl)⟩
  | octalSlow hd hlen =>
      exact ⟨_, .octal hd (List.ne_nil_of_length_pos (by omega)) (Or.inr rfl)⟩
  | decimalFast hd hne hzero hlen hfits =>
      have htext := DecimalText.whole hd hne .none
      rw [List.append_nil] at htext
      refine ⟨_, .decimal htext ?_ (Or.inl (by rw [decimalValue_digits hd]))⟩
      rintro ⟨digits, rfl, -⟩
      exact hzero rfl
  | decimalSlow h hoctal hslow => exact ⟨_, .decimal h (hnotOctal hoctal) (Or.inr rfl)⟩

/-- From `l` on, the longest numeric literal is read, and left as it has to be. -/
def ReadsNumber [Platform] (l : Lexer) (exit : Exit) (l' : Lexer) : Prop :=
  ∃ text rest, LongestNumber text rest ∧ LeavesNumber l text rest (NumberScan text) exit l'

/-- What case `CharacterZero` reads. -/
theorem lexZero_reads [Platform] {l : Lexer} (hv : l.Valid) (hbuffer : l.buffer8 = [])
    (hzero : l.current = chr '0') : Yields lexZero l fun exit l' => ReadsNumber l exit l' := by
  simp only [lexZero, yields_bind, yields_shift, yields_getCurrent, yields_peek, yields_ite,
    yields_record8]
  intro _
  have h₁ := hv.shift_chr hzero
  split
  case isTrue hhex =>
    have hne : l.advance.current ≠ -1 := by
      intro h
      rw [h] at hhex
      exact absurd hhex.1 (by decide)
    refine (parseHex_scans h₁.valid (by rw [h₁.buffer8, hbuffer]) hne).mono ?_
    rintro d l₂ ⟨x, digits, hx, h₂, hd, hdne, hend, hvalue⟩
    have hx : orBit20 x.toNat = chr 'x' := hx ▸ hhex.1
    rw [← h₂.valid.codeUnit_eq] at hend
    refine (endNumber_leaves _ h₂.valid).mono fun exit l' h => ?_
    have h := h.after (h₁.scans.trans h₂)
    rw [List.append_nil] at h
    refine ⟨_, _, .hex hx hd hdne hend, h.imp fun _ => ?_⟩
    rintro d rfl
    rcases hvalue with ⟨hlen, rfl⟩ | ⟨hlen, buffer, hlower, rfl⟩
    · exact .hexFast hx hd hdne hlen
        (fits_of_length (fun d h => hexDigit_value (hd d h)) (by decide) (by decide) hlen)
    · exact .hexSlow hx hd hlen hlower
  case isFalse hhex =>
  intro _ _
  let l₂ : Lexer := { l.advance with buffer8 := l.advance.buffer8 ++ ['0'] }
  have h₂ : Scans l (identifierOfChars ['0']) l₂ := h₁.scans.buffers _ _
  have hbuffer₂ : l₂.buffer8 = ['0'] := by simp [l₂, advance, hbuffer]
  -- no digit stands behind an `x`
  have hhex : ∀ x digits, orBit20 (UInt16.toNat x) = chr 'x' → HexDigits digits → digits ≠ [] →
      ¬ identifierOfChars ['0'] ++ x :: digits <+: l.code := by
    intro x digits hx hd hne hp
    obtain ⟨d, digits, rfl⟩ := List.exists_cons_of_ne_nil hne
    rw [h₁.code, List.prefix_append_right_inj] at hp
    obtain ⟨tail, htail⟩ := hp
    refine hhex ⟨?_, ?_⟩
    · rw [← h₁.valid.codeUnit_eq, ← htail]
      exact hx
    · rw [← htail]
      exact hd d (List.mem_cons_self ..)
  -- the digits that are a number in base ten
  have hdecimal : ∀ {digits : List UChar} {l₃ : Lexer}, Scans l₂ digits l₃ → OctalDigits digits →
      l₃.buffer8 = '0' :: charsOf digits → isASCIIOctalDigit l₃.current = false →
      (digits ≠ [] → isASCIIDigit l₃.current = true) →
      Yields lexNumber l₃ fun exit l' => ReadsNumber l exit l' := by
    intro digits l₃ h₃ hd hbuffer₃ hoctal hdigit
    refine (lexNumber_reads _ h₃.valid hd.zero hbuffer₃ (by simp [identifierOfChars])).mono ?_
    rintro exit l' ⟨more, rest, htext, hlongest, hmore, h⟩
    have hcurrent : l₃.current = codeUnit (more ++ rest) := by rw [← h.1, h₃.valid.codeUnit_eq]
    have hwhole : ¬ OctalWhole (identifierOfChars ['0'] ++ digits ++ more) := by
      rintro ⟨octals, heq, hoctals, hne⟩
      rw [List.takeWhile_append_of_pos hd.zero, List.append_assoc] at heq
      have heq : digits ++ _ = octals := List.append_cancel_left heq
      cases more with
      | nil =>
          rw [List.takeWhile_nil, List.append_nil] at heq
          exact hmore (hdigit (heq ▸ hne)) rfl
      | cons c more =>
          rw [show codeUnit (c :: more ++ rest) = c.toNat from rfl] at hcurrent
          rw [hcurrent] at hoctal hdigit
          by_cases hc : isASCIIDigit c.toNat = true
          · simp only [List.takeWhile_cons, hc, if_true] at heq
            rw [hoctals c (by simp [← heq])] at hoctal
            cases hoctal
          · simp only [List.takeWhile_cons, hc, Bool.false_eq_true, if_false,
              List.append_nil] at heq
            exact hc (hdigit (heq ▸ hne))
    have h := h.after (h₂.trans h₃)
    refine ⟨_, rest, .decimal htext hwhole hlongest (h.1 ▸ hhex), h.imp fun _ d hvalue => ?_⟩
    rcases hvalue with ⟨hnil, -⟩ | ⟨-, rfl⟩
    · simp [identifierOfChars] at hnil
    · exact .decimalSlow htext hwhole fun _ hzero => absurd rfl hzero
  split
  case isTrue hoctal =>
    refine (parseOctal_scans (l := l₂) h₂.valid hbuffer₂ hoctal).mono ?_
    rintro (_ | d) l₃ ⟨digits, h₃, hd, hne, hend, hsome, hnone⟩
    · obtain ⟨hbuffer₃, hdigit⟩ := hnone rfl
      exact hdecimal h₃ hd hbuffer₃ hend fun _ => hdigit
    · obtain ⟨hdigit, hvalue⟩ := hsome d rfl
      rw [← h₃.valid.codeUnit_eq] at hdigit
      refine (endNumber_leaves _ h₃.valid).mono fun exit l' h => ?_
      have h := h.after (h₂.trans h₃)
      rw [List.append_nil] at h
      refine ⟨_, _, .octal hd hne hdigit, h.imp fun _ => ?_⟩
      rintro d rfl
      rcases hvalue with ⟨hlen, rfl⟩ | ⟨hlen, rfl⟩
      · exact .octalFast hd hne hlen
          (fits_of_length (fun d h => (octalDigit_value (hd d h)).2) (by decide) (by decide) hlen)
      · exact .octalSlow hd hlen
  case isFalse hoctal =>
    exact hdecimal (Takes.refl h₂.valid).scans (by simp [OctalDigits]) hbuffer₂
      (by simpa using hoctal) (by simp)

/-- A literal with another first digit than zero is neither octal nor hexadecimal. -/
theorem first_not_zero {text : List UChar} (h : codeUnit text ≠ chr '0') :
    ¬ OctalWhole text ∧ ∀ more, ¬ identifierOfChars ['0'] ++ more <+: text := by
  have hprefix : ∀ more, ¬ identifierOfChars ['0'] ++ more <+: text :=
    fun more hp => h (codeUnit_of_starts hp)
  refine ⟨?_, hprefix⟩
  rintro ⟨digits, heq, -⟩
  exact hprefix digits (heq ▸ List.takeWhile_prefix _)

/-- What case `CharacterNumber` reads at the start of a token. -/
theorem lexNumber_first_reads [Platform] {l : Lexer} (hv : l.Valid) (hbuffer : l.buffer8 = [])
    (hdigit : isASCIIDigit l.current = true) (hzero : l.current ≠ chr '0') :
    Yields lexNumber l fun exit l' => ReadsNumber l exit l' := by
  refine (lexNumber_reads [] hv (by simp [Digits]) (by rw [hbuffer]; rfl)
    fun _ => hdigit).mono ?_
  rintro exit l' ⟨text, rest, htext, hlongest, hne, h⟩
  rw [List.nil_append] at htext hlongest
  have hfirst : codeUnit text ≠ chr '0' := by
    obtain ⟨c, text, rfl⟩ := List.exists_cons_of_ne_nil (hne hdigit)
    rwa [← hv.codeUnit_eq, h.1] at hzero
  have hwhole := (first_not_zero hfirst).1
  have hhex := (first_not_zero (hv.codeUnit_eq ▸ hzero)).2
  refine ⟨text, rest, .decimal htext hwhole hlongest fun x digits _ _ _ => h.1 ▸ hhex _,
    h.imp fun _ d hvalue => ?_⟩
  rcases hvalue with ⟨-, hd, hlen, rfl⟩ | ⟨hslow, rfl⟩
  · exact .decimalFast hd (hne hdigit) hfirst hlen (Digits.fits hd hlen)
  · exact .decimalSlow htext hwhole fun hd _ => hslow rfl hd

/-- What case `CharacterDot` reads. -/
theorem lexDot_reads [Platform] {l : Lexer} (hv : l.Valid) (hbuffer : l.buffer8 = [])
    (hdot : l.current = chr '.') :
    Yields lexDot l fun exit l' =>
      if isASCIIDigit (codeUnit (l.code.drop 1)) = true then ReadsNumber l exit l'
      else exit = .done .dot none ∧ Scans l (identifierOfChars ['.']) l' := by
  simp only [lexDot, yields_bind, yields_shift, yields_getCurrent, yields_ite]
  intro _
  have h₁ := hv.shift_chr hdot
  have hcurrent : l.advance.current = codeUnit (l.code.drop 1) := by
    rw [← h₁.valid.codeUnit_eq, h₁.code]
    rfl
  rw [hcurrent]
  by_cases hdigit : isASCIIDigit (codeUnit (l.code.drop 1)) = true
  · rw [if_neg (by rw [hdigit]; decide)]
    simp only [if_pos hdigit]
    refine (inNumberAfterDecimalPoint_reads [] h₁.valid (by simp [Digits])
      (by rw [h₁.buffer8, hbuffer]; rfl)).mono ?_
    rintro exit l' ⟨fraction, exponent, rest, hf, hne, hexp, hlongest, h⟩
    have htext := @DecimalText.point [] _ _ (by simp [Digits]) hf
      (by simpa using hne (hcurrent ▸ hdigit)) hexp
    have h := h.after h₁.scans
    rw [List.nil_append] at htext hlongest
    rw [← List.append_assoc] at h
    have hfirst : codeUnit (identifierOfChars ['.'] ++ fraction ++ exponent) ≠ chr '0' := by
      show chr '.' ≠ chr '0'
      decide
    have hwhole := (first_not_zero hfirst).1
    refine ⟨_, rest, .decimal htext hwhole hlongest fun x digits _ _ _ hp => ?_,
      h.imp fun _ d hvalue => ?_⟩
    · exact absurd (show chr '.' = chr '0' from codeUnit_of_starts hp) (by decide)
    · rw [hvalue]
      refine .decimalSlow htext hwhole fun hd => ?_
      exact absurd (hd '.'.toNat.toUInt16 (by simp [identifierOfChars])) (by decide)
  · rw [if_pos (by rw [Bool.eq_false_iff.mpr hdigit]; rfl)]
    simp only [if_neg hdigit]
    exact (yields_pure _).mpr ⟨rfl, h₁.scans⟩

end Lexer

end HammerJS
