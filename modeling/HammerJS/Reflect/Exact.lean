import Mathlib.Algebra.Order.Field.Rat
import HammerJS.Reflect.Token
import Mathlib.Data.List.Induction
import Mathlib.Tactic.Ring

/-!
# Conversions that do not round

The number that a row of digits denotes, and the `Platform` whose conversions return
exactly that number.

* `digitsValue`, `decimalValue` — a whole number in some radix, and a decimal with
  a fraction and an exponent.
* `exactPlatform` — the platform that runs of the model on given sources use.
-/

namespace HammerJS

/-- The value of one digit. -/
def digitValue (c : Char) : Nat :=
  if c.toNat ≤ '9'.toNat then c.toNat - '0'.toNat else (c.toNat ||| 0x20) - 'a'.toNat + 10

/-- The whole number that some digits denote. -/
def digitsValue (radix : Nat) (digits : List Char) : Nat :=
  digits.foldl (fun value c => value * radix + digitValue c) 0

@[simp] theorem digitsValue_nil (radix : Nat) : digitsValue radix [] = 0 := rfl

theorem digitsValue_single (radix : Nat) (c : Char) : digitsValue radix [c] = digitValue c := by
  simp [digitsValue]

theorem digitsValue_concat (radix : Nat) (digits : List Char) (c : Char) :
    digitsValue radix (digits ++ [c]) = digitsValue radix digits * radix + digitValue c := by
  simp [digitsValue]

theorem digitsValue_append (radix : Nat) (digits digits' : List Char) :
    digitsValue radix (digits ++ digits') =
      digitsValue radix digits * radix ^ digits'.length + digitsValue radix digits' := by
  induction digits' using List.reverseRecOn with
  | nil => simp
  | append_singleton digits' c ih =>
      rw [← List.append_assoc, digitsValue_concat, digitsValue_concat, ih, List.length_append,
        List.length_singleton]
      ring

/-- Digits denote a number below the next power of the radix. -/
theorem digitsValue_lt {radix : Nat} {digits : List Char}
    (h : ∀ c ∈ digits, digitValue c < radix) :
    digitsValue radix digits < radix ^ digits.length := by
  induction digits using List.reverseRecOn with
  | nil => simp
  | append_singleton digits c ih =>
      rw [digitsValue_concat, List.length_append, List.length_singleton, pow_succ]
      have hc := h c (by simp)
      have hdigits := ih fun d hd => h d (by simp [hd])
      have := Nat.mul_le_mul_right radix (Nat.succ_le_of_lt hdigits)
      rw [Nat.succ_mul] at this
      omega

/-- The exponent that a sign and some digits denote. -/
def exponentValue : List Char → ℤ
  | '-' :: digits => -(digitsValue 10 digits : ℤ)
  | '+' :: digits => digitsValue 10 digits
  | digits => digitsValue 10 digits

/-- The number that a decimal literal denotes: digits, a point and more digits, and
an exponent after an `e`. -/
def decimalValue (text : List Char) : ℚ :=
  let whole := text.takeWhile fun c => c != '.' && c != 'e'
  let mantissa := text.takeWhile (· != 'e')
  let fraction := mantissa.drop (whole.length + 1)
  let exponent := exponentValue (text.drop (mantissa.length + 1))
  digitsValue 10 (whole ++ fraction) * (10 : ℚ) ^ (exponent - fraction.length)

/-- The conversions, without rounding; what is out of the range of `int` becomes its
least value. -/
@[reducible] def exactPlatform : Platform where
  strtod text := .finite (decimalValue text)
  parseIntOverflow digits radix := .finite (digitsValue radix digits)
  numberToString
    | .finite q => (Nat.toDigits 10 q.num.natAbs).map fun c => c.toNat.toUInt16
    | .infinity => []
  narrow _ := -2 ^ 31

example : decimalValue ['1', '2', '.', '5', 'e', '-', '1'] = 5 / 4 := by decide +kernel

end HammerJS
