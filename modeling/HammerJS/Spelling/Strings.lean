import HammerJS.Reflect.LexerSafety
import HammerJS.Spelling.Texts

/-!
# What a string denotes

The characters of a string denote one text only: the first character behind a
backslash says which escape it is, and how far it goes.

* `EscapeOf` — the escapes by their first character.
* `Escape.unique`, `StringChars.unique` — what is denoted is determined.
-/

namespace HammerJS

open Lexer

/-! ## Escapes by their first character -/

/-- The escape that starts with `c` and goes on with `tail`. -/
def EscapeOf (quote c : UChar) (tail value rest : List UChar) : Prop :=
  if singleEscape c.toNat ≠ 0 then
    tail = [] ∧ value = [(singleEscape c.toNat).toNat.toUInt16]
  else if isLineTerminator c.toNat = true then LineEnd (c :: tail) ∧ value = []
  else if (c.toNat : Int) = chr 'x' then
    HexDigits tail ∧ tail.length = 2 ∧ value = [hexUnit tail] ∨
      tail = [] ∧ value = [c] ∧ ¬ (HexDigits (rest.take 2) ∧ 2 ≤ rest.length)
  else if (c.toNat : Int) = chr 'u' then
    HexDigits tail ∧ tail.length = 4 ∧ value = [hexUnit tail] ∨
      tail = [] ∧ value = [c] ∧ rest.head? = some quote
  else if isASCIIOctalDigit c.toNat = true then
    OctalDigits (c :: tail) ∧ tail.length ≤ 2 ∧ digitsValue 8 (charsOf (c :: tail)) ≤ 255 ∧
      value = [octalUnit (c :: tail)] ∧
        ∀ d, rest.head? = some d → tail.length = 2 ∨ isASCIIOctalDigit d.toNat = false ∨
          255 < digitsValue 8 (charsOf (c :: tail ++ [d]))
  else tail = [] ∧ value = [c]

theorem singleEscape_of_line {c : UChar} (h : isLineTerminator c.toNat = true) :
    singleEscape c.toNat = 0 := by
  simp only [isLineTerminator, Bool.or_eq_true, beq_iff_eq] at h
  rcases h with ((h | h) | h) | h <;> rw [h] <;> decide

/-- An octal digit starts no escape of another kind. -/
theorem octalDigit_kind {c : UChar} (h : isASCIIOctalDigit c.toNat = true) :
    singleEscape c.toNat = 0 ∧ isLineTerminator c.toNat = false ∧
      (c.toNat : Int) ≠ chr 'x' ∧ (c.toNat : Int) ≠ chr 'u' := by
  have hall : ∀ n < 256, isASCIIOctalDigit (n : Nat) = true → singleEscape (n : Nat) = 0 ∧
      isLineTerminator (n : Nat) = false ∧ ((n : Nat) : Int) ≠ chr 'x' ∧
        ((n : Nat) : Int) ≠ chr 'u' := by decide +kernel
  have hrange := (octalDigit_range h).2
  exact hall c.toNat (by omega) h

theorem Escape.by_first {quote : UChar} {escape value rest : List UChar}
    (h : Escape quote escape value rest) :
    ∃ c tail, escape = c :: tail ∧ EscapeOf quote c tail value rest := by
  cases h with
  | @single c rest hc => exact ⟨c, [], rfl, by rw [EscapeOf, if_pos hc]; exact ⟨rfl, rfl⟩⟩
  | continuation he =>
      cases escape with
      | nil => exact absurd rfl he.ne_nil
      | cons c tail =>
          have hline := he.isLineTerminator c (List.mem_cons_self ..)
          refine ⟨c, tail, rfl, ?_⟩
          rw [EscapeOf, if_neg (not_not.mpr (singleEscape_of_line hline)), if_pos hline]
          exact ⟨he, rfl⟩
  | @hex digits rest hd hlen => exact ⟨_, digits, rfl, Or.inl ⟨hd, hlen, rfl⟩⟩
  | noHex h => exact ⟨_, [], rfl, Or.inr ⟨rfl, rfl, h⟩⟩
  | @unicode digits rest hd hlen => exact ⟨_, digits, rfl, Or.inl ⟨hd, hlen, rfl⟩⟩
  | noUnicode => exact ⟨_, [], rfl, Or.inr ⟨rfl, rfl, rfl⟩⟩
  | octal hd hne hlen hvalue hmax =>
      cases escape with
      | nil => exact absurd rfl hne
      | cons c tail =>
          have hoctal := hd c (List.mem_cons_self ..)
          obtain ⟨hsingle, hline, hx, hu⟩ := octalDigit_kind hoctal
          refine ⟨c, tail, rfl, ?_⟩
          rw [EscapeOf, if_neg (not_not.mpr hsingle), if_neg (by simp [hline]), if_neg hx,
            if_neg hu, if_pos hoctal]
          refine ⟨hd, Nat.le_of_lt_succ hlen, hvalue, rfl, fun d hd => ?_⟩
          simpa using hmax d hd
  | @plain c rest hc =>
      obtain ⟨hsingle, hline, hx, hu, hoctal⟩ := hc
      refine ⟨c, [], rfl, ?_⟩
      rw [EscapeOf, if_neg (not_not.mpr hsingle), if_neg (by simp [hline]), if_neg hx, if_neg hu,
        if_neg (by simp [hoctal])]
      exact ⟨rfl, rfl⟩

/-! ## One text only -/

/-- What stands behind an escape in a string: a character of it, or the closing quote. -/
def Follows (rest : List UChar) : Prop :=
  ∀ d, rest.head? = some d → isLineTerminator d.toNat = false

theorem LineEnd.length_le {eol : List UChar} (h : LineEnd eol) : eol.length ≤ 2 := by
  cases h <;> simp [identifierOfChars]

/-- A line terminator is read as far as it goes. -/
theorem LineEnd.unique {c : UChar} {tail tail' rest rest' : List UChar} (h : LineEnd (c :: tail))
    (h' : LineEnd (c :: tail')) (hrest : Follows rest) (hrest' : Follows rest')
    (heq : tail ++ rest = tail' ++ rest') : tail = tail' := by
  have hlen := h.length_le
  have hlen' := h'.length_le
  have hline := h.isLineTerminator
  have hline' := h'.isLineTerminator
  cases tail with
  | nil =>
      cases tail' with
      | nil => rfl
      | cons d more' =>
          have hd := hrest d (by rw [List.nil_append] at heq; rw [heq]; rfl)
          rw [hline' d (by simp)] at hd
          cases hd
  | cons d more =>
      have hmore : more = [] := List.eq_nil_of_length_eq_zero (by simpa using hlen)
      cases tail' with
      | nil =>
          have hd := hrest' d (by rw [List.nil_append] at heq; rw [← heq]; rfl)
          rw [hline d (by simp)] at hd
          cases hd
      | cons d' more' =>
          have hmore' : more' = [] := List.eq_nil_of_length_eq_zero (by simpa using hlen')
          rw [hmore, hmore', (List.cons.inj heq).1]

/-- Octal digits are read as far as they make a character. -/
theorem octal_longest {c : UChar} {tail tail' rest rest' : List UChar}
    (hmax : ∀ d, rest.head? = some d → tail.length = 2 ∨ isASCIIOctalDigit d.toNat = false ∨
      255 < digitsValue 8 (charsOf (c :: tail ++ [d])))
    (hd : OctalDigits (c :: tail')) (hlen : tail'.length ≤ 2)
    (hvalue : digitsValue 8 (charsOf (c :: tail')) ≤ 255) (heq : tail ++ rest = tail' ++ rest') :
    tail'.length ≤ tail.length := by
  by_contra hlt
  -- the digit behind the shorter escape belongs to the longer one
  obtain ⟨d, more, rfl⟩ : ∃ d more, tail' = tail ++ d :: more := by
    obtain ⟨more, hmore⟩ := List.prefix_of_prefix_length_le (heq ▸ List.prefix_append tail rest)
      (List.prefix_append tail' rest') (by omega)
    cases more with
    | nil => exact absurd (congrArg List.length hmore) (by simp; omega)
    | cons d more => exact ⟨d, more, hmore.symm⟩
  rw [List.append_assoc, List.append_cancel_left_eq] at heq
  rcases hmax d (by rw [heq]; rfl) with hlong | hdigit | hlarge
  · simp only [List.length_append, List.length_cons] at hlen
    omega
  · rw [hd d (by simp)] at hdigit
    cases hdigit
  · have hsplit : charsOf (c :: (tail ++ d :: more)) =
        charsOf (c :: tail ++ [d]) ++ charsOf more := by simp [charsOf]
    rw [hsplit, digitsValue_append] at hvalue
    have := Nat.le_mul_of_pos_right (digitsValue 8 (charsOf (c :: tail ++ [d])))
      (Nat.pow_pos (n := (charsOf more).length) (show 0 < 8 by decide))
    omega

/-- An escape of `n` hexadecimal digits, or a letter that stands for itself where there are
none. -/
theorem hexEscape_unique {n : Nat} {tail tail' value value' letter rest rest' : List UChar}
    (alone : List UChar → Prop)
    (halone : ∀ rest, HexDigits (rest.take n) ∧ n ≤ rest.length → ¬ alone rest)
    (h : HexDigits tail ∧ tail.length = n ∧ value = [hexUnit tail] ∨
      tail = [] ∧ value = letter ∧ alone rest)
    (h' : HexDigits tail' ∧ tail'.length = n ∧ value' = [hexUnit tail'] ∨
      tail' = [] ∧ value' = letter ∧ alone rest')
    (heq : tail ++ rest = tail' ++ rest') : tail = tail' ∧ value = value' := by
  have hdigits : ∀ {digits more : List UChar}, HexDigits digits → digits.length = n →
      HexDigits ((digits ++ more).take n) ∧ n ≤ (digits ++ more).length := by
    rintro digits more hd rfl
    rw [List.take_left]
    exact ⟨hd, by simp⟩
  rcases h with ⟨hd, hlen, rfl⟩ | ⟨rfl, rfl, hrest⟩ <;>
    rcases h' with ⟨hd', hlen', rfl⟩ | ⟨rfl, rfl, hrest'⟩
  · have htail := (List.append_inj heq (hlen.trans hlen'.symm)).1
    exact ⟨htail, by rw [htail]⟩
  · rw [List.nil_append] at heq
    exact absurd hrest' (halone _ (heq ▸ hdigits hd hlen))
  · rw [List.nil_append] at heq
    exact absurd hrest (halone _ (heq ▸ hdigits hd' hlen'))
  · exact ⟨rfl, rfl⟩

theorem EscapeOf.unique {quote c : UChar} {tail tail' value value' rest rest' : List UChar}
    (hquote : isASCIIHexDigit quote.toNat = false) (h : EscapeOf quote c tail value rest)
    (h' : EscapeOf quote c tail' value' rest') (hrest : Follows rest) (hrest' : Follows rest')
    (heq : tail ++ rest = tail' ++ rest') : tail = tail' ∧ value = value' := by
  unfold EscapeOf at h h'
  split at h
  case isTrue hsingle =>
    rw [if_pos hsingle] at h'
    exact ⟨h.1.trans h'.1.symm, h.2.trans h'.2.symm⟩
  case isFalse hsingle =>
  rw [if_neg hsingle] at h'
  split at h
  case isTrue hline =>
    rw [if_pos hline] at h'
    exact ⟨h.1.unique h'.1 hrest hrest' heq, h.2.trans h'.2.symm⟩
  case isFalse hline =>
  rw [if_neg hline] at h'
  split at h
  case isTrue hx =>
    rw [if_pos hx] at h'
    exact hexEscape_unique (fun rest => ¬ (HexDigits (rest.take 2) ∧ 2 ≤ rest.length))
      (fun _ hdigits hnot => hnot hdigits) h h' heq
  case isFalse hx =>
  rw [if_neg hx] at h'
  split at h
  case isTrue hu =>
    rw [if_pos hu] at h'
    refine hexEscape_unique (fun rest => rest.head? = some quote) (fun rest hdigits hhead => ?_)
      h h' heq
    cases rest with
    | nil => cases hhead
    | cons d rest =>
        cases hhead
        rw [hdigits.1 quote (by simp)] at hquote
        cases hquote
  case isFalse hu =>
  rw [if_neg hu] at h'
  split at h
  case isTrue hoctal =>
    rw [if_pos hoctal] at h'
    obtain ⟨hd, hlen, hle, hv, hmax⟩ := h
    obtain ⟨hd', hlen', hle', hv', hmax'⟩ := h'
    have hlength : tail.length = tail'.length :=
      le_antisymm (octal_longest hmax' hd hlen hle heq.symm) (octal_longest hmax hd' hlen' hle' heq)
    have htail := (List.append_inj heq hlength).1
    exact ⟨htail, by rw [hv, hv', htail]⟩
  case isFalse hoctal =>
    rw [if_neg hoctal] at h'
    exact ⟨h.1.trans h'.1.symm, h.2.trans h'.2.symm⟩

theorem Escape.unique {quote : UChar} {escape escape' value value' rest rest' : List UChar}
    (hquote : isASCIIHexDigit quote.toNat = false) (h : Escape quote escape value rest)
    (h' : Escape quote escape' value' rest') (hrest : Follows rest) (hrest' : Follows rest')
    (heq : escape ++ rest = escape' ++ rest') : escape = escape' ∧ value = value' := by
  obtain ⟨c, tail, rfl, hof⟩ := h.by_first
  obtain ⟨c', tail', rfl, hof'⟩ := h'.by_first
  obtain ⟨rfl, htails⟩ := List.cons.inj heq
  obtain ⟨rfl, hvalue⟩ := hof.unique hquote hof' hrest hrest' htails
  exact ⟨rfl, hvalue⟩

theorem StringChars.follows {quote : UChar} {text value : List UChar}
    (hquote : isLineTerminator quote.toNat = false) (h : StringChars quote text value) :
    Follows (text ++ [quote]) := by
  intro d hd
  cases h with
  | nil => cases hd; exact hquote
  | char _ _ hline _ => cases hd; exact hline
  | escape _ _ => cases hd; rfl

/-- **What a string denotes is determined by its characters.** -/
theorem StringChars.unique {quote : UChar} {text value value' : List UChar}
    (hhex : isASCIIHexDigit quote.toNat = false) (hline : isLineTerminator quote.toNat = false)
    (h : StringChars quote text value) (h' : StringChars quote text value') : value = value' := by
  induction h generalizing value' with
  | nil =>
      generalize htext : ([] : List UChar) = text at h'
      cases h' with
      | nil => rfl
      | char => cases htext
      | escape => cases htext
  | @char c text value hquote hslash hterm h ih =>
      generalize htext : c :: text = text' at h'
      cases h' with
      | nil => cases htext
      | char _ _ _ h' =>
          cases htext
          rw [ih h']
      | escape =>
          obtain ⟨rfl, -⟩ := List.cons.inj htext
          exact absurd rfl hslash
  | @escape escape value text value₁ he h ih =>
      generalize htext : identifierOfChars ['\\'] ++ escape ++ text = text' at h'
      cases h' with
      | nil => cases htext
      | char _ hslash' _ _ =>
          obtain ⟨rfl, -⟩ := List.cons.inj htext
          exact absurd rfl hslash'
      | @escape escape' value' text' value₁' he' h' =>
          rw [List.append_assoc, List.append_assoc, List.append_cancel_left_eq] at htext
          have heq : escape ++ (text ++ [quote]) = escape' ++ (text' ++ [quote]) := by
            rw [← List.append_assoc, ← List.append_assoc, htext]
          obtain ⟨rfl, rfl⟩ := he.unique hhex he' (h.follows hline) (h'.follows hline) heq
          rw [List.append_cancel_left_eq] at htext
          rw [ih (htext ▸ h')]

end HammerJS
