import HammerJS.Reflect.Convert
import HammerJS.Spelling.StringLiterals

/-!
# The characters of a script

What `reflect_parse` makes of the text of a script: its UTF-8 encoding, a unit for each byte.

* `Utf8Encoding` — the encodings that `String::Utf8Value` may yield.
* `Encoded` — every unit beyond ASCII becomes two units at least, all of them far beyond it.
* `Encoded.split` — the units of ASCII stay where they are.
* `StringText.encoded` — a string literal stays one, and grows.
-/

namespace HammerJS

open Lexer

/-! ## UTF-8 -/

/-- The encoding of a code point. -/
def utf8Bytes (n : Nat) : List UInt8 :=
  if n < 0x80 then [UInt8.ofNat n]
  else if n < 0x800 then [UInt8.ofNat (0xC0 + n / 64), UInt8.ofNat (0x80 + n % 64)]
  else if n < 0x10000 then [UInt8.ofNat (0xE0 + n / 4096), UInt8.ofNat (0x80 + n / 64 % 64),
    UInt8.ofNat (0x80 + n % 64)]
  else [UInt8.ofNat (0xF0 + n / 262144), UInt8.ofNat (0x80 + n / 4096 % 64),
    UInt8.ofNat (0x80 + n / 64 % 64), UInt8.ofNat (0x80 + n % 64)]

/-- The first unit of a surrogate pair. -/
def IsHigh (c : UChar) : Prop := 0xD800 ≤ c.toNat ∧ c.toNat < 0xDC00

/-- The second unit of a surrogate pair. -/
def IsLow (c : UChar) : Prop := 0xDC00 ≤ c.toNat ∧ c.toNat < 0xE000

theorem not_surrogate {c : UChar} (hc : c.toNat < 0xD800) : ¬ IsHigh c ∧ ¬ IsLow c := by
  unfold IsHigh IsLow
  omega

/-- The code point of a surrogate pair. -/
def codePoint (hi lo : UChar) : Nat :=
  0x10000 + (hi.toNat - 0xD800) * 0x400 + (lo.toNat - 0xDC00)

/-- The encodings of the units of a string.  A surrogate without its partner has none; what
stands for it are three bytes beyond ASCII, as they are for the replacement character. -/
inductive Utf8Encoding : List UChar → List UInt8 → Prop
  | nil : Utf8Encoding [] []
  | unit {c : UChar} {w : List UChar} {bytes : List UInt8} (hc : ¬ IsHigh c ∧ ¬ IsLow c)
      (h : Utf8Encoding w bytes) : Utf8Encoding (c :: w) (utf8Bytes c.toNat ++ bytes)
  | pair {hi lo : UChar} {w : List UChar} {bytes : List UInt8} (hhi : IsHigh hi) (hlo : IsLow lo)
      (h : Utf8Encoding w bytes) :
      Utf8Encoding (hi :: lo :: w) (utf8Bytes (codePoint hi lo) ++ bytes)
  | lone {c : UChar} {w : List UChar} {bytes stands : List UInt8} (hc : IsHigh c ∨ IsLow c)
      (hlone : IsHigh c → ∀ d ∈ w.head?, ¬ IsLow d) (hlen : stands.length = 3)
      (hbytes : ∀ b ∈ stands, 0x80 ≤ b.toNat) (h : Utf8Encoding w bytes) :
      Utf8Encoding (c :: w) (stands ++ bytes)

/-! ## What the parser is handed -/

/-- The units that are handed to the parser for those of the script. -/
inductive Encoded : List UChar → List UChar → Prop
  | nil : Encoded [] []
  | ascii {c : UChar} {w code : List UChar} (hc : c.toNat < 0x80) (h : Encoded w code) :
      Encoded (c :: w) (c :: code)
  | other {c : UChar} {w us code : List UChar} (hc : 0x80 ≤ c.toNat) (hlen : 2 ≤ us.length)
      (hus : ∀ u ∈ us, 0xFF80 ≤ u.toNat) (h : Encoded w code) : Encoded (c :: w) (us ++ code)

/-- A byte beyond ASCII is a negative `char`. -/
theorem scriptCode_other {bytes : List UInt8} (h : ∀ b ∈ bytes, 0x80 ≤ b.toNat) :
    ∀ u ∈ scriptCode bytes, 0xFF80 ≤ u.toNat := by
  intro u hu
  obtain ⟨b, hb, rfl⟩ := List.mem_map.mp hu
  have hge := h b hb
  have hnot : ¬ b < 0x80 := by
    rw [UInt8.lt_iff_toNat_lt]
    exact Nat.not_lt.mpr hge
  rw [if_neg hnot, UInt16.toNat_or, UInt8.toNat_toUInt16]
  have hlt := b.toNat_lt
  have hall : ∀ n < 256, 0x80 ≤ n → 0xFF80 ≤ 0xFF00 ||| n := by decide +kernel
  exact hall _ hlt hge

theorem scriptCode_append (a b : List UInt8) : scriptCode (a ++ b) = scriptCode a ++ scriptCode b :=
  List.map_append

/-- The bytes of a code point beyond ASCII. -/
theorem utf8Bytes_other {n : Nat} (hge : 0x80 ≤ n) (hlt : n < 0x110000) :
    (∀ b ∈ utf8Bytes n, 0x80 ≤ b.toNat) ∧ 2 ≤ (utf8Bytes n).length ∧
      (0x10000 ≤ n → (utf8Bytes n).length = 4) := by
  unfold utf8Bytes
  rw [if_neg (by omega)]
  split
  · simp only [List.forall_mem_cons, UInt8.toNat_ofNat']
    refine ⟨⟨by omega, by omega, by simp⟩, by simp, by omega⟩
  · split
    · simp only [List.forall_mem_cons, UInt8.toNat_ofNat']
      refine ⟨⟨by omega, by omega, by omega, by simp⟩, by simp, by omega⟩
    · simp only [List.forall_mem_cons, UInt8.toNat_ofNat']
      refine ⟨⟨by omega, by omega, by omega, by omega, by simp⟩, by simp, by simp⟩

theorem Utf8Encoding.encoded {w : List UChar} {bytes : List UInt8} (h : Utf8Encoding w bytes) :
    Encoded w (scriptCode bytes) := by
  induction h with
  | nil => exact .nil
  | @unit c w bytes hc h ih =>
      rw [scriptCode_append]
      by_cases hascii : c.toNat < 0x80
      · have hbyte : scriptCode (utf8Bytes c.toNat) = [c] := by
          have hc : UInt8.ofNat c.toNat < 0x80 := by
            rw [UInt8.lt_iff_toNat_lt, UInt8.toNat_ofNat']
            show c.toNat % 256 < 128
            omega
          rw [utf8Bytes, if_pos hascii, scriptCode, List.map_singleton, if_pos hc]
          congr 1
          apply UInt16.toNat_inj.mp
          rw [UInt8.toNat_toUInt16, UInt8.toNat_ofNat']
          omega
        rw [hbyte]
        exact .ascii hascii ih
      · have hlt := c.toNat_lt
        obtain ⟨hbytes, hlen, -⟩ := utf8Bytes_other (n := c.toNat) (by omega) (by omega)
        refine .other (by omega) ?_ (scriptCode_other hbytes) ih
        rwa [scriptCode, List.length_map]
  | @pair hi lo w bytes hhi hlo h ih =>
      obtain ⟨hge, hlt⟩ := hhi
      obtain ⟨hge', hlt'⟩ := hlo
      obtain ⟨hbytes, -, hlen⟩ := utf8Bytes_other (n := codePoint hi lo)
        (by unfold codePoint; omega) (by unfold codePoint; omega)
      have hfour := hlen (by unfold codePoint; omega)
      -- two of the four bytes count for each surrogate
      rw [scriptCode_append, ← List.take_append_drop 2 (scriptCode (utf8Bytes (codePoint hi lo))),
        List.append_assoc]
      have hus := scriptCode_other hbytes
      have hlength : (scriptCode (utf8Bytes (codePoint hi lo))).length = 4 := by
        rw [scriptCode, List.length_map, hfour]
      refine .other (by omega) (by simp [hlength]) (fun u hu => hus u (List.mem_of_mem_take hu)) ?_
      exact .other (by omega) (by simp [hlength]) (fun u hu => hus u (List.mem_of_mem_drop hu)) ih
  | @lone c w bytes stands hc hlone hlen hbytes h ih =>
      have hge : 0x80 ≤ c.toNat := by
        rcases hc with ⟨hc, -⟩ | ⟨hc, -⟩ <;> omega
      rw [scriptCode_append]
      refine .other hge ?_ (scriptCode_other hbytes) ih
      rw [scriptCode, List.length_map, hlen]
      decide

/-! ## ASCII stays in place -/

section Split

variable {w code : List UChar}

theorem Encoded.append {w' code' : List UChar} (h : Encoded w code) (h' : Encoded w' code') :
    Encoded (w ++ w') (code ++ code') := by
  induction h with
  | nil => exact h'
  | ascii hc h ih => exact .ascii hc ih
  | other hc hlen hus h ih =>
      rw [List.append_assoc]
      exact .other hc hlen hus ih

/-- Text in ASCII is handed over as it is. -/
theorem Encoded.of_ascii (h : Encoded w code) (hw : ∀ c ∈ w, c.toNat < 0x80) : code = w := by
  induction h with
  | nil => rfl
  | ascii hc h ih => rw [ih fun c hc => hw c (List.mem_cons_of_mem _ hc)]
  | @other c w us code hc hlen hus h ih =>
      have := hw c List.mem_cons_self
      omega

/-- Other text gets longer. -/
theorem Encoded.length (h : Encoded w code) :
    w.length ≤ code.length ∧ ((∃ c ∈ w, 0x80 ≤ c.toNat) → w.length < code.length) := by
  induction h with
  | nil => simp
  | @ascii c w code hc h ih =>
      refine ⟨by simpa using ih.1, ?_⟩
      rintro ⟨d, hd, hge⟩
      rcases List.mem_cons.mp hd with rfl | hd
      · omega
      · simpa using ih.2 ⟨d, hd, hge⟩
  | other hc hlen hus h ih =>
      simp only [List.length_cons, List.length_append]
      exact ⟨by omega, fun _ => by omega⟩

/-- Exactly the text in ASCII is handed over as it is. -/
theorem Encoded.eq_iff (h : Encoded w code) : code = w ↔ ∀ c ∈ w, c.toNat < 0x80 := by
  constructor
  · rintro rfl
    by_contra hall
    push Not at hall
    exact lt_irrefl _ (h.length.2 hall)
  · exact h.of_ascii

theorem Encoded.eq_nil (h : Encoded w []) : w = [] := by
  have := h.length.1
  exact List.eq_nil_of_length_eq_zero (Nat.le_zero.mp this)

theorem encoded_ascii (hw : ∀ c ∈ w, c.toNat < 0x80) : Encoded w w := by
  induction w with
  | nil => exact .nil
  | cons c w ih =>
      rw [List.forall_mem_cons] at hw
      exact .ascii hw.1 (ih hw.2)

/-- What is handed over in ASCII at some place stands in the script there. -/
theorem Encoded.split {before after : List UChar} {q : UChar} (hq : q.toNat < 0x80)
    (h : Encoded w code) (hcode : code = before ++ q :: after) :
    ∃ a b, w = a ++ q :: b ∧ Encoded a before ∧ Encoded b after := by
  induction h generalizing before with
  | nil => simp at hcode
  | @ascii c w code hc h ih =>
      cases before with
      | nil =>
          obtain ⟨rfl, rfl⟩ := List.cons.inj hcode
          exact ⟨[], w, rfl, .nil, h⟩
      | cons d before =>
          obtain ⟨rfl, htail⟩ := List.cons.inj hcode
          obtain ⟨a, b, rfl, ha, hb⟩ := ih htail
          exact ⟨c :: a, b, rfl, .ascii hc ha, hb⟩
  | @other c w us code hc hlen hus h ih =>
      rcases List.append_eq_append_iff.mp hcode with ⟨more, hbefore, hrest⟩ | ⟨more, hpart, hrest⟩
      · obtain ⟨a, b, rfl, ha, hb⟩ := ih hrest
        rw [hbefore]
        exact ⟨c :: a, b, rfl, .other hc hlen hus ha, hb⟩
      · cases more with
        | nil =>
            rw [List.append_nil] at hpart
            have hrest : code = [] ++ q :: after := hrest.symm
            obtain ⟨a, b, rfl, ha, hb⟩ := ih hrest
            have hbefore : before = us ++ [] := by rw [hpart, List.append_nil]
            rw [hbefore]
            exact ⟨c :: a, b, rfl, .other hc hlen hus ha, hb⟩
        | cons x more =>
            obtain ⟨rfl, -⟩ := List.cons.inj hrest
            have hge := hus q (by rw [hpart]; simp)
            omega

/-- What stands behind text in ASCII. -/
theorem Encoded.behind_ascii {a b : List UChar} (ha : ∀ c ∈ a, c.toNat < 0x80)
    (h : Encoded (a ++ b) code) : ∃ code', code = a ++ code' ∧ Encoded b code' := by
  induction a generalizing code with
  | nil => exact ⟨code, rfl, h⟩
  | cons c a ih =>
      have hc := ha c List.mem_cons_self
      cases h with
      | ascii _ h =>
          obtain ⟨code', rfl, hb⟩ := ih (fun d hd => ha d (List.mem_cons_of_mem c hd)) h
          exact ⟨code', rfl, hb⟩
      | other hge _ _ _ => omega

/-- The units of ASCII that are handed over first stand first in the script. -/
theorem Encoded.front {a rest : List UChar} (ha : ∀ c ∈ a, c.toNat < 0x80)
    (h : Encoded w (a ++ rest)) : ∃ b, w = a ++ b ∧ Encoded b rest := by
  induction a generalizing w with
  | nil => exact ⟨w, rfl, h⟩
  | cons c a ih =>
      have hfront : c :: a ++ rest = [] ++ c :: (a ++ rest) := rfl
      obtain ⟨before, after, rfl, hbefore, hafter⟩ := h.split (ha c List.mem_cons_self) hfront
      obtain ⟨b, rfl, hb⟩ := ih (fun d hd => ha d (List.mem_cons_of_mem c hd)) hafter
      rw [hbefore.eq_nil]
      exact ⟨b, rfl, hb⟩

/-- What begins with ASCII begins so in the script. -/
theorem Encoded.head {d : UChar} (h : Encoded w code) (hd : d ∈ code.head?)
  (hascii : d.toNat < 0x80) :
    d ∈ w.head? := by
  cases h with
  | nil => exact hd
  | ascii hc h => exact hd
  | @other c w us code hc hlen hus h =>
      cases us with
      | nil => simp at hlen
      | cons u us =>
          cases hd
          have := hus d List.mem_cons_self
          omega

end Split

/-! ## String literals -/

section Strings

variable {quote : UChar} {after after' inner inner' value : List UChar}

/-- A unit far beyond ASCII is nothing special. -/
theorem far_unit {u : UChar} (hu : 0xFF80 ≤ u.toNat) : isLineTerminator u.toNat = false ∧
    (u.toNat : Int) ≠ chr '\\' ∧ ∀ d ∈ escapeCharacters, (u.toNat : Int) ≠ chr d := by
  have hslash : chr '\\' = 92 := rfl
  have hr : chr '\r' = 13 := rfl
  have hn : chr '\n' = 10 := rfl
  refine ⟨?_, by omega, ?_⟩
  · simp only [isLineTerminator, hr, hn, Bool.or_eq_false_iff, beq_eq_false_iff_ne]
    omega
  · intro d hd
    have hall : ∀ d ∈ escapeCharacters, chr d < 0x80 := List.all_iff_forall_prop.mp (by decide)
    have := hall d hd
    omega

/-- Units far beyond ASCII stand for themselves in a string. -/
theorem StringText.raw {us text : List UChar} (hquote : quote.toNat < 0x80)
    (hus : ∀ u ∈ us, 0xFF80 ≤ u.toNat) (h : StringText quote after text value) :
    StringText quote after (us ++ text) (us ++ value) := by
  induction us with
  | nil => exact h
  | cons u us ih =>
      have hu := hus u List.mem_cons_self
      obtain ⟨hline, hslash, -⟩ := far_unit hu
      refine .char ?_ hslash hline (ih fun d hd => hus d (List.mem_cons_of_mem u hd))
      rintro rfl
      omega

theorem hexDigit_ascii {c : UChar} (h : isASCIIHexDigit c.toNat = true) : c.toNat < 0x80 := by
  have hall : ∀ n < 256, isASCIIHexDigit (n : Nat) = true → n < 0x80 := by decide +kernel
  have hrange := (hexDigit_range h).2
  exact hall c.toNat (by omega) h

theorem octalDigit_ascii {c : UChar} (h : isASCIIOctalDigit c.toNat = true) : c.toNat < 0x80 := by
  have h7 : chr '7' = 55 := rfl
  simp only [isASCIIOctalDigit, h7, Bool.and_eq_true, decide_eq_true_eq] at h
  omega

theorem OctalEscape.digits {digits rest : List UChar} (h : OctalEscape digits rest) :
    ∀ c ∈ digits, isASCIIOctalDigit c.toNat = true := by
  cases h <;> simp [*]

/-- The characters of an escape are ASCII, but for one that stands for itself or is a line
terminator. -/
theorem StringEscape.ascii {escape rest : List UChar} (h : StringEscape escape value rest) :
    (∀ c ∈ escape, c.toNat < 0x80) ∨
      ∃ c, escape = [c] ∧ 0x80 ≤ c.toNat ∧ value.length ≤ 1 := by
  have hone : ∀ c : UChar, value.length ≤ 1 → (∀ d ∈ [c], d.toNat < 0x80) ∨
      ∃ d, [c] = [d] ∧ 0x80 ≤ d.toNat ∧ value.length ≤ 1 := by
    intro c hlen
    by_cases hc : c.toNat < 0x80
    · exact Or.inl (by simpa using hc)
    · exact Or.inr ⟨c, rfl, by omega, hlen⟩
  have hdigits : ∀ {letter : Char} {digits : List UChar}, letter.toNat < 0x80 → HexDigits digits →
      ∀ c ∈ identifierOfChars [letter] ++ digits, c.toNat < 0x80 := by
    intro letter digits hletter hd c hc
    rcases List.mem_append.mp hc with hc | hc
    · rw [identifierOfChars, List.map_singleton, List.mem_singleton] at hc
      rw [hc, UInt16.toNat_ofNat']
      omega
    · exact hexDigit_ascii (hd c hc)
  cases h with
  | single h => exact hone _ le_rfl
  | other hline h => exact hone _ le_rfl
  | hex hd hlen => exact Or.inl (hdigits (by decide) hd)
  | unicode hd hlen => exact Or.inl (hdigits (by decide) hd)
  | octal h => exact Or.inl fun c hc => octalDigit_ascii (h.digits c hc)
  | continuation h hend =>
      cases h with
      | single h => exact hone _ (Nat.zero_le 1)
      | crlf => exact Or.inl (List.all_iff_forall_prop.mp (by decide))
      | lfcr => exact Or.inl (List.all_iff_forall_prop.mp (by decide))

/-- An escape is one in front of what is handed over, too. -/
theorem StringEscape.encoded {escape rest rest' : List UChar} (h : StringEscape escape value rest)
    (hrest : Encoded rest rest') : StringEscape escape value rest' := by
  have hnone : NoOctalDigit rest → NoOctalDigit rest' := by
    intro hend d hd
    rw [← Bool.not_eq_true]
    intro hoctal
    have hhead := hrest.head hd (octalDigit_ascii hoctal)
    rw [hend d hhead] at hoctal
    cases hoctal
  cases h with
  | single h => exact .single h
  | other hline h => exact .other hline h
  | hex hd hlen => exact .hex hd hlen
  | unicode hd hlen => exact .unicode hd hlen
  | octal h =>
      cases h with
      | one hc hend => exact .octal (.one hc (hnone hend))
      | two hc hd hlow hend => exact .octal (.two hc hd hlow (hnone hend))
      | twoHigh hc hd hhigh => exact .octal (.twoHigh hc hd hhigh)
      | three hc hd he hlow => exact .octal (.three hc hd he hlow)
  | continuation h hend =>
      refine .continuation h fun d hd hpair => ?_
      have hascii : d.toNat < 0x80 := by
        generalize hall : escape ++ [d] = all at hpair
        cases hpair with
        | single h' =>
            have hlen := congrArg List.length hall
            cases h <;> simp [identifierOfChars] at hlen
        | crlf =>
            have hlast := congrArg List.getLast? hall
            simp only [List.getLast?_append, List.getLast?_singleton] at hlast
            cases hlast
            decide
        | lfcr =>
            have hlast := congrArg List.getLast? hall
            simp only [List.getLast?_append, List.getLast?_singleton] at hlast
            cases hlast
            decide
      exact hend d (hrest.head hd hascii) hpair

/-- **A string literal stays one**, and what it denotes gets longer if it is not in ASCII. -/
theorem StringText.encoded (hquote : quote.toNat < 0x80) (h : StringText quote
  (quote :: after) inner value)
    (hinner : Encoded inner inner') (hafter : Encoded after after') :
    ∃ value', StringText quote (quote :: after') inner' value' ∧ value.length ≤ value'.length ∧
      ((∃ c ∈ inner, 0x80 ≤ c.toNat) → value.length < value'.length) := by
  induction h generalizing inner' with
  | nil =>
      cases hinner
      exact ⟨[], .nil, le_rfl, by simp⟩
  | @char c text value hne hslash hline h ih =>
      cases hinner with
      | ascii hc htext =>
          obtain ⟨value', h', hle, hlt⟩ := ih htext
          refine ⟨c :: value', .char hne hslash hline h', by simpa using hle, ?_⟩
          rintro ⟨d, hd, hge⟩
          rcases List.mem_cons.mp hd with rfl | hd
          · omega
          · simpa using hlt ⟨d, hd, hge⟩
      | @other _ _ us code hc hlen hus htext =>
          obtain ⟨value', h', hle, -⟩ := ih htext
          refine ⟨us ++ value', h'.raw hquote hus, ?_, fun _ => ?_⟩
          · simp only [List.length_cons, List.length_append]
            omega
          · simp only [List.length_cons, List.length_append]
            omega
  | @escape escape value text value₁ he h ih =>
      rw [List.append_assoc] at hinner
      have hslash : ∀ d ∈ identifierOfChars ['\\'], d.toNat < 0x80 :=
        List.all_iff_forall_prop.mp (by decide)
      obtain ⟨code, rfl, hcode⟩ := hinner.behind_ascii hslash
      rcases he.ascii with hascii | ⟨c, rfl, hge, hlen⟩
      · obtain ⟨text', rfl, htext⟩ := hcode.behind_ascii hascii
        obtain ⟨value', h', hle, hlt⟩ := ih htext
        have he' := he.encoded (htext.append (.ascii hquote hafter))
        refine ⟨value ++ value', ?_, ?_, ?_⟩
        · rw [← List.append_assoc]
          exact .escape he' h'
        · simpa using hle
        · rintro ⟨d, hd, hge⟩
          have hd : d ∈ text := by
            rcases List.mem_append.mp hd with hd | hd
            · rcases List.mem_append.mp hd with hd | hd
              · have := hslash d hd
                omega
              · have := hascii d hd
                omega
            · exact hd
          simpa using hlt ⟨d, hd, hge⟩
      · cases hcode with
        | ascii hc htext => omega
        | @other _ _ us text' _ hlen' hus htext =>
            obtain ⟨value', h', hle, -⟩ := ih htext
            cases us with
            | nil => simp at hlen'
            | cons u us =>
                obtain ⟨hline, -, hother⟩ := far_unit (hus u List.mem_cons_self)
                have hraw := h'.raw hquote fun d hd => hus d (List.mem_cons_of_mem u hd)
                have hescape : StringEscape [u] [u] (us ++ text' ++ quote :: after') :=
                  .other hline hother
                have htext' := StringText.escape hescape hraw
                refine ⟨[u] ++ (us ++ value'), htext', ?_, fun _ => ?_⟩
                · simp only [List.length_append, List.length_cons, List.length_nil] at hlen' ⊢
                  omega
                · simp only [List.length_append, List.length_cons, List.length_nil] at hlen' ⊢
                  omega

end Strings

end HammerJS
