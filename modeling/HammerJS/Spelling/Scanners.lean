import HammerJS.Procs.Partial
import HammerJS.Reflect.LexSafety
import HammerJS.Spelling.Texts

/-!
# What the scanning routines read

Each scanning routine of `Lexer.cpp`, if it does not stop at an assertion, has read a
text of the form that `Spelling.Texts` describes, and answers what the text denotes.

* `Lexer.Takes` — the text between two positions of the lexer.
* `Lexer.stringLoop_takes` and the like — one lemma for each routine.
-/

namespace HammerJS

open Procs

namespace Lexer

/-! ## Single steps -/

section Steps

variable {l : Lexer}

@[simp] theorem yields_assert {c : Bool} {e : Crash} {Q : Unit → Lexer → Prop} :
    Yields (assert c e) l Q ↔ (c = true → Q () l) := by
  cases c <;> simp [assert]

@[simp] theorem yields_getCurrent {Q : Int → Lexer → Prop} :
    Yields getCurrent l Q ↔ Q l.current l := by simp [getCurrent]

@[simp] theorem yields_currentCharacter {Q : List UChar → Lexer → Prop} :
    Yields currentCharacter l Q ↔ Q l.code l := by simp [currentCharacter]

@[simp] theorem yields_currentOffset {Q : Nat → Lexer → Prop} :
    Yields currentOffset l Q ↔ Q (l.codeStart.length - l.code.length) l := by
  simp [currentOffset]

@[simp] theorem yields_peek {n : Nat} {Q : Int → Lexer → Prop} :
    Yields (peek n) l Q ↔ Q (codeUnit (l.code.drop n)) l := by simp [peek]

@[simp] theorem yields_bound {Q : Nat → Lexer → Prop} :
    Yields bound l Q ↔ Q (l.code.length + 1) l := by simp [bound]

@[simp] theorem yields_shift {Q : Unit → Lexer → Prop} :
    Yields shift l Q ↔ (l.current ≠ -1 → Q () l.advance) := by
  simp [shift, advance]

@[simp] theorem yields_record8 {c : Int} {Q : Unit → Lexer → Prop} :
    Yields (record8 c) l Q ↔
      (0 ≤ c → c ≤ 0xFF → Q () { l with buffer8 := l.buffer8 ++ [Char.ofNat c.toNat] }) := by
  simp [record8]

@[simp] theorem yields_record16 {c : Int} {Q : Unit → Lexer → Prop} :
    Yields (record16 c) l Q ↔
      (0 ≤ c → c ≤ 0xFFFF → Q () { l with buffer16 := l.buffer16 ++ [c.toNat.toUInt16] }) := by
  simp [record16]

@[simp] theorem yields_appendSegment {start : List UChar} {Q : Unit → Lexer → Prop} :
    Yields (appendSegment start) l Q ↔
      Q () { l with buffer16 := l.buffer16 ++ segment start l.code } := by
  simp [appendSegment]

@[simp] theorem yields_clearBuffer8 {Q : Unit → Lexer → Prop} :
    Yields clearBuffer8 l Q ↔ Q () { l with buffer8 := [] } := by simp [clearBuffer8]

@[simp] theorem yields_clearBuffer16 {Q : Unit → Lexer → Prop} :
    Yields clearBuffer16 l Q ↔ Q () { l with buffer16 := [] } := by simp [clearBuffer16]

@[simp] theorem yields_lastTokenWasRestrKeyword {Q : Bool → Lexer → Prop} :
    Yields lastTokenWasRestrKeyword l Q ↔
      Q (l.lastToken == some .continue || l.lastToken == some .break ||
        l.lastToken == some .return || l.lastToken == some .throw) l := by
  simp [lastTokenWasRestrKeyword]

end Steps

/-! ## Texts between two positions -/

/-- From `l` to `l'` the lexer has read `text`, and left its buffers alone. -/
structure Takes (l : Lexer) (text : List UChar) (l' : Lexer) : Prop extends Skipped l l' where
  code : l.code = text ++ l'.code

/-- From `l` to `l'` the lexer has read `text`. -/
structure Scans (l : Lexer) (text : List UChar) (l' : Lexer) : Prop extends Moved l l' where
  code : l.code = text ++ l'.code

section Takes

variable {l l' l'' : Lexer} {text text' : List UChar}

theorem Takes.refl (h : l.Valid) : Takes l [] l := ⟨.refl h, rfl⟩

theorem Takes.trans (h : Takes l text l') (h' : Takes l' text' l'') :
    Takes l (text ++ text') l'' :=
  ⟨h.toSkipped.trans h'.toSkipped, by rw [h.code, h'.code, List.append_assoc]⟩

theorem Takes.scans (h : Takes l text l') : Scans l text l' := ⟨h.toMoved, h.code⟩

theorem Scans.trans (h : Scans l text l') (h' : Scans l' text' l'') :
    Scans l (text ++ text') l'' :=
  ⟨h.toMoved.trans h'.toMoved, by rw [h.code, h'.code, List.append_assoc]⟩

theorem Scans.buffers (h : Scans l text l') (b8 : List Char) (b16 : List UChar) :
    Scans l text { l' with buffer8 := b8, buffer16 := b16 } :=
  ⟨h.toMoved.buffers b8 b16, h.code⟩

/-- The character that `m_current` is, when it is one. -/
theorem Valid.code_eq (hv : l.Valid) (h : l.current ≠ -1) :
    ∃ c : UChar, l.current = c.toNat ∧ l.code = c :: l.advance.code := by
  unfold Valid at hv
  cases hc : l.code with
  | nil =>
      rw [hc] at hv
      exact absurd hv h
  | cons c rest =>
      rw [hc] at hv
      exact ⟨c, hv, by simp [advance, hc]⟩

theorem advance_takes {c : UChar} (hcode : l.code = c :: l.advance.code) :
    Takes l [c] l.advance := ⟨advance_skipped, hcode⟩

/-- `shift()` reads one character. -/
theorem Valid.shift (hv : l.Valid) (h : l.current ≠ -1) :
    ∃ c : UChar, l.current = c.toNat ∧ Takes l [c] l.advance := by
  obtain ⟨c, hc, hcode⟩ := hv.code_eq h
  exact ⟨c, hc, advance_takes hcode⟩

/-- `shift()` over a known character. -/
theorem Valid.shift_chr (hv : l.Valid) {c : Char} (h : l.current = chr c) :
    Takes l (identifierOfChars [c]) l.advance := by
  obtain ⟨u, hu, ht⟩ := hv.shift (by rw [h]; simp only [chr]; omega)
  have hcu : c.toNat = u.toNat := Int.ofNat_inj.mp (h.symm.trans hu)
  have : identifierOfChars [c] = [u] := by simp [identifierOfChars, hcu]
  rw [this]
  exact ht

/-- What a pointer further back spans. -/
theorem segment_append (text rest : List UChar) : segment (text ++ rest) rest = text := by
  simp [segment]

end Takes

/-! ## Loops -/

/-- Something has been read when the current character is not of the class any more. -/
theorem Scans.ne_nil {p : Int → Bool} {l l' : Lexer} {text : List UChar} (h : Scans l text l')
    (hv : l.Valid) (hc : p l.current = true) (hend : p l'.current = false) : text ≠ [] := by
  rintro rfl
  have hcode : l.code = l'.code := h.code
  rw [show l.current = codeUnit l.code from hv, hcode,
    ← show l'.current = codeUnit l'.code from h.valid, hend] at hc
  cases hc

/-- What a loop has read when it ends. -/
theorem whileCurrent_yields {cond : Int → Bool} {body : LexM Unit} {I : Lexer → Prop}
    (hbody : ∀ l, I l → cond l.current = true → Yields body l fun _ l' => I l')
    (n : Nat) (l : Lexer) (hI : I l) :
    Yields (whileCurrent cond body n) l fun _ l' => I l' ∧ cond l'.current = false := by
  induction n generalizing l with
  | zero => simp [whileCurrent]
  | succ n ih =>
      simp only [whileCurrent, yields_bind, yields_getCurrent, yields_ite]
      split
      case isFalse hc => exact (yields_pure _).mpr ⟨hI, by simpa using hc⟩
      case isTrue hc => exact (hbody l hI hc).mono fun _ l' h => ih l' h

/-- A loop that skips the characters of a class. -/
theorem whileShift_takes {cond : Int → Bool} {l : Lexer} (hv : l.Valid) (n : Nat) :
    Yields (whileCurrent cond shift n) l fun _ l' => ∃ text, Takes l text l' ∧
      (∀ c ∈ text, cond (UInt16.toNat c) = true) ∧ cond l'.current = false := by
  let I : Lexer → Prop := fun l' => ∃ text, Takes l text l' ∧ ∀ c ∈ text, cond (UInt16.toNat c) = true
  refine (whileCurrent_yields (I := I) ?_ n l ⟨[], .refl hv, by simp⟩).mono ?_
  · rintro l₁ ⟨text, h, hall⟩ hc
    rw [yields_shift]
    intro hne
    obtain ⟨c, hcur, hshift⟩ := h.valid.shift hne
    refine ⟨text ++ [c], h.trans hshift, ?_⟩
    intro d hd
    rcases List.mem_append.mp hd with hd | hd
    · exact hall d hd
    · rw [List.mem_singleton.mp hd, ← hcur]
      exact hc
  · rintro _ l' ⟨⟨text, h, hall⟩, hc⟩
    exact ⟨text, h, hall, hc⟩

/-- A loop that records the characters of a class. -/
theorem recordWhile_scans {cond : Int → Bool} {l : Lexer} (hv : l.Valid) :
    Yields (recordWhile cond) l fun _ l' => ∃ text, Scans l text l' ∧
      (∀ c ∈ text, cond (UInt16.toNat c) = true) ∧ l'.buffer8 = l.buffer8 ++ charsOf text ∧
        l'.buffer16 = l.buffer16 ∧ cond l'.current = false := by
  let I : Lexer → Prop := fun l' => ∃ text, Scans l text l' ∧
    (∀ c ∈ text, cond (UInt16.toNat c) = true) ∧ l'.buffer8 = l.buffer8 ++ charsOf text ∧
      l'.buffer16 = l.buffer16
  simp only [recordWhile, yields_bind, yields_bound]
  refine (whileCurrent_yields (I := I) ?_ _ l
    ⟨[], (Takes.refl hv).scans, by simp, by simp [charsOf], rfl⟩).mono ?_
  · rintro l₁ ⟨text, h, hall, h8, h16⟩ hc
    simp only [yields_bind, yields_getCurrent, yields_record8, yields_shift]
    intro _ _ hne
    obtain ⟨c, hcur, hshift⟩ := h.valid.shift hne
    refine ⟨text ++ [c], ?_, ?_, ?_, h16⟩
    · exact (h.trans hshift.scans).buffers (l₁.buffer8 ++ [Char.ofNat l₁.current.toNat]) l₁.buffer16
    · intro d hd
      rcases List.mem_append.mp hd with hd | hd
      · exact hall d hd
      · rw [List.mem_singleton.mp hd, ← hcur]
        exact hc
    · simp [advance, h8, hcur, charsOf]
  · rintro _ l' ⟨⟨text, h, hall, h8, h16⟩, hc⟩
    exact ⟨text, h, hall, h8, h16, hc⟩

/-! ## Line terminators and comments -/

/-- A carriage return and a line feed are told by their sum. -/
theorem lineEnd_pair {c c' : UChar} (hline : isLineTerminator c.toNat = true)
    (hsum : (c.toNat : Int) + c'.toNat = chr '\n' + chr '\r') : LineEnd [c, c'] := by
  have h10 : chr '\n' = 10 := rfl
  have h13 : chr '\r' = 13 := rfl
  have htoNat : ∀ {u : UChar} {n : Nat}, (u.toNat : Int) = n → n < 65536 → u = n.toUInt16 := by
    intro u n h hn
    have h : u.toNat = n := Int.ofNat_inj.mp h
    rw [← h]
    exact UInt16.ofNat_toNat.symm
  simp only [isLineTerminator, h10, h13, Bool.or_eq_true, beq_iff_eq] at hline hsum
  rcases hline with ((h | h) | h) | h
  · rw [htoNat (n := 13) h (by omega), htoNat (u := c') (n := 10) (by omega) (by omega)]
    exact .crlf
  · rw [htoNat (n := 10) h (by omega), htoNat (u := c') (n := 13) (by omega) (by omega)]
    exact .lfcr
  · omega
  · omega

theorem shiftLineTerminator_takes {l : Lexer} (hv : l.Valid) :
    Yields shiftLineTerminator l fun _ l' => ∃ eol, LineEnd eol ∧ Takes l eol l' := by
  simp only [shiftLineTerminator, yields_bind, yields_getCurrent, yields_assert, yields_shift,
    yields_ite, yields_modify]
  intro hline hne
  obtain ⟨c, hc, h₁⟩ := hv.shift hne
  have hlines : ∀ {l' : Lexer} {text}, Takes l text l' →
      Takes l text { l' with lineNumber := l'.lineNumber + 1 } := fun h =>
    ⟨⟨⟨h.valid, h.codeStart, h.error, h.terminator, h.atLineStart, h.lastToken, h.suffix⟩,
      h.buffer8, h.buffer16⟩, h.code⟩
  split
  case isFalse => exact ⟨[c], .single (hc ▸ hline), hlines h₁⟩
  case isTrue hsum =>
    intro hne'
    obtain ⟨c', hc', h₂⟩ := h₁.valid.shift hne'
    refine ⟨[c] ++ [c'], ?_, hlines (h₁.trans h₂)⟩
    rw [hc'] at hsum
    rw [hc] at hsum hline
    exact lineEnd_pair hline hsum

/-- The end of a comment does not start with a character other than `*`. -/
theorem no_commentEnd_cons {c : UChar} {body : List UChar}
    (hc : c = '*'.toNat.toUInt16 → ∀ d, (body ++ identifierOfChars ['*']).head? = some d →
      d ≠ '/'.toNat.toUInt16)
    (h : ¬ identifierOfChars ['*', '/'] <:+: body ++ identifierOfChars ['*']) :
    ¬ identifierOfChars ['*', '/'] <:+: c :: body ++ identifierOfChars ['*'] := by
  rw [List.cons_append, List.infix_cons_iff]
  rintro (hpre | hinfix)
  · obtain ⟨rest, hrest⟩ := hpre
    rw [show identifierOfChars ['*', '/'] = ['*'.toNat.toUInt16, '/'.toNat.toUInt16] from rfl,
      List.cons_append, List.cons_append, List.nil_append, List.cons.injEq] at hrest
    exact hc hrest.1.symm _ (by rw [← hrest.2]; rfl) rfl
  · exact h hinfix

theorem no_commentEnd_append {text body : List UChar} (htext : '*'.toNat.toUInt16 ∉ text)
    (h : ¬ identifierOfChars ['*', '/'] <:+: body ++ identifierOfChars ['*']) :
    ¬ identifierOfChars ['*', '/'] <:+: text ++ body ++ identifierOfChars ['*'] := by
  induction text with
  | nil => exact h
  | cons c text ih =>
      rw [List.mem_cons, not_or] at htext
      exact no_commentEnd_cons (fun hc => absurd hc.symm htext.1) (ih htext.2)

theorem parseMultilineComment_takes (n : Nat) {l : Lexer} (hv : l.Valid) :
    Yields (parseMultilineComment n) l fun ok l' => ok = true → ∃ body,
      Takes l (body ++ identifierOfChars ['*', '/']) l' ∧
        ¬ identifierOfChars ['*', '/'] <:+: body ++ identifierOfChars ['*'] := by
  induction n generalizing l with
  | zero => simp [parseMultilineComment]
  | succ n ih =>
      simp only [parseMultilineComment, yields_bind, yields_getCurrent, yields_ite, yields_shift]
      split
      case isTrue hstar =>
        intro hne
        have h₁ := hv.shift_chr hstar
        split
        case isTrue hslash =>
          intro hne'
          refine (yields_pure _).mpr fun _ => ⟨[], h₁.trans (h₁.valid.shift_chr hslash), ?_⟩
          decide
        case isFalse hslash =>
          refine (ih h₁.valid).mono fun ok l' h hok => ?_
          obtain ⟨body, h, hbody⟩ := h hok
          refine ⟨identifierOfChars ['*'] ++ body, ?_, no_commentEnd_cons (fun _ d hd => ?_) hbody⟩
          · rw [List.append_assoc]
            exact h₁.trans h
          · rintro rfl
            refine hslash ?_
            rw [show l.advance.current = codeUnit l.advance.code from rfl, h.code]
            cases body <;> cases hd
            rfl
      case isFalse hstar =>
      split
      case isTrue => exact (yields_pure _).mpr fun h => by cases h
      case isFalse hne =>
      -- what is not a `*` does not end the comment
      have hmore : ∀ {text : List UChar} {l₁ : Lexer}, Takes l text l₁ →
          '*'.toNat.toUInt16 ∉ text →
          Yields (parseMultilineComment n) l₁ fun ok l' => ok = true → ∃ body,
            Takes l (body ++ identifierOfChars ['*', '/']) l' ∧
              ¬ identifierOfChars ['*', '/'] <:+: body ++ identifierOfChars ['*'] := by
        intro text l₁ h₁ htext
        refine (ih h₁.valid).mono fun ok l' h hok => ?_
        obtain ⟨body, h, hbody⟩ := h hok
        refine ⟨text ++ body, ?_, no_commentEnd_append htext hbody⟩
        rw [List.append_assoc]
        exact h₁.trans h
      split
      case isTrue hline =>
        refine (shiftLineTerminator_takes hv).mono ?_
        rintro _ l₁ ⟨eol, heol, h₁⟩
        refine hmore h₁ fun hmem => ?_
        have hstar := heol.isLineTerminator _ hmem
        exact absurd hstar (by decide)
      case isFalse =>
        intro _
        obtain ⟨c, hc, h₁⟩ := hv.shift hne
        refine hmore h₁ fun hmem => hstar ?_
        rw [hc, ← List.mem_singleton.mp hmem]
        rfl

/-! ## Escapes and identifiers -/

/-- A code unit that `record16` is given. -/
theorem recorded_unit (c : UChar) : (c.toNat : Int).toNat.toUInt16 = c := by
  simp

theorem hexDigit_value {c : UChar} (h : isASCIIHexDigit c.toNat = true) :
    digitValue (Char.ofNat c.toNat) < 16 := by
  have hall : ∀ n < 256, isASCIIHexDigit (n : Nat) = true → digitValue (Char.ofNat n) < 16 := by
    decide +kernel
  have hrange := (hexDigit_range h).2
  exact hall c.toNat (by omega) h

/-- Four digits fit into a code unit. -/
theorem hexUnit_toNat {digits : List UChar} (hd : HexDigits digits) (hlen : digits.length ≤ 4) :
    (hexUnit digits).toNat = digitsValue 16 (charsOf digits) := by
  have hlt : digitsValue 16 (charsOf digits) < 16 ^ (charsOf digits).length := by
    refine digitsValue_lt fun c hc => ?_
    obtain ⟨u, hu, rfl⟩ := List.mem_map.mp hc
    exact hexDigit_value (hd u hu)
  have hpow : 16 ^ (charsOf digits).length ≤ 16 ^ 4 :=
    Nat.pow_le_pow_right (by decide) (by simpa [charsOf] using hlen)
  rw [hexUnit, UInt16.toNat_ofNat', Nat.mod_eq_of_lt]
  omega

theorem hexValue_eq {c : UChar} (h : isASCIIHexDigit c.toNat = true) :
    hexValue c.toNat = digitValue (Char.ofNat c.toNat) := by
  have hall : ∀ n < 256, isASCIIHexDigit (n : Nat) = true →
      hexValue (n : Nat) = digitValue (Char.ofNat n) := by decide +kernel
  have hrange := (hexDigit_range h).2
  exact hall c.toNat (by omega) h

/-- Two hexadecimal digits. -/
theorem convertHex_yields {c₁ c₂ : UChar} {l : Lexer} :
    Yields (convertHex c₁.toNat c₂.toNat) l fun n l' =>
      n = digitsValue 16 (charsOf [c₁, c₂]) ∧ HexDigits [c₁, c₂] ∧ l' = l := by
  simp only [convertHex, yields_bind, yields_assert, yields_pure]
  intro h₁ h₂
  refine ⟨?_, ?_, trivial⟩
  · rw [hexValue_eq h₁, hexValue_eq h₂]
    simp [digitsValue, charsOf]
  · simp [HexDigits, h₁, h₂]

/-- A character of some class, `n` places further on. -/
theorem code_drop {l : Lexer} {n : Nat} {p : Int → Bool} (hend : p (-1) = false)
    (h : p (codeUnit (l.code.drop n)) = true) :
    ∃ c : UChar, codeUnit (l.code.drop n) = c.toNat ∧
      l.code.drop n = c :: l.code.drop (n + 1) := by
  cases hc : l.code.drop n with
  | nil =>
      rw [hc] at h
      rw [show codeUnit [] = -1 from rfl, hend] at h
      cases h
  | cons c rest =>
      refine ⟨c, rfl, ?_⟩
      rw [← List.drop_drop, hc]
      rfl

/-- Four hexadecimal digits, or nothing where there are none. -/
theorem getUnicodeCharacter_takes {l : Lexer} (hv : l.Valid) :
    Yields getUnicodeCharacter l fun c l' =>
      (c = -1 ∧ l' = l ∧ ¬ (HexDigits (l.code.take 4) ∧ 4 ≤ l.code.length)) ∨ ∃ digits,
        HexDigits digits ∧ digits.length = 4 ∧ c = (hexUnit digits).toNat ∧ Takes l digits l' := by
  simp only [getUnicodeCharacter, yields_bind, yields_getCurrent, yields_peek, yields_ite]
  split
  case isTrue h =>
    refine (yields_pure _).mpr (Or.inl ⟨rfl, rfl, ?_⟩)
    rintro ⟨hd, hlen⟩
    have hcurrent : l.current = codeUnit l.code := hv
    rw [hcurrent] at h
    match hcode : l.code, hlen with
    | c₀ :: c₁ :: c₂ :: c₃ :: rest, _ =>
        rw [hcode] at h hd
        simp [codeUnit, hd c₀ (by simp), hd c₁ (by simp), hd c₂ (by simp), hd c₃ (by simp)] at h
  case isFalse h =>
    simp only [Bool.or_eq_true, Bool.not_eq_true', not_or, Bool.not_eq_false] at h
    obtain ⟨⟨⟨h0, h1⟩, h2⟩, h3⟩ := h
    have hend := end_not_class.2.2.1
    have hcurrent : l.current = codeUnit (l.code.drop 0) := hv
    rw [hcurrent] at h0 ⊢
    obtain ⟨c₀, hc₀, e₀⟩ := code_drop hend h0
    obtain ⟨c₁, hc₁, e₁⟩ := code_drop hend h1
    obtain ⟨c₂, hc₂, e₂⟩ := code_drop hend h2
    obtain ⟨c₃, hc₃, e₃⟩ := code_drop hend h3
    rw [hc₀, hc₁, hc₂, hc₃]
    simp only [convertUnicode, yields_bind, yields_pure, yields_shift]
    refine convertHex_yields.mono ?_
    rintro m l₁ ⟨hm, hd₁, rfl⟩
    refine convertHex_yields.mono ?_
    rintro n l₁ ⟨hn, hd₂, rfl⟩ _ _ _ _
    right
    have hd : HexDigits ([c₀, c₁] ++ [c₂, c₃]) := by
      intro d hd
      rcases List.mem_append.mp hd with hd | hd
      · exact hd₁ d hd
      · exact hd₂ d hd
    refine ⟨[c₀, c₁] ++ [c₂, c₃], hd, rfl, ?_, ⟨?_, ?_⟩⟩
    · rw [hexUnit_toNat hd (le_of_eq rfl), charsOf_append, digitsValue_append, hn, hm]
      rfl
    · exact advance_skipped.trans (advance_skipped.trans (advance_skipped.trans advance_skipped))
    · rw [List.drop_zero] at e₀
      rw [e₀, e₁, e₂, e₃]
      simp only [advance, ← List.drop_one, List.drop_drop, List.cons_append, List.nil_append]

/-- What `identifierLoop` reads: `seg` is the part of the name that is not in the buffer
yet. -/
theorem identifierLoop_scans (n : Nat) {required : Bool} (seg : List UChar) {l : Lexer}
    (hv : l.Valid)
    (hfirst : l.buffer16 ++ seg = [] → isIdentStart l.current = true ∨ l.current = chr '\\') :
    Yields (identifierLoop required (seg ++ l.code) n) l fun r l' => ∀ q ∈ r,
      ∃ text name escaped seg', Scans l text l' ∧
        IdentifierParts (!(l.buffer16 ++ seg).isEmpty) text name escaped ∧
        q = (required || escaped, seg' ++ l'.code) ∧
        l'.buffer16 ++ seg' = l.buffer16 ++ seg ++ name ∧
        (escaped = false → l'.buffer16 = l.buffer16) ∧
        (isIdentPart l'.current || l'.current == chr '\\') = false := by
  induction n generalizing required seg l with
  | zero => simp [identifierLoop]
  | succ n ih =>
      simp only [identifierLoop, yields_bind, yields_getCurrent, yields_ite, yields_shift,
        yields_appendSegment, segment_append]
      split
      case isTrue hpart =>
        intro hne
        obtain ⟨c, hc, hshift⟩ := hv.shift hne
        have hcode : seg ++ l.code = (seg ++ [c]) ++ l.advance.code := by
          rw [hshift.code, List.append_assoc]
        rw [hcode]
        refine (ih (seg ++ [c]) hshift.valid (by simp)).mono ?_
        rintro r l' h q hq
        obtain ⟨text, name, escaped, seg', h, hparts, rfl, hname, hbuffer, hend⟩ := h q hq
        refine ⟨[c] ++ text, [c] ++ name, escaped, seg', hshift.scans.trans h, ?_, rfl, ?_, hbuffer,
          hend⟩
        · rw [hc] at hpart hfirst
          have hempty : (l.buffer16 ++ (seg ++ [c])).isEmpty = false := by simp
          simp only [advance, hempty, Bool.not_false] at hparts
          refine .char ?_ hparts
          cases hempty : (l.buffer16 ++ seg).isEmpty with
          | false => exact hpart
          | true =>
              rcases hfirst (List.isEmpty_iff.mp hempty) with hstart | hslash
              · exact hstart
              · rw [hslash] at hpart
                exact absurd hpart (by decide)
        · rw [hname]
          simp [advance]
      case isFalse hpart =>
      split
      case isTrue hslash =>
        refine (yields_pure _).mpr ?_
        rintro q ⟨rfl⟩
        exact ⟨[], [], false, seg, (Takes.refl hv).scans, .nil, by simp, by simp, by simp,
          by simp [hpart, hslash]⟩
      case isFalse hslash =>
        rw [ne_eq, not_not] at hslash
        intro hne
        -- the segment before the escape moves to the buffer
        let l₁ : Lexer := { l with buffer16 := l.buffer16 ++ seg }
        have hv₁ : l₁.Valid := hv
        have h₁ : Scans l [] l₁ := (Takes.refl hv).scans.buffers l.buffer8 (l.buffer16 ++ seg)
        have h₂ := h₁.trans (hv₁.shift_chr hslash).scans
        split
        case isTrue => exact (yields_pure _).mpr (by simp)
        case isFalse hu =>
        rw [ne_eq, not_not] at hu
        intro hne'
        have h₃ := h₂.trans (h₂.valid.shift_chr hu).scans
        refine (getUnicodeCharacter_takes h₃.valid).mono ?_
        rintro character l₄ (⟨rfl, rfl, -⟩ | ⟨digits, hd, hlen, rfl, h₄⟩)
        · simp
        have hne : ((hexUnit digits).toNat : Int) ≠ -1 := by omega
        have hbuffer : l₄.buffer16 = l.buffer16 ++ seg := h₄.buffer16
        simp only [if_neg hne, yields_get, yields_record16, yields_currentCharacter, recorded_unit]
        by_cases hbad : (if l₄.buffer16.length ≠ 0 then !isIdentPart (hexUnit digits).toNat
            else !isIdentStart (hexUnit digits).toNat) = true
        · rw [if_pos hbad]
          exact (yields_pure _).mpr (by simp)
        rw [if_neg hbad]
        intro _ _
        have hname : namesWith (!(l.buffer16 ++ seg).isEmpty) (hexUnit digits) := by
          rw [hbuffer] at hbad
          cases h : l.buffer16 ++ seg <;> simpa [h, namesWith] using hbad
        let l₅ : Lexer := { l₄ with buffer16 := l₄.buffer16 ++ [hexUnit digits] }
        have h₅ : Scans l _ l₅ := (h₃.trans h₄.scans).buffers l₄.buffer8 _
        refine (ih [] (l := l₅) h₅.valid (by simp [l₅])).mono ?_
        rintro r l' h q hq
        obtain ⟨text, name, escaped, seg', h, hparts, rfl, happ, -, hend⟩ := h q hq
        refine ⟨_, hexUnit digits :: name, true, seg', h₅.trans h, ?_, by simp, ?_, by simp, hend⟩
        · have hempty : (l₅.buffer16 ++ []).isEmpty = false := by simp [l₅]
          rw [hempty] at hparts
          exact .escape hd hlen hname hparts
        · rw [happ]
          simp [l₅, hbuffer]

theorem isIdentPart_of_start {c : Int} (h : isIdentStart c = true) : isIdentPart c = true := by
  simp only [isIdentStart, isIdentPart, Bool.and_eq_true] at h ⊢
  exact ⟨h.1, by simp [h.2]⟩

/-- What `parseIdentifier` reads, and the name and the token it answers. -/
theorem parseIdentifier_scans {lexType : LexType} {l : Lexer} (hv : l.Valid)
    (hbuffer : l.buffer16 = [])
    (hfirst : isIdentStart l.current = true ∨ l.current = chr '\\') :
    Yields (parseIdentifier lexType) l fun r l' => (r.2 = none → r.1 = .errorTok) ∧
      ∀ name ∈ r.2, ∃ text escaped, Scans l text l' ∧ text ≠ [] ∧
        IdentifierParts false text name escaped ∧ r.1 = nameType lexType escaped name := by
  simp only [parseIdentifier, yields_bind, yields_currentCharacter, yields_bound]
  refine (identifierLoop_scans _ [] hv fun _ => hfirst).mono ?_
  rintro (_ | ⟨required, start⟩) l₁ hloop
  · exact (yields_pure _).mpr (by simp)
  · obtain ⟨text, name, escaped, seg, h, hparts, hq, hname, hkeep, hend⟩ := hloop _ rfl
    obtain ⟨rfl, rfl⟩ := Prod.mk.inj hq
    have hne : text ≠ [] := by
      refine h.ne_nil (p := fun c => isIdentPart c || c == chr '\\') hv ?_ hend
      rcases hfirst with hfirst | hfirst
      · simp [isIdentPart_of_start hfirst]
      · simp [hfirst]
    simp only [hbuffer, List.append_nil, List.nil_append] at hname hparts hkeep
    simp only [yields_ite, yields_bind, yields_currentCharacter, segment_append,
      yields_pure, yields_clearBuffer16, yields_appendSegment, yields_get]
    split
    case isTrue hplain =>
      have hplain : required = false := by simpa using hplain
      rw [hkeep hplain, List.nil_append] at hname
      split
      case isTrue hreserved =>
        refine ⟨by simp, ?_⟩
        rintro _ ⟨rfl⟩
        exact ⟨text, required, h, hne, hname ▸ hparts,
          by rw [nameType, if_pos ⟨hplain, hreserved⟩]⟩
      case isFalse hreserved =>
        refine ⟨by simp, ?_⟩
        rintro _ ⟨rfl⟩
        refine ⟨text, required, h.buffers _ _, hne, hname ▸ hparts, ?_⟩
        rw [nameType, if_neg fun hcond => hreserved hcond.2]
    case isFalse hplain =>
      refine ⟨by simp, ?_⟩
      rintro _ ⟨rfl⟩
      refine ⟨text, required, h.buffers _ _, hne, hname ▸ hparts, ?_⟩
      rw [nameType, if_neg fun hcond => hplain (by simp [hcond.1])]

/-! ## Strings -/

/-- Recording at the end of a scan. -/
theorem Scans.record {l l' : Lexer} {text : List UChar} (h : Scans l text l') (value : List UChar) :
    Scans l text { l' with buffer16 := l'.buffer16 ++ value } := h.buffers _ _

theorem octalDigit_value {c : UChar} (h : isASCIIOctalDigit c.toNat = true) :
    ((digitValue (Char.ofNat c.toNat) : Nat) : Int) = (c.toNat : Int) - chr '0' ∧
      digitValue (Char.ofNat c.toNat) < 8 := by
  have hall : ∀ n < 256, isASCIIOctalDigit (n : Nat) = true →
      ((digitValue (Char.ofNat n) : Nat) : Int) = (n : Int) - chr '0' ∧
        digitValue (Char.ofNat n) < 8 := by decide +kernel
  have hrange := (octalDigit_range h).2
  exact hall c.toNat (by omega) h

theorem octalUnit_eq (digits : List UChar) {value : Int}
    (h : value = digitsValue 8 (charsOf digits)) : value.toNat.toUInt16 = octalUnit digits := by
  rw [h]
  rfl

theorem octal_value_two {c₁ c₂ : UChar} (h₁ : isASCIIOctalDigit c₁.toNat = true)
    (h₂ : isASCIIOctalDigit c₂.toNat = true) :
    ((c₁.toNat : Int) - chr '0') * 8 + c₂.toNat - chr '0' =
      digitsValue 8 (charsOf ([c₁] ++ [c₂])) := by
  have hv₁ := octalDigit_value h₁
  have hv₂ := octalDigit_value h₂
  simp only [charsOf_append, digitsValue_append, charsOf_single, digitsValue_single,
    List.length_singleton, Nat.cast_add, Nat.cast_mul, hv₁.1, hv₂.1]
  omega

theorem octal_value_three {c₁ c₂ c₃ : UChar} (h₁ : isASCIIOctalDigit c₁.toNat = true)
    (h₂ : isASCIIOctalDigit c₂.toNat = true) (h₃ : isASCIIOctalDigit c₃.toNat = true) :
    ((c₁.toNat : Int) - chr '0') * 64 + (c₂.toNat - chr '0') * 8 + c₃.toNat - chr '0' =
      digitsValue 8 (charsOf ([c₁] ++ [c₂] ++ [c₃])) := by
  have hv₁ := octalDigit_value h₁
  have hv₂ := octalDigit_value h₂
  have hv₃ := octalDigit_value h₃
  simp only [charsOf_append, digitsValue_append, charsOf_single, digitsValue_single,
    List.length_singleton, Nat.cast_add, Nat.cast_mul, hv₁.1, hv₂.1, hv₃.1]
  omega

/-- The character that the text begins with is the current one. -/
theorem Valid.current_of_head {l : Lexer} (hv : l.Valid) {d : UChar}
    (hd : l.code.head? = some d) : l.current = d.toNat := by
  unfold Valid at hv
  cases hc : l.code with
  | nil => simp [hc] at hd
  | cons c rest =>
      rw [hc] at hv hd
      cases hd
      exact hv

/-- The text at a closing quote. -/
theorem Valid.quote_code {l : Lexer} (hv : l.Valid) {quote : UChar}
    (h : l.current = quote.toNat) : ∃ rest, l.code = quote :: rest := by
  obtain ⟨c, hc, hcode⟩ := hv.code_eq (by rw [h]; omega)
  have hc : c = quote := UInt16.toNat_inj.mp (Int.ofNat_inj.mp (hc.symm.trans h))
  exact ⟨_, hc ▸ hcode⟩

/-- What `parseEscape` reads and records. -/
theorem parseEscape_scans {quote : UChar} {l : Lexer} (hv : l.Valid) :
    Yields (parseEscape quote.toNat) l fun ok l' => ok = true → ∃ text value,
      Scans l text l' ∧ l'.buffer16 = l.buffer16 ++ value ∧
        Escape quote text value l'.code := by
  have hkeep : ∀ {text value} {l' : Lexer}, Takes l text l' → Escape quote text value l'.code →
      ∃ text value', Scans l text { l' with buffer16 := l'.buffer16 ++ value } ∧
        l'.buffer16 ++ value = l.buffer16 ++ value' ∧ Escape quote text value' l'.code :=
    fun {text value l'} h he => ⟨text, value, h.scans.record value, by rw [h.buffer16], he⟩
  simp only [parseEscape, yields_bind, yields_getCurrent, yields_ite, yields_record16,
    yields_shift, yields_pure, yields_peek]
  split
  case isTrue hescape =>
    intro _ _ hne _
    obtain ⟨c, hc, h⟩ := hv.shift hne
    rw [hc] at hescape ⊢
    exact hkeep h (.single hescape)
  case isFalse hescape =>
  split
  case isTrue =>
    refine (shiftLineTerminator_takes hv).mono ?_
    rintro _ l' ⟨eol, heol, h⟩ _
    exact ⟨eol, [], h.scans, by rw [h.buffer16, List.append_nil], .continuation heol⟩
  case isFalse hline =>
  split
  case isTrue hx =>
    intro hne
    have h := hv.shift_chr hx
    have hend := end_not_class.2.2.1
    split
    case isTrue hdigits =>
      simp only [Bool.and_eq_true] at hdigits
      obtain ⟨h0, h1⟩ := hdigits
      have hcurrent : l.advance.current = codeUnit (l.advance.code.drop 0) := rfl
      rw [hcurrent] at h0
      obtain ⟨c₀, hc₀, e₀⟩ := code_drop hend h0
      obtain ⟨c₁, hc₁, e₁⟩ := code_drop hend h1
      have hcurrent' : l.advance.advance.current = c₁.toNat := by
        rw [← hc₁]
        simp only [advance, ← List.drop_one, List.drop_drop]
      intro _
      rw [hcurrent, hc₀, hcurrent']
      refine convertHex_yields.mono ?_
      rintro n _ ⟨hn, hd, rfl⟩ _ _ _ _
      rw [← hexUnit_toNat hd (show 2 ≤ 4 by decide)] at hn
      have h' : Takes l (identifierOfChars ['x'] ++ [c₀, c₁]) l.advance.advance.advance := by
        refine h.trans ⟨advance_skipped.trans advance_skipped, ?_⟩
        rw [List.drop_zero] at e₀
        rw [e₀, e₁]
        simp only [advance, ← List.drop_one, List.drop_drop, List.cons_append, List.nil_append]
      rw [hn, recorded_unit]
      exact hkeep h' (.hex hd rfl)
    case isFalse hdigits =>
      intro _ _ _
      refine hkeep h (.noHex ?_)
      rintro ⟨hd, hlen⟩
      refine hdigits ?_
      match hrest : l.advance.code, hlen with
      | d₀ :: d₁ :: rest, _ =>
          rw [hrest] at hd
          rw [show l.advance.current = codeUnit l.advance.code from rfl, hrest]
          exact Bool.and_eq_true_iff.mpr ⟨hd d₀ (by simp), hd d₁ (by simp)⟩
  case isFalse hx =>
  split
  case isTrue hu =>
    intro hne
    have h := hv.shift_chr hu
    refine (getUnicodeCharacter_takes h.valid).mono ?_
    rintro character l' (⟨rfl, rfl, -⟩ | ⟨digits, hd, hlen, rfl, h'⟩)
    · split
      case isTrue hquote => exact absurd rfl hquote
      case isFalse =>
      split
      case isTrue hquote =>
        intro _ _ _
        refine hkeep h ?_
        obtain ⟨rest, hrest⟩ := h.valid.quote_code hquote
        rw [hrest]
        exact .noUnicode
      case isFalse => exact fun h => by cases h
    · rw [if_pos (by omega)]
      intro _ _ _
      rw [recorded_unit]
      exact hkeep (h.trans h') (.unicode hd hlen)
  case isFalse hu =>
  split
  case isTrue hoctal =>
    intro hne
    obtain ⟨c₁, hc₁, h₁⟩ := hv.shift hne
    rw [hc₁] at hoctal ⊢
    have hv₁ := octalDigit_value hoctal
    have h48 : chr '0' = 48 := rfl
    split
    case isFalse hend =>
      intro _ _ _
      rw [octalUnit_eq [c₁] (by simp [charsOf, digitsValue, hv₁.1])]
      refine hkeep h₁ (.octal (by simpa [OctalDigits] using hoctal) (by simp) (by simp) ?_ ?_)
      · have hv := hv₁.2
        simp only [charsOf, List.map_cons, List.map_nil, digitsValue, List.foldl_cons, List.foldl_nil]
        omega
      · intro d hd
        right; left
        rw [h₁.valid.current_of_head hd] at hend
        simpa using hend
    case isTrue hoctal₂ =>
    intro hne₂
    obtain ⟨c₂, hc₂, h₂⟩ := h₁.valid.shift hne₂
    rw [hc₂] at hoctal₂ ⊢
    have hv₂ := octalDigit_value hoctal₂
    split
    case isTrue hthird =>
      obtain ⟨-, hc₁3, hoctal₃⟩ := hthird
      intro _ _ hne₃ _
      obtain ⟨c₃, hc₃, h₃⟩ := h₂.valid.shift hne₃
      rw [hc₃] at hoctal₃ ⊢
      have hv₃ := octalDigit_value hoctal₃
      have hvalue := octal_value_three hoctal hoctal₂ hoctal₃
      rw [octalUnit_eq _ hvalue]
      refine hkeep ((h₁.trans h₂).trans h₃) (.octal ?_ (by simp) (by simp) ?_ ?_)
      · simp [OctalDigits, hoctal, hoctal₂, hoctal₃]
      · have h51 : chr '3' = 51 := rfl
        omega
      · intro _ _
        left
        rfl
    case isFalse hthird =>
      intro _ _ _
      have hvalue := octal_value_two hoctal hoctal₂
      rw [octalUnit_eq _ hvalue]
      refine hkeep (h₁.trans h₂) (.octal ?_ (by simp) (by simp) ?_ ?_)
      · simp [OctalDigits, hoctal, hoctal₂]
      · omega
      · intro d hd
        right
        rw [h₂.valid.current_of_head hd] at hthird
        by_cases hoctal₃ : isASCIIOctalDigit d.toNat = true
        · right
          have h51 : chr '3' = 51 := rfl
          have hlarge : chr '3' < c₁.toNat := by
            by_contra h3
            exact hthird ⟨by omega, by omega, hoctal₃⟩
          rw [charsOf_append, digitsValue_append]
          simp only [charsOf_single, digitsValue_single, List.length_singleton]
          omega
        · left
          simpa using hoctal₃
  case isFalse hoctal =>
  split
  case isTrue hne =>
    intro _ _ _ _
    obtain ⟨c, hc, h⟩ := hv.shift hne
    rw [hc] at hescape hline hx hu hoctal ⊢
    rw [ne_eq, not_not] at hescape
    simp only [recorded_unit]
    exact hkeep h (.plain ⟨hescape, by simpa using hline, hx, hu, by simpa using hoctal⟩)
  case isFalse hne => exact fun h => by cases h

/-- The bit trick singles out the line terminators. -/
theorem needsSpecialHandling_of_line {c : Int} (h : isLineTerminator c = true) :
    needsSpecialHandling c = true := by
  simp only [isLineTerminator, Bool.or_eq_true, beq_iff_eq] at h
  rcases h with ((rfl | rfl) | rfl) | rfl <;> decide

/-- What `stringLoop` reads: `seg` is the part of the value that is not in the buffer yet. -/
theorem stringLoop_scans {quote : UChar} (n : Nat) (seg : List UChar) {l : Lexer} (hv : l.Valid) :
    Yields (stringLoop quote.toNat (seg ++ l.code) n) l fun r l' => ∀ start ∈ r,
      ∃ text value seg', Scans l text l' ∧ StringChars quote text value ∧
        start = seg' ++ l'.code ∧ l'.current = quote.toNat ∧
          l'.buffer16 ++ seg' = l.buffer16 ++ seg ++ value := by
  induction n generalizing seg l with
  | zero => simp [stringLoop]
  | succ n ih =>
      simp only [stringLoop, yields_bind, yields_getCurrent, yields_ite, yields_shift,
        yields_appendSegment, segment_append]
      split
      case isTrue hquote =>
        refine (yields_pure _).mpr ?_
        rintro start ⟨rfl⟩
        exact ⟨[], [], seg, (Takes.refl hv).scans, .nil, rfl, hquote, by simp⟩
      case isFalse hquote =>
      split
      case isTrue hslash =>
        intro hne
        -- the segment before the escape moves to the buffer
        let l₁ : Lexer := { l with buffer16 := l.buffer16 ++ seg }
        have hv₁ : l₁.Valid := hv
        have h₁ : Scans l [] l₁ := (Takes.refl hv).scans.buffers l.buffer8 (l.buffer16 ++ seg)
        have h₂ := h₁.trans (hv₁.shift_chr hslash).scans
        refine (parseEscape_scans h₂.valid).mono fun ok l₃ h => ?_
        split
        case isFalse => exact (yields_pure _).mpr (by simp)
        case isTrue hok =>
        obtain ⟨escape, value, h₃, hbuffer, hescape⟩ := h hok
        rw [yields_currentCharacter]
        refine (ih [] (h₂.trans h₃).valid).mono ?_
        rintro r l' h start hstart
        obtain ⟨text, value', seg', h₄, hchars, rfl, hquote', happ⟩ := h start hstart
        refine ⟨_, value ++ value', seg', (h₂.trans h₃).trans h₄, ?_, rfl, hquote', ?_⟩
        · obtain ⟨rest, hrest⟩ := h₄.valid.quote_code hquote'
          rw [h₄.code, hrest] at hescape
          exact .escape hescape.cut hchars
        · rw [happ, hbuffer]
          simp [advance, l₁]
      case isFalse hslash =>
      split
      case isTrue => exact (yields_pure _).mpr (by simp)
      case isFalse hline =>
        intro hne
        obtain ⟨c, hc, hshift⟩ := hv.shift hne
        have hcode : seg ++ l.code = (seg ++ [c]) ++ l.advance.code := by
          rw [hshift.code, List.append_assoc]
        rw [hcode]
        refine (ih (seg ++ [c]) hshift.valid).mono ?_
        rintro r l' h start hstart
        obtain ⟨text, value, seg', h, hchars, rfl, hquote', happ⟩ := h start hstart
        refine ⟨[c] ++ text, [c] ++ value, seg', hshift.scans.trans h, ?_, rfl, hquote', ?_⟩
        · rw [hc] at hquote hslash hline
          refine .char (fun h => hquote (by rw [h])) hslash ?_ hchars
          cases h : isLineTerminator c.toNat with
          | false => rfl
          | true => exact absurd (by simp [h, needsSpecialHandling_of_line h]) hline
        · rw [happ]
          simp [advance]

/-- What `parseString` reads, up to the closing quote, and the value it answers. -/
theorem parseString_scans {l : Lexer} (hv : l.Valid) (hbuffer : l.buffer16 = []) :
    Yields parseString l fun r l' => ∀ value ∈ r, ∃ quote text,
      l.current = UInt16.toNat quote ∧ Scans l (quote :: text) l' ∧
        l'.current = UInt16.toNat quote ∧ StringChars quote text value := by
  simp only [parseString, yields_bind, yields_getCurrent, yields_shift, yields_currentCharacter,
    yields_bound]
  intro hne
  obtain ⟨quote, hquote, hshift⟩ := hv.shift hne
  rw [hquote]
  refine (stringLoop_scans _ [] hshift.valid).mono ?_
  rintro (_ | start) l' hloop
  · exact (yields_pure _).mpr (by simp)
  · obtain ⟨text, value, seg, h, hchars, rfl, hquote', happ⟩ := hloop start rfl
    simp only [yields_bind, yields_appendSegment, yields_get, yields_clearBuffer16, yields_pure,
      segment_append]
    rintro _ ⟨rfl⟩
    have happ : l'.buffer16 ++ seg = value := by
      rw [happ]
      simp [advance, hbuffer]
    rw [happ]
    exact ⟨quote, text, rfl, (hshift.scans.trans h).buffers _ _, hquote', hchars⟩

end Lexer

end HammerJS
