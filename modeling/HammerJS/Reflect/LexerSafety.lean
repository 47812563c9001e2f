import HammerJS.Procs.Total
import HammerJS.Reflect.Lex

/-!
# The lexer does not crash

The scanning routines, started where `lex` starts them, pass all their
assertions, stay inside the text and come to an end.

* `Lexer.Valid`, `Lexer.Idle` — what holds of the lexer between two tokens.
* `Lexer.Moved` — what every routine keeps while it reads on.
* `Lexer.lex_succeeds` — `lex` on an idle lexer returns a token; what it says of
  the token and of the lexer is all that the parser needs.
-/

namespace HammerJS

open Procs

namespace Lexer

/-! ## Characters -/

theorem codeUnit_eq_neg_one {code : List UChar} : codeUnit code = -1 ↔ code = [] := by
  cases code with
  | nil => simp [codeUnit]
  | cons c rest => simp [codeUnit]

theorem codeUnit_range (code : List UChar) : -1 ≤ codeUnit code ∧ codeUnit code ≤ 0xFFFF := by
  cases code with
  | nil => simp [codeUnit]
  | cons c rest => have := c.toNat_lt; simp only [codeUnit]; omega

/-- The classes that no loop leaves the text with: the end marker is in none of them. -/
theorem end_not_class : isIdentPart (-1) = false ∧ isIdentStart (-1) = false ∧
    isASCIIHexDigit (-1) = false ∧ isASCIIDigit (-1) = false ∧
    isASCIIOctalDigit (-1) = false ∧ isWhiteSpace (-1) = false ∧
    isLineTerminator (-1) = false := by decide

/-- A character of a class that the end marker is not in. -/
theorem ne_end_of {p : Int → Bool} (hp : p (-1) = false) {c : Int} (hc : p c = true) : c ≠ -1 := by
  rintro rfl
  simp [hp] at hc

theorem hexValue_lt {c : Int} (h : isASCIIHexDigit c = true) : hexValue c < 16 := by
  have hA : chr 'A' = 65 := rfl
  have h0 : chr '0' = 48 := rfl
  have h9 : chr '9' = 57 := rfl
  have ha : chr 'a' = 97 := rfl
  simp only [isASCIIHexDigit, h0, h9, ha, Bool.or_eq_true, Bool.and_eq_true,
    decide_eq_true_eq] at h
  simp only [hexValue, hA, h0]
  split
  case isFalse => omega
  case isTrue hc =>
    rcases h with h | ⟨h, -⟩
    · omega
    · -- setting bit 5 does not take a character below `A` up to `a`
      have hlow : ∀ n < 65, ¬ 97 ≤ n ||| 0x20 := by decide
      simp only [orBit20] at h
      split at h
      · omega
      · exact absurd (by exact_mod_cast h) (hlow c.toNat (by omega))

/-! ## What routines keep -/

/-- `m_current` is the character at `m_code`. -/
def Valid (l : Lexer) : Prop := l.current = codeUnit l.code

/-- Between two tokens: no error, and nothing in the buffers. -/
structure Idle (l : Lexer) : Prop where
  valid : l.Valid
  error : l.error = false
  buffer8 : l.buffer8 = []
  buffer16 : l.buffer16 = []

/-- Reading from `l` has led to `l'`; the flags are as they were. -/
structure Moved (l l' : Lexer) : Prop where
  valid : l'.Valid
  codeStart : l'.codeStart = l.codeStart
  error : l'.error = l.error
  terminator : l'.terminator = l.terminator
  atLineStart : l'.atLineStart = l.atLineStart
  lastToken : l'.lastToken = l.lastToken
  suffix : l'.code <:+ l.code

theorem Moved.refl {l : Lexer} (h : l.Valid) : Moved l l :=
  ⟨h, rfl, rfl, rfl, rfl, rfl, List.suffix_rfl⟩

theorem Moved.trans {l l' l'' : Lexer} (h : Moved l l') (h' : Moved l' l'') : Moved l l'' :=
  ⟨h'.valid, h'.codeStart.trans h.codeStart, h'.error.trans h.error,
    h'.terminator.trans h.terminator, h'.atLineStart.trans h.atLineStart,
    h'.lastToken.trans h.lastToken, h'.suffix.trans h.suffix⟩

theorem Moved.length_le {l l' : Lexer} (h : Moved l l') : l'.code.length ≤ l.code.length :=
  h.suffix.length_le

/-- The lexer one character further. -/
def advance (l : Lexer) : Lexer := { l with code := l.code.tail, current := codeUnit l.code.tail }

theorem advance_moved {l : Lexer} : Moved l l.advance :=
  ⟨rfl, rfl, rfl, rfl, rfl, rfl, List.tail_suffix l.code⟩

theorem advance_length {l : Lexer} (hv : l.Valid) (h : l.current ≠ -1) :
    l.advance.code.length + 1 = l.code.length := by
  have hne : l.code ≠ [] := fun he => h (by rw [hv, he]; rfl)
  cases hc : l.code with
  | nil => exact absurd hc hne
  | cons c rest => simp [advance, hc]

/-- A change of the buffers alone. -/
theorem Moved.buffers {l l' : Lexer} (h : Moved l l') (b8 : List Char) (b16 : List UChar) :
    Moved l { l' with buffer8 := b8, buffer16 := b16 } :=
  ⟨h.valid, h.codeStart, h.error, h.terminator, h.atLineStart, h.lastToken, h.suffix⟩

theorem Valid.current_range {l : Lexer} (h : l.Valid) : -1 ≤ l.current ∧ l.current ≤ 0xFFFF := by
  rw [h]
  exact codeUnit_range l.code

/-! ## Single steps -/

section Steps

variable {l : Lexer}

@[simp] theorem succeeds_assert {c : Bool} {e : Crash} {Q : Unit → Lexer → Prop} :
    Succeeds (assert c e) l Q ↔ c = true ∧ Q () l := by
  cases c <;> simp [assert]

@[simp] theorem succeeds_getCurrent {Q : Int → Lexer → Prop} :
    Succeeds getCurrent l Q ↔ Q l.current l := by simp [getCurrent]

@[simp] theorem succeeds_currentCharacter {Q : List UChar → Lexer → Prop} :
    Succeeds currentCharacter l Q ↔ Q l.code l := by simp [currentCharacter]

@[simp] theorem succeeds_currentOffset {Q : Nat → Lexer → Prop} :
    Succeeds currentOffset l Q ↔ Q (l.codeStart.length - l.code.length) l := by
  simp [currentOffset]

@[simp] theorem succeeds_peek {n : Nat} {Q : Int → Lexer → Prop} :
    Succeeds (peek n) l Q ↔ Q (codeUnit (l.code.drop n)) l := by simp [peek]

@[simp] theorem succeeds_bound {Q : Nat → Lexer → Prop} :
    Succeeds bound l Q ↔ Q (l.code.length + 1) l := by simp [bound]

@[simp] theorem succeeds_shift {Q : Unit → Lexer → Prop} :
    Succeeds shift l Q ↔ l.current ≠ -1 ∧ Q () l.advance := by
  simp [shift, advance]

@[simp] theorem succeeds_record8 {c : Int} {Q : Unit → Lexer → Prop} :
    Succeeds (record8 c) l Q ↔
      (0 ≤ c ∧ c ≤ 0xFF) ∧ Q () { l with buffer8 := l.buffer8 ++ [Char.ofNat c.toNat] } := by
  simp [record8]

@[simp] theorem succeeds_record16 {c : Int} {Q : Unit → Lexer → Prop} :
    Succeeds (record16 c) l Q ↔
      (0 ≤ c ∧ c ≤ 0xFFFF) ∧ Q () { l with buffer16 := l.buffer16 ++ [c.toNat.toUInt16] } := by
  simp [record16]

@[simp] theorem succeeds_appendSegment {start : List UChar} {Q : Unit → Lexer → Prop} :
    Succeeds (appendSegment start) l Q ↔
      Q () { l with buffer16 := l.buffer16 ++ segment start l.code } := by
  simp [appendSegment]

@[simp] theorem succeeds_clearBuffer8 {Q : Unit → Lexer → Prop} :
    Succeeds clearBuffer8 l Q ↔ Q () { l with buffer8 := [] } := by simp [clearBuffer8]

@[simp] theorem succeeds_clearBuffer16 {Q : Unit → Lexer → Prop} :
    Succeeds clearBuffer16 l Q ↔ Q () { l with buffer16 := [] } := by simp [clearBuffer16]

@[simp] theorem succeeds_lastTokenWasRestrKeyword {Q : Bool → Lexer → Prop} :
    Succeeds lastTokenWasRestrKeyword l Q ↔
      Q (l.lastToken == some .continue || l.lastToken == some .break ||
        l.lastToken == some .return || l.lastToken == some .throw) l := by
  simp [lastTokenWasRestrKeyword]

end Steps

/-! ## Loops -/

/-- Reading on without touching the buffers. -/
structure Skipped (l l' : Lexer) : Prop extends Moved l l' where
  buffer8 : l'.buffer8 = l.buffer8
  buffer16 : l'.buffer16 = l.buffer16

theorem Skipped.refl {l : Lexer} (h : l.Valid) : Skipped l l := ⟨.refl h, rfl, rfl⟩

theorem Skipped.trans {l l' l'' : Lexer} (h : Skipped l l') (h' : Skipped l' l'') :
    Skipped l l'' :=
  ⟨h.toMoved.trans h'.toMoved, h'.buffer8.trans h.buffer8, h'.buffer16.trans h.buffer16⟩

theorem advance_skipped {l : Lexer} : Skipped l l.advance := ⟨advance_moved, rfl, rfl⟩

/-- The rule for loops: what the body keeps while it reads something, the loop
keeps, and it comes to an end. -/
theorem whileCurrent_succeeds {cond : Int → Bool} {body : LexM Unit} {I : Lexer → Prop}
    (hbody : ∀ l, I l → cond l.current = true →
      Succeeds body l fun _ l' => I l' ∧ l'.code.length < l.code.length)
    (n : Nat) (l : Lexer) (hI : I l) (hn : l.code.length < n) :
    Succeeds (whileCurrent cond body n) l fun _ l' => I l' ∧ cond l'.current = false := by
  induction n generalizing l with
  | zero => omega
  | succ n ih =>
      simp only [whileCurrent, succeeds_bind, succeeds_getCurrent, succeeds_ite]
      split
      case isFalse hc => exact (succeeds_pure _).mpr ⟨hI, by simpa using hc⟩
      case isTrue hc =>
          refine (hbody l hI hc).mono fun _ l' h => ?_
          exact ih l' h.1 (by omega)

/-- A loop that skips the characters of a class. -/
theorem whileShift_succeeds {cond : Int → Bool} (hend : cond (-1) = false) {l : Lexer}
    (hv : l.Valid) {n : Nat} (hn : l.code.length < n) :
    Succeeds (whileCurrent cond shift n) l fun _ l' => Skipped l l' ∧ cond l'.current = false := by
  refine whileCurrent_succeeds (I := Skipped l) (fun l₁ h hc => ?_) n l (.refl hv) hn
  have hne := ne_end_of hend hc
  rw [succeeds_shift]
  exact ⟨hne, h.trans advance_skipped, by have := advance_length h.valid hne; omega⟩

/-- Reading from `l` to `l'` with `m_buffer16` untouched. -/
structure Recorded (l l' : Lexer) : Prop extends Moved l l' where
  buffer16 : l'.buffer16 = l.buffer16

theorem Recorded.refl {l : Lexer} (h : l.Valid) : Recorded l l := ⟨.refl h, rfl⟩

theorem Recorded.trans {l l' l'' : Lexer} (h : Recorded l l') (h' : Recorded l' l'') :
    Recorded l l'' :=
  ⟨h.toMoved.trans h'.toMoved, h'.buffer16.trans h.buffer16⟩

theorem Skipped.recorded {l l' : Lexer} (h : Skipped l l') : Recorded l l' :=
  ⟨h.toMoved, h.buffer16⟩

theorem Recorded.append {l l' : Lexer} (h : Recorded l l') (c : List Char) :
    Recorded l { l' with buffer8 := c } :=
  ⟨h.toMoved.buffers c l'.buffer16, h.buffer16⟩

/-- A loop that reads the characters of a class of Latin-1 characters. -/
theorem recordWhile_succeeds {cond : Int → Bool} (hend : cond (-1) = false)
    (hrange : ∀ c, cond c = true → 0 ≤ c ∧ c ≤ 0xFF) {l : Lexer} (hv : l.Valid) :
    Succeeds (recordWhile cond) l fun _ l' => Recorded l l' ∧
      (cond l.current = true → l'.code.length < l.code.length) := by
  let I : Lexer → Prop := fun l' => Recorded l l' ∧ (l' = l ∨ l'.code.length < l.code.length)
  simp only [recordWhile, succeeds_bind, succeeds_bound]
  refine (whileCurrent_succeeds (I := I) (fun l₁ h hc => ?_) _ l ⟨.refl hv, Or.inl rfl⟩
    (by omega)).mono ?_
  · have hne := ne_end_of hend hc
    have hlen := advance_length h.1.valid hne
    have hle := h.1.length_le
    simp only [succeeds_bind, succeeds_getCurrent, succeeds_record8, succeeds_shift]
    refine ⟨hrange _ hc, hne, ⟨h.1.trans ((advance_skipped.recorded).append _), Or.inr ?_⟩, ?_⟩ <;>
    · simp only [advance] at hlen ⊢
      omega
  · rintro _ l' ⟨⟨h, hlt⟩, hc'⟩
    refine ⟨h, fun hc => ?_⟩
    rcases hlt with rfl | hlt
    · rw [hc] at hc'
      cases hc'
    · exact hlt

/-- A line terminator is read. -/
theorem shiftLineTerminator_succeeds {l : Lexer} (hv : l.Valid)
    (h : isLineTerminator l.current = true) :
    Succeeds shiftLineTerminator l fun _ l' =>
      Skipped l l' ∧ l'.code.length < l.code.length := by
  have hne := ne_end_of end_not_class.2.2.2.2.2.2 h
  have hlen := advance_length hv hne
  simp only [shiftLineTerminator, succeeds_bind, succeeds_getCurrent, succeeds_assert,
    succeeds_shift, succeeds_ite]
  refine ⟨h, hne, ?_⟩
  split
  case isFalse =>
    simp only [succeeds_modify]
    exact ⟨⟨⟨rfl, rfl, rfl, rfl, rfl, rfl, List.tail_suffix _⟩, rfl, rfl⟩, by
      simp only [advance] at hlen ⊢; omega⟩
  case isTrue hsum =>
    have hne' : l.advance.current ≠ -1 := by
      intro he
      rw [he] at hsum
      have hv' := hv.current_range
      simp only [isLineTerminator, chr] at h hsum
      simp at h hsum
      omega
    have hlen' := advance_length (l := l.advance) rfl hne'
    simp only [succeeds_modify]
    refine ⟨hne', ⟨⟨rfl, rfl, rfl, rfl, rfl, rfl, ?_⟩, rfl, rfl⟩, ?_⟩
    · exact (List.tail_suffix _).trans (List.tail_suffix _)
    · simp only [advance] at hlen hlen' ⊢; omega

/-! ## Escapes and identifiers -/

/-- A character that is to be recorded. -/
def Recordable (c : Int) : Prop := 0 ≤ c ∧ c ≤ 0xFFFF

theorem convertHex_succeeds {c1 c2 : Int} (h1 : isASCIIHexDigit c1 = true)
    (h2 : isASCIIHexDigit c2 = true) {l : Lexer} :
    Succeeds (convertHex c1 c2) l fun n l' => n < 256 ∧ l' = l := by
  have := hexValue_lt h1
  have := hexValue_lt h2
  simp only [convertHex, succeeds_bind, succeeds_assert, succeeds_pure, and_true]
  exact ⟨h1, h2, by omega⟩

theorem getUnicodeCharacter_succeeds {l : Lexer} (hv : l.Valid) :
    Succeeds getUnicodeCharacter l fun c l' => Skipped l l' ∧ (c ≠ -1 → Recordable c) := by
  simp only [getUnicodeCharacter, succeeds_bind, succeeds_getCurrent, succeeds_peek, succeeds_ite]
  split
  case isTrue => exact (succeeds_pure _).mpr ⟨.refl hv, fun h => absurd rfl h⟩
  case isFalse h =>
    simp only [Bool.or_eq_true, Bool.not_eq_true', not_or, Bool.not_eq_false] at h
    obtain ⟨⟨⟨h0, h1⟩, h2⟩, h3⟩ := h
    have hend := end_not_class.2.2.1
    simp only [convertUnicode, succeeds_bind]
    refine (convertHex_succeeds h0 h1).mono ?_
    rintro n l' ⟨hn, rfl⟩
    refine (convertHex_succeeds h2 h3).mono ?_
    rintro m l' ⟨hm, rfl⟩
    simp only [succeeds_pure, succeeds_shift]
    refine ⟨ne_end_of hend h0, ?_, ?_, ?_, ?_, fun _ => ?_⟩
    · simpa only [advance, ← List.drop_one] using ne_end_of hend h1
    · simpa only [advance, ← List.drop_one, List.drop_drop] using ne_end_of hend h2
    · simpa only [advance, ← List.drop_one, List.drop_drop] using ne_end_of hend h3
    · exact advance_skipped.trans (advance_skipped.trans (advance_skipped.trans advance_skipped))
    · simp only [Recordable]; omega

/-- What a routine that appends to `m_buffer16` keeps. -/
structure Appended (l l' : Lexer) : Prop extends Moved l l' where
  buffer8 : l'.buffer8 = l.buffer8
  buffer16 : l.buffer16 <+: l'.buffer16

theorem Appended.trans {l l' l'' : Lexer} (h : Appended l l') (h' : Appended l' l'') :
    Appended l l'' :=
  ⟨h.toMoved.trans h'.toMoved, h'.buffer8.trans h.buffer8, h.buffer16.trans h'.buffer16⟩

theorem Skipped.appended {l l' : Lexer} (h : Skipped l l') : Appended l l' :=
  ⟨h.toMoved, h.buffer8, h.buffer16 ▸ List.prefix_rfl⟩

theorem Appended.append {l l' : Lexer} (h : Appended l l') (cs : List UChar) :
    Appended l { l' with buffer16 := l'.buffer16 ++ cs } :=
  ⟨h.toMoved.buffers l'.buffer8 _, h.buffer8, h.buffer16.trans (List.prefix_append _ _)⟩

/-- The loop of `parseIdentifier`: without an escape nothing is buffered, and
after one the buffer is not empty. -/
theorem identifierLoop_succeeds (n : Nat) (required : Bool) (start : List UChar) (l : Lexer)
    (hv : l.Valid) (hn : l.code.length < n) (hreq : required = true → l.buffer16 ≠ []) :
    Succeeds (identifierLoop required start n) l fun r l' => Appended l l' ∧
      (isIdentPart l.current = true ∨ l.current = chr '\\' → l'.code.length < l.code.length) ∧
      ∀ required' start', r = some (required', start') →
        (required' = true → l'.buffer16 ≠ []) ∧
        (required' = false → required = false ∧ start' = start ∧ l'.buffer16 = l.buffer16) := by
  induction n generalizing required start l with
  | zero => omega
  | succ n ih =>
      simp only [identifierLoop, succeeds_bind, succeeds_getCurrent, succeeds_ite,
        succeeds_appendSegment, succeeds_shift, succeeds_get, succeeds_record16,
        succeeds_currentCharacter, succeeds_pure]
      split
      case isTrue hpart =>
        have hne := ne_end_of end_not_class.1 hpart
        have hlen := advance_length hv hne
        refine ⟨hne, (ih required start l.advance rfl (by omega) hreq).mono ?_⟩
        rintro r l' ⟨happ, -, hr⟩
        have := happ.length_le
        exact ⟨advance_skipped.appended.trans happ, fun _ => by omega, hr⟩
      case isFalse hpart =>
        split
        case isTrue hslash =>
          refine ⟨(Skipped.refl hv).appended, fun h => ?_, fun required' start' h => ?_⟩
          · exact absurd h (by simp [hpart, hslash])
          · cases h
            exact ⟨hreq, fun h => ⟨h, by simp⟩⟩
        case isFalse hslash =>
          have hslash : l.current = chr '\\' := not_not.mp hslash
          have hne : l.current ≠ -1 := by rw [hslash]; decide
          have hlen := advance_length hv hne
          refine ⟨hne, ?_⟩
          have h₁ : Appended l (advance { l with buffer16 := l.buffer16 ++ segment start l.code }) :=
            ((Skipped.refl hv).appended.append _).trans advance_skipped.appended
          have hlen₁ : (advance { l with buffer16 := l.buffer16 ++ segment start l.code }).code.length
              < l.code.length := by
            simp only [advance] at hlen ⊢
            omega
          generalize advance { l with buffer16 := l.buffer16 ++ segment start l.code } = l₁
            at h₁ hlen₁ ⊢
          split
          case isTrue => exact ⟨h₁, fun _ => hlen₁, by simp⟩
          case isFalse hu =>
            have hne₁ : l₁.current ≠ -1 := by rw [not_not.mp hu]; decide
            have hlen₂ := advance_length h₁.valid hne₁
            refine ⟨hne₁, (getUnicodeCharacter_succeeds (l := l₁.advance) rfl).mono ?_⟩
            rintro c l₂ ⟨hskip, hc⟩
            have h₂ : Appended l l₂ :=
              h₁.trans (advance_skipped.appended.trans hskip.appended)
            have := hskip.length_le
            have hlt : l₂.code.length < l.code.length := by omega
            split
            case isTrue => exact ⟨h₂, fun _ => hlt, by simp⟩
            case isFalse hc' =>
              generalize (if l₂.buffer16.length ≠ 0 then !isIdentPart c else !isIdentStart c) = bad
              cases bad with
              | true => exact ⟨h₂, fun _ => hlt, by simp⟩
              | false =>
                refine ⟨hc hc', ?_⟩
                refine (ih true _ { l₂ with buffer16 := l₂.buffer16 ++ [c.toNat.toUInt16] }
                  h₂.valid (by change l₂.code.length < n; omega) (by simp)).mono ?_
                rintro r l₃ ⟨happ, -, hr⟩
                have hle : l₃.code.length ≤ l₂.code.length := happ.length_le
                refine ⟨(h₂.append _).trans happ, fun _ => by omega, fun required' start' h => ?_⟩
                exact ⟨(hr required' start' h).1, fun hf => by
                  cases ((hr required' start' h).2 hf).1⟩

/-- The name of an identifier is not empty, and nothing is left in the buffer. -/
theorem parseIdentifier_succeeds (lexType : LexType) {l : Lexer} (hv : l.Valid)
    (hstart : isIdentPart l.current = true ∨ l.current = chr '\\') :
    Succeeds (parseIdentifier lexType) l fun r l' => Moved l l' ∧ l'.buffer8 = l.buffer8 ∧
      l'.code.length < l.code.length ∧
      ((r.1 = .errorTok ∧ r.2 = none) ∨
        ∃ ident, r.2 = some ident ∧ ident ≠ [] ∧ (l.buffer16 = [] → l'.buffer16 = []) ∧
          (r.1 = .ident ∨ r.1 = testKeyword ident)) := by
  simp only [parseIdentifier, succeeds_bind, succeeds_currentCharacter, succeeds_bound]
  refine (identifierLoop_succeeds _ false l.code l hv (by omega) (by simp)).mono ?_
  rintro r l' ⟨happ, hlt, hr⟩
  have hlt := hlt hstart
  cases r with
  | none => exact (succeeds_pure _).mpr ⟨happ.toMoved, happ.buffer8, hlt, Or.inl ⟨rfl, rfl⟩⟩
  | some r =>
      obtain ⟨required, start⟩ := r
      obtain ⟨hne, hsame⟩ := hr required start rfl
      cases required with
      | false =>
          obtain ⟨-, rfl, hbuf'⟩ := hsame rfl
          have hident : segment l.code l'.code ≠ [] := by
            intro he
            have : (segment l.code l'.code).length = 0 := by rw [he]; rfl
            simp only [segment, List.length_take] at this
            omega
          simp only [Bool.not_false, if_true, succeeds_bind, succeeds_currentCharacter,
            succeeds_ite, succeeds_clearBuffer16]
          split
          case isTrue =>
            exact (succeeds_pure _).mpr ⟨happ.toMoved, happ.buffer8, hlt,
              Or.inr ⟨_, rfl, hident, hbuf'.trans, Or.inr rfl⟩⟩
          case isFalse =>
            exact (succeeds_pure _).mpr ⟨happ.toMoved.buffers _ _, happ.buffer8, hlt,
              Or.inr ⟨_, rfl, hident, fun _ => rfl, Or.inl rfl⟩⟩
      | true =>
          simp only [Bool.not_true, Bool.false_eq_true, if_false, succeeds_bind,
            succeeds_appendSegment, succeeds_get, succeeds_clearBuffer16]
          exact (succeeds_pure _).mpr ⟨happ.toMoved.buffers _ _, happ.buffer8, hlt,
            Or.inr ⟨_, rfl, by simp [hne rfl], fun _ => rfl, Or.inl rfl⟩⟩

/-! ## Strings -/

theorem singleEscape_recordable (c : Int) : Recordable (singleEscape c) := by
  simp only [singleEscape, Recordable]
  repeat' split
  all_goals decide

/-- A character that was read is recorded. -/
theorem recordable_of_ne_end {l : Lexer} (hv : l.Valid) (h : l.current ≠ -1) :
    Recordable l.current := by
  have := hv.current_range
  simp only [Recordable]
  omega

theorem octal_range {c : Int} (h : isASCIIOctalDigit c = true) : 48 ≤ c ∧ c ≤ 55 := by
  simp only [isASCIIOctalDigit, Bool.and_eq_true, decide_eq_true_eq] at h
  exact h

theorem parseEscape_succeeds (quote : Int) {l : Lexer} (hv : l.Valid) :
    Succeeds (parseEscape quote) l fun _ l' => Appended l l' := by
  have hrefl := (Skipped.refl hv).appended
  have hadv : Appended l l.advance := advance_skipped.appended
  simp only [parseEscape, succeeds_bind, succeeds_getCurrent, succeeds_ite, succeeds_record16,
    succeeds_shift, succeeds_peek, succeeds_pure]
  split
  case isTrue hesc =>
    have hne : l.current ≠ -1 := by
      intro he
      rw [he] at hesc
      exact hesc (by decide)
    exact ⟨singleEscape_recordable _, hne, (hrefl.append _).trans advance_skipped.appended⟩
  case isFalse =>
  split
  case isTrue hterm => exact (shiftLineTerminator_succeeds hv hterm).mono fun _ l' h => h.1.appended
  case isFalse =>
  split
  case isTrue hx =>
    have hne : l.current ≠ -1 := by rw [hx]; decide
    refine ⟨hne, ?_⟩
    split
    case isTrue hhex =>
      simp only [Bool.and_eq_true] at hhex
      obtain ⟨h1, h2⟩ := hhex
      have hend := end_not_class.2.2.1
      have h2' : isASCIIHexDigit l.advance.advance.current = true := by
        simpa only [advance, ← List.drop_one, List.drop_drop] using h2
      refine ⟨ne_end_of hend h1, (convertHex_succeeds h1 h2').mono ?_⟩
      rintro m l' ⟨hm, rfl⟩
      refine ⟨by omega, ne_end_of hend h2', ?_⟩
      exact ((hadv.trans advance_skipped.appended).append _).trans advance_skipped.appended
    case isFalse => exact ⟨by decide, hadv.append _⟩
  case isFalse =>
  split
  case isTrue hu =>
    have hne : l.current ≠ -1 := by rw [hu]; decide
    refine ⟨hne, (getUnicodeCharacter_succeeds (l := l.advance) rfl).mono ?_⟩
    rintro c l' ⟨hskip, hc⟩
    have happ := hadv.trans hskip.appended
    split
    case isTrue hne' => exact ⟨hc hne', happ.append _⟩
    case isFalse =>
      split
      case isTrue => exact ⟨by decide, happ.append _⟩
      case isFalse => exact happ
  case isFalse =>
  have hoct := end_not_class.2.2.2.2.1
  split
  case isTrue h1 =>
    have h1' := octal_range h1
    have h0 : chr '0' = 48 := rfl
    have h3 : chr '3' = 51 := rfl
    refine ⟨ne_end_of hoct h1, ?_⟩
    split
    case isTrue h2 =>
      have h2' := octal_range h2
      refine ⟨ne_end_of hoct h2, ?_⟩
      have happ := hadv.trans advance_skipped.appended
      split
      case isTrue h =>
        have h3' := octal_range h.2.2
        exact ⟨by simp only [h0, h3] at h ⊢; omega, ne_end_of hoct h.2.2,
          (happ.append _).trans advance_skipped.appended⟩
      case isFalse => exact ⟨by simp only [h0]; omega, happ.append _⟩
    case isFalse => exact ⟨by simp only [h0]; omega, hadv.append _⟩
  case isFalse =>
  split
  case isTrue hne =>
    exact ⟨recordable_of_ne_end hv hne, hne, (hrefl.append _).trans advance_skipped.appended⟩
  case isFalse => exact hrefl

theorem stringLoop_succeeds {quote : Int} (n : Nat) (start : List UChar) (l : Lexer)
    (hv : l.Valid) (hn : l.code.length < n) :
    Succeeds (stringLoop quote start n) l fun r l' =>
      Appended l l' ∧ (r ≠ none → l'.current = quote) := by
  induction n generalizing start l with
  | zero => omega
  | succ n ih =>
      simp only [stringLoop, succeeds_bind, succeeds_getCurrent, succeeds_ite,
        succeeds_appendSegment, succeeds_shift, succeeds_currentCharacter]
      split
      case isTrue hq => exact (succeeds_pure _).mpr ⟨(Skipped.refl hv).appended, fun _ => hq⟩
      case isFalse =>
      split
      case isTrue hslash =>
        have hne : l.current ≠ -1 := by rw [hslash]; decide
        have hlen := advance_length hv hne
        refine ⟨hne, (parseEscape_succeeds quote (l := advance _) rfl).mono fun ok l₁ h₁ => ?_⟩
        have happ : Appended l l₁ :=
          (((Skipped.refl hv).appended.append _).trans advance_skipped.appended).trans h₁
        have hle : l₁.code.length ≤ l.advance.code.length := h₁.length_le
        split
        case isTrue =>
          refine (ih l₁.code l₁ h₁.valid (by omega)).mono ?_
          rintro r l₂ ⟨h₂, hr⟩
          exact ⟨happ.trans h₂, hr⟩
        case isFalse => exact (succeeds_pure _).mpr ⟨happ, fun h => absurd rfl h⟩
      case isFalse =>
      split
      case isTrue =>
        exact (succeeds_pure _).mpr ⟨(Skipped.refl hv).appended, fun h => absurd rfl h⟩
      case isFalse hend =>
        have hne : l.current ≠ -1 := by
          intro he
          rw [he] at hend
          exact hend (by decide)
        have hlen := advance_length hv hne
        refine ⟨hne, (ih start l.advance rfl (by omega)).mono ?_⟩
        rintro r l₁ ⟨h₁, hr⟩
        exact ⟨advance_skipped.appended.trans h₁, hr⟩

theorem parseString_succeeds {l : Lexer} (hne : l.current ≠ -1) :
    Succeeds parseString l fun r l' => Moved l l' ∧ l'.buffer8 = l.buffer8 ∧
      (r ≠ none → l'.current = l.current ∧ l'.buffer16 = []) := by
  simp only [parseString, succeeds_bind, succeeds_getCurrent, succeeds_shift,
    succeeds_currentCharacter, succeeds_bound]
  refine ⟨hne, (stringLoop_succeeds _ _ l.advance rfl (by omega)).mono ?_⟩
  rintro r l₁ ⟨h₁, hr⟩
  have happ : Appended l l₁ := advance_skipped.appended.trans h₁
  cases r with
  | none => exact (succeeds_pure _).mpr ⟨happ.toMoved, happ.buffer8, fun h => absurd rfl h⟩
  | some start =>
      simp only [succeeds_bind, succeeds_appendSegment, succeeds_get, succeeds_clearBuffer16]
      exact (succeeds_pure _).mpr
        ⟨happ.toMoved.buffers _ _, happ.buffer8, fun _ => ⟨hr (by simp), rfl⟩⟩

/-! ## Numbers -/

theorem digit_range {c : Int} (h : isASCIIDigit c = true) : 0 ≤ c ∧ c ≤ 0xFF := by
  simp only [isASCIIDigit, Bool.and_eq_true, decide_eq_true_eq] at h
  have h0 : chr '0' = 48 := rfl
  have h9 : chr '9' = 57 := rfl
  omega

theorem octalDigit_range {c : Int} (h : isASCIIOctalDigit c = true) : 0 ≤ c ∧ c ≤ 0xFF := by
  have := octal_range h
  omega

theorem hexDigit_range {c : Int} (h : isASCIIHexDigit c = true) : 0 ≤ c ∧ c ≤ 0xFF := by
  have h0 : chr '0' = 48 := rfl
  have h9 : chr '9' = 57 := rfl
  have ha : chr 'a' = 97 := rfl
  have hf : chr 'f' = 102 := rfl
  simp only [isASCIIHexDigit, h0, h9, ha, hf, Bool.or_eq_true, Bool.and_eq_true,
    decide_eq_true_eq] at h
  rcases h with h | ⟨h1, h2⟩
  · omega
  · simp only [orBit20] at h1 h2
    split at h1
    · omega
    · rename_i hc
      simp only [hc, if_false] at h2
      have : c.toNat ≤ c.toNat ||| 0x20 := Nat.left_le_or
      omega

theorem hexLoop_succeeds (n value : Nat) (digits : Int) (l : Lexer) (hv : l.Valid)
    (hn : l.code.length < n) (hc : isASCIIHexDigit l.current = true) :
    Succeeds (hexLoop value digits n) l fun r l' => Recorded l l' ∧ r.1 < 2 ^ 32 ∧
      l'.buffer8 = l.buffer8 := by
  induction n generalizing value digits l with
  | zero => omega
  | succ n ih =>
      have hne := ne_end_of end_not_class.2.2.1 hc
      have hlen := advance_length hv hne
      simp only [hexLoop, succeeds_bind, succeeds_getCurrent, succeeds_assert, succeeds_shift,
        succeeds_ite]
      refine ⟨hc, hne, ?_⟩
      split
      case isTrue h =>
        simp only [Bool.and_eq_true] at h
        refine (ih _ _ l.advance rfl (by omega) h.1).mono ?_
        rintro r l' ⟨h', hr, h8⟩
        exact ⟨advance_skipped.recorded.trans h', hr, h8⟩
      case isFalse =>
        exact (succeeds_pure _).mpr ⟨advance_skipped.recorded, Nat.mod_lt _ (Nat.two_pow_pos 32), rfl⟩

theorem recordHexValue_succeeds (n value : Nat) (hvalue : value < 2 ^ 32) (l : Lexer)
    (hv : l.Valid) : Succeeds (recordHexValue value n) l fun _ l' => Recorded l l' := by
  induction n generalizing value l with
  | zero => exact (succeeds_pure _).mpr (.refl hv)
  | succ n ih =>
      have hdigit : value / 2 ^ 28 < 16 := by omega
      have hrest : ∀ b, Succeeds (recordHexValue (value * 16 % 2 ^ 32) n) { l with buffer8 := b }
          fun _ l' => Recorded l l' := by
        intro b
        refine (ih _ (Nat.mod_lt _ (Nat.two_pow_pos 32)) { l with buffer8 := b } hv).mono
          fun _ l' h => ?_
        exact ((Recorded.refl hv).append b).trans h
      have h0 : chr '0' = 48 := rfl
      have ha : chr 'a' = 97 := rfl
      simp only [recordHexValue, succeeds_bind, succeeds_ite, succeeds_record8]
      split
      case isTrue => exact ⟨by simp only [h0]; omega, hrest _⟩
      case isFalse => exact ⟨by simp only [ha]; omega, hrest _⟩

theorem parseHex_succeeds [Platform] {l : Lexer} (hne : l.current ≠ -1)
    (hc : isASCIIHexDigit l.advance.current = true) :
    Succeeds parseHex l fun _ l' => Recorded l l' := by
  simp only [parseHex, succeeds_bind, succeeds_shift, succeeds_bound]
  refine ⟨hne, (hexLoop_succeeds _ 0 7 l.advance rfl (by omega) hc).mono ?_⟩
  rintro ⟨value, digits⟩ l₁ ⟨h₁, hvalue, -⟩
  have h₁ := advance_skipped.recorded.trans h₁
  simp only [succeeds_bind, succeeds_ite, succeeds_get]
  split
  case isTrue => exact (succeeds_pure _).mpr h₁
  case isFalse =>
    refine (recordHexValue_succeeds 8 value hvalue l₁ h₁.valid).mono fun _ l₂ h₂ => ?_
    refine (recordWhile_succeeds end_not_class.2.2.1 (fun c => hexDigit_range)
      h₂.valid).mono fun _ l₃ h₃ => ?_
    exact (succeeds_pure _).mpr ((h₁.trans h₂).trans h₃.1)

/-- The digit loop never leaves the array, and reads at least one digit. -/
theorem digitLoop_succeeds {radix : Nat} {isDigit : Int → Bool} (hend : isDigit (-1) = false)
    (hrange : ∀ c, isDigit c = true → 0 ≤ c ∧ c ≤ 0xFF) (n value : Nat) (digits : List Int)
    (maximumDigits : Int) (l : Lexer) (hv : l.Valid) (hn : l.code.length < n)
    (hc : isDigit l.current = true) (hmax : 0 ≤ maximumDigits ∧ maximumDigits < 10)
    (hdigits : ∀ d ∈ digits, 0 ≤ d ∧ d ≤ 0xFF) :
    Succeeds (digitLoop radix isDigit value digits maximumDigits n) l fun r l' =>
      Recorded l l' ∧ l'.code.length < l.code.length ∧ l'.buffer8 = l.buffer8 ∧
        ∀ d ∈ r.2.1, 0 ≤ d ∧ d ≤ 0xFF := by
  induction n generalizing value digits maximumDigits l with
  | zero => omega
  | succ n ih =>
      have hne := ne_end_of hend hc
      have hlen := advance_length hv hne
      have hdigits' : ∀ d ∈ digits ++ [l.current], 0 ≤ d ∧ d ≤ 0xFF := by
        intro d hd
        rcases List.mem_append.mp hd with hd | hd
        · exact hdigits d hd
        · rw [List.mem_singleton.mp hd]
          exact hrange _ hc
      simp only [digitLoop, succeeds_bind, succeeds_getCurrent, succeeds_assert, succeeds_shift,
        succeeds_ite]
      refine ⟨by simpa using hmax, hne, ?_⟩
      split
      case isTrue h =>
        simp only [Bool.and_eq_true, decide_eq_true_eq] at h
        refine (ih _ _ _ l.advance rfl (by omega) h.1 (by omega) hdigits').mono ?_
        rintro r l' ⟨h', hlt, h8, hr⟩
        exact ⟨advance_skipped.recorded.trans h', by omega, h8, hr⟩
      case isFalse =>
        exact (succeeds_pure _).mpr ⟨advance_skipped.recorded, by omega, rfl, hdigits'⟩

theorem recordDigits_succeeds (digits : List Int) (hdigits : ∀ d ∈ digits, 0 ≤ d ∧ d ≤ 0xFF)
    (l : Lexer) (hv : l.Valid) : Succeeds (recordDigits digits) l fun _ l' => Recorded l l' := by
  induction digits generalizing l with
  | nil => exact (succeeds_pure _).mpr (.refl hv)
  | cons d ds ih =>
      simp only [recordDigits, succeeds_bind, succeeds_record8]
      refine ⟨hdigits d (by simp), ?_⟩
      refine (ih (fun d' hd' => hdigits d' (by simp [hd']))
        { l with buffer8 := l.buffer8 ++ [Char.ofNat d.toNat] } hv).mono fun _ l' h => ?_
      exact ((Recorded.refl hv).append _).trans h

theorem parseOctal_succeeds [Platform] {l : Lexer} (hv : l.Valid)
    (hc : isASCIIOctalDigit l.current = true) :
    Succeeds parseOctal l fun r l' => Recorded l l' ∧
      (r = none → isASCIIDigit l'.current = true) := by
  simp only [parseOctal, succeeds_bind, succeeds_bound]
  refine (digitLoop_succeeds end_not_class.2.2.2.2.1 (fun c => octalDigit_range) _ 0 [] 9 l hv
    (by omega) hc (by omega) (by simp)).mono ?_
  rintro ⟨value, digits, maximumDigits⟩ l₁ ⟨h₁, -, -, hdigits⟩
  simp only [succeeds_bind, succeeds_getCurrent, succeeds_ite, succeeds_get]
  split
  case isTrue => exact (succeeds_pure _).mpr ⟨h₁, by simp⟩
  case isFalse =>
    refine (recordDigits_succeeds digits hdigits l₁ h₁.valid).mono fun _ l₂ h₂ => ?_
    refine (recordWhile_succeeds end_not_class.2.2.2.2.1 (fun c => octalDigit_range)
      h₂.valid).mono fun _ l₃ h₃ => ?_
    have h := (h₁.trans h₂).trans h₃.1
    split
    case isTrue hd => exact (succeeds_pure _).mpr ⟨h, fun _ => hd⟩
    case isFalse => exact (succeeds_pure _).mpr ⟨h, by simp⟩

theorem parseDecimal_succeeds {l : Lexer} (hv : l.Valid)
    (hc : l.buffer8 = [] → isASCIIDigit l.current = true) :
    Succeeds parseDecimal l fun _ l' => Recorded l l' ∧
      (isASCIIDigit l.current = true → l'.code.length < l.code.length) := by
  have hend := end_not_class.2.2.2.1
  have hrest : ∀ l₁, Recorded l l₁ → (l₁ = l ∨ l₁.code.length < l.code.length) →
      Succeeds (recordWhile isASCIIDigit >>= fun _ => pure (none : Option Double)) l₁ fun _ l' =>
        Recorded l l' ∧ (isASCIIDigit l.current = true → l'.code.length < l.code.length) := by
    intro l₁ h₁ hlt
    refine (succeeds_bind _ _ _).mpr
      ((recordWhile_succeeds hend (fun c => digit_range) h₁.valid).mono fun _ l₂ h₂ => ?_)
    have := h₂.1.length_le
    refine (succeeds_pure _).mpr ⟨h₁.trans h₂.1, fun hd => ?_⟩
    rcases hlt with rfl | hlt
    · exact h₂.2 hd
    · omega
  simp only [parseDecimal, succeeds_bind, succeeds_get, succeeds_ite]
  split
  case isFalse he => exact (succeeds_bind _ _ _).mp (hrest l (.refl hv) (Or.inl rfl))
  case isTrue he =>
    have he : l.buffer8 = [] := List.isEmpty_iff.mp he
    simp only [succeeds_bound]
    refine (digitLoop_succeeds hend (fun c => digit_range) _ 0 [] 9 l hv (by omega) (hc he)
      (by omega) (by simp)).mono ?_
    rintro ⟨value, digits, maximumDigits⟩ l₁ ⟨h₁, hlt, -, hdigits⟩
    simp only [succeeds_getCurrent]
    split
    case isTrue => exact (succeeds_pure _).mpr ⟨h₁, fun _ => hlt⟩
    case isFalse =>
      refine (recordDigits_succeeds digits hdigits l₁ h₁.valid).mono fun _ l₂ h₂ => ?_
      have := h₂.length_le
      exact (succeeds_bind _ _ _).mp (hrest l₂ (h₁.trans h₂) (Or.inr (by omega)))

theorem parseNumberAfterDecimalPoint_succeeds {l : Lexer} (hv : l.Valid) :
    Succeeds parseNumberAfterDecimalPoint l fun _ l' => Recorded l l' := by
  simp only [parseNumberAfterDecimalPoint, succeeds_bind, succeeds_record8]
  refine ⟨by decide, ?_⟩
  refine (recordWhile_succeeds end_not_class.2.2.2.1 (fun c => digit_range)
    (l := { l with buffer8 := l.buffer8 ++ [Char.ofNat (chr '.').toNat] }) hv).mono
    fun _ l' h => ?_
  exact ((Recorded.refl hv).append _).trans h.1

theorem parseNumberAfterExponentIndicator_succeeds {l : Lexer} (hv : l.Valid)
    (hne : l.current ≠ -1) :
    Succeeds parseNumberAfterExponentIndicator l fun _ l' => Recorded l l' := by
  have hrest : ∀ l₁, Recorded l l₁ →
      (if (!isASCIIDigit l₁.current) = true then
        Succeeds (pure false : LexM Bool) l₁ fun _ l' => Recorded l l'
      else Succeeds (recordWhile isASCIIDigit) l₁ fun _ s =>
        Succeeds (pure true : LexM Bool) s fun _ l' => Recorded l l') := by
    intro l₁ h₁
    split
    case isTrue => exact (succeeds_pure _).mpr h₁
    case isFalse =>
      refine (recordWhile_succeeds end_not_class.2.2.2.1 (fun c => digit_range)
        h₁.valid).mono fun _ l₂ h₂ => ?_
      exact (succeeds_pure _).mpr (h₁.trans h₂.1)
  have hadv : ∀ l₁ b, Recorded l l₁ → Recorded l (advance { l₁ with buffer8 := b }) :=
    fun l₁ b h => (h.append b).trans advance_skipped.recorded
  simp only [parseNumberAfterExponentIndicator, succeeds_bind, succeeds_record8, succeeds_shift,
    succeeds_getCurrent, succeeds_ite]
  refine ⟨by decide, hne, ?_⟩
  have h₁ := hadv l (l.buffer8 ++ [Char.ofNat (chr 'e').toNat]) (.refl hv)
  generalize advance _ = l₁ at h₁ ⊢
  split
  case isTrue hsign =>
    have hrange : (0 ≤ l₁.current ∧ l₁.current ≤ 0xFF) ∧ l₁.current ≠ -1 := by
      rcases hsign with h | h <;> rw [h] <;> decide
    exact ⟨hrange.1, hrange.2, hrest _ (hadv l₁ _ h₁)⟩
  case isFalse => exact hrest l₁ h₁

/-! ## Comments -/

theorem parseMultilineComment_succeeds (n : Nat) (l : Lexer) (hv : l.Valid)
    (hn : l.code.length < n) :
    Succeeds (parseMultilineComment n) l fun _ l' => Skipped l l' := by
  induction n generalizing l with
  | zero => omega
  | succ n ih =>
      simp only [parseMultilineComment, succeeds_bind, succeeds_getCurrent, succeeds_ite,
        succeeds_shift]
      split
      case isTrue hstar =>
        have hne : l.current ≠ -1 := by rw [hstar]; decide
        have hlen := advance_length hv hne
        refine ⟨hne, ?_⟩
        split
        case isTrue hslash =>
          exact ⟨by rw [hslash]; decide,
            (succeeds_pure _).mpr (advance_skipped.trans advance_skipped)⟩
        case isFalse =>
          exact (ih l.advance rfl (by omega)).mono fun _ l' h => advance_skipped.trans h
      case isFalse =>
      split
      case isTrue => exact (succeeds_pure _).mpr (.refl hv)
      case isFalse hne =>
      split
      case isTrue hterm =>
        refine (shiftLineTerminator_succeeds hv hterm).mono fun _ l₁ h₁ => ?_
        exact (ih l₁ h₁.1.valid (by omega)).mono fun _ l' h => h₁.1.trans h
      case isFalse =>
        have hlen := advance_length hv hne
        exact ⟨hne, (ih l.advance rfl (by omega)).mono fun _ l' h => advance_skipped.trans h⟩

end Lexer

end HammerJS
