import HammerJS.Procs.Partial
import HammerJS.Reflect.LexerSafety

/-!
# Every token is found

`Lexer::lex` and `Lexer::scanRegExp`, once past the assertions at their entry, return
a token, whatever is left in the buffers; started between two tokens, they leave the
lexer between two tokens.

* `Lexer.Scanned` — what the switch of `lex` leaves behind, for each way out of it.
* `Lexer.Continues` — a continuation of the switch that has read something.
* `Lexer.Lexed`, `Lexer.Invalid` — what `lex` says of a token, and of an invalid one.
* `Lexer.lex_succeeds`, `Lexer.lex_invalid`, `Lexer.scanRegExp_succeeds` — the results.
-/

namespace HammerJS

open Procs

namespace Lexer

/-- Reading from `l` has led to `l'`; the flags may have changed. -/
structure Reached (l l' : Lexer) : Prop where
  valid : l'.Valid
  codeStart : l'.codeStart = l.codeStart
  suffix : l'.code <:+ l.code

theorem Moved.reached {l l' : Lexer} (h : Moved l l') : Reached l l' :=
  ⟨h.valid, h.codeStart, h.suffix⟩

theorem Reached.trans {l l' l'' : Lexer} (h : Reached l l') (h' : Reached l' l'') :
    Reached l l'' :=
  ⟨h'.valid, h'.codeStart.trans h.codeStart, h'.suffix.trans h.suffix⟩

theorem Reached.length_le {l l' : Lexer} (h : Reached l l') : l'.code.length ≤ l.code.length :=
  h.suffix.length_le

theorem Skipped.idle {l l' : Lexer} (h : Skipped l l') (hi : l.Idle) : l'.Idle :=
  ⟨h.valid, h.error.trans hi.error, h.buffer8.trans hi.buffer8, h.buffer16.trans hi.buffer16⟩

/-- What a token found by the switch is like: an identifier carries a name. -/
def TokenFound (t : JSTokenType) (data : Option JSTokenData) : Prop :=
  t.isReal = true ∧ (t = .ident → ∃ ident, data = some (.ident ident) ∧ ident ≠ [])

/-- An identifier starts with the character, or an escape does. -/
def StartsIdentifier (c : Int) : Prop :=
  characterType c = .identifierStart ∨ characterType c = .backSlash

/-- What the switch of `lex`, started in `l`, leaves behind.  Only an identifier is invalid in
a token, and then the flag is as it was. -/
def ExitOk (l l' : Lexer) : Exit → Prop
  | .done t data => l'.code.length < l.code.length ∧
      (t = .errorTok ∧ StartsIdentifier l.current ∧ l'.error = l.error ∨
        TokenFound t data ∧ (l.Idle → l'.Idle))
  | .returnToken t => l'.code.length < l.code.length ∧ t = .semicolon ∧ (l.Idle → l'.Idle)
  | .start => l'.code.length < l.code.length ∧ (l.Idle → l'.Idle)
  | .inSingleLineComment => l'.code.length < l.code.length ∧ (l.Idle → l'.Idle)
  | .returnError => True

/-- The outcome of the switch, started in `l`. -/
def Scanned (l : Lexer) (exit : Exit) (l' : Lexer) : Prop := Reached l l' ∧ ExitOk l l' exit

/-- The program `x` may follow in the switch, once something was read. -/
def Continues (x : LexM Exit) : Prop :=
  ∀ l₀ l, l₀.Valid → Skipped l₀ l → l.code.length < l₀.code.length → Succeeds x l (Scanned l₀)

/-- A token that carries nothing, or the data of its case. -/
theorem Continues.done {t : JSTokenType} {data : Option JSTokenData} (ht : t.isReal = true)
    (hid : t ≠ .ident) : Continues (return .done t data) := fun _ _ _ hs hlt =>
  (succeeds_pure _).mpr
    ⟨hs.toMoved.reached, hlt, Or.inr ⟨⟨ht, fun h => absurd h hid⟩, hs.idle⟩⟩

theorem Continues.comment : Continues (return .inSingleLineComment) := fun _ _ _ hs hlt =>
  (succeeds_pure _).mpr ⟨hs.toMoved.reached, hlt, hs.idle⟩

theorem Continues.ifNext {c : Char} {x y : LexM Exit} (hx : Continues x) (hy : Continues y) :
    Continues (ifNext c x y) := by
  intro l₀ l hv hs hlt
  simp only [Lexer.ifNext, succeeds_bind, succeeds_getCurrent, succeeds_ite, succeeds_shift]
  split
  case isTrue hc =>
    have hne : l.current ≠ -1 := by
      rw [hc]
      simp only [chr]
      omega
    have hlen := advance_length hs.valid hne
    exact ⟨hne, hx l₀ l.advance hv (hs.trans advance_skipped) (by omega)⟩
  case isFalse => exact hy l₀ l hv hs hlt

/-- A case that reads the current character and goes on. -/
theorem Continues.start {x : LexM Exit} (hx : Continues x) {l : Lexer} (hv : l.Valid)
    (hne : l.current ≠ -1) : Succeeds (do shift; x) l (Scanned l) := by
  have hlen := advance_length hv hne
  simp only [succeeds_bind, succeeds_shift]
  exact ⟨hne, hx l l.advance hv advance_skipped (by omega)⟩

/-! ## Punctuation -/

section Punctuation

variable {l : Lexer} (hv : l.Valid) (hne : l.current ≠ -1)
include hv hne

theorem lexGreater_scanned : Succeeds lexGreater l (Scanned l) :=
  Continues.start (.ifNext
    (.ifNext (.ifNext (.done rfl (by decide)) (.done rfl (by decide)))
      (.ifNext (.done rfl (by decide)) (.done rfl (by decide))))
    (.ifNext (.done rfl (by decide)) (.done rfl (by decide)))) hv hne

theorem lexEqual_scanned : Succeeds lexEqual l (Scanned l) :=
  Continues.start (.ifNext (.ifNext (.done rfl (by decide)) (.done rfl (by decide)))
    (.done rfl (by decide))) hv hne

theorem lexLess_scanned : Succeeds lexLess l (Scanned l) := by
  refine Continues.start (fun l₀ l₁ hv hs hlt => ?_) hv hne
  simp only [succeeds_bind, succeeds_getCurrent, succeeds_peek, succeeds_ite]
  split
  case isTrue => exact Continues.comment l₀ l₁ hv hs hlt
  case isFalse =>
    exact Continues.ifNext (.ifNext (.done rfl (by decide)) (.done rfl (by decide)))
      (.ifNext (.done rfl (by decide)) (.done rfl (by decide))) l₀ l₁ hv hs hlt

theorem lexExclamationMark_scanned : Succeeds lexExclamationMark l (Scanned l) :=
  Continues.start (.ifNext (.ifNext (.done rfl (by decide)) (.done rfl (by decide)))
    (.done rfl (by decide))) hv hne

theorem lexAdd_scanned : Succeeds lexAdd l (Scanned l) := by
  refine Continues.start (.ifNext (fun l₀ l₁ hv hs hlt => ?_)
    (.ifNext (.done rfl (by decide)) (.done rfl (by decide)))) hv hne
  simp only [succeeds_bind, succeeds_get]
  split
  case isTrue => exact Continues.done rfl (by decide) l₀ l₁ hv hs hlt
  case isFalse => exact Continues.done rfl (by decide) l₀ l₁ hv hs hlt

theorem lexSub_scanned : Succeeds lexSub l (Scanned l) := by
  refine Continues.start (.ifNext (fun l₀ l₁ hv hs hlt => ?_)
    (.ifNext (.done rfl (by decide)) (.done rfl (by decide)))) hv hne
  simp only [succeeds_bind, succeeds_get, succeeds_getCurrent, succeeds_ite, succeeds_shift]
  split
  case isTrue h =>
    have hne₁ : l₁.current ≠ -1 := by rw [h.2]; decide
    have hlen := advance_length hs.valid hne₁
    exact ⟨hne₁, Continues.comment l₀ _ hv (hs.trans advance_skipped) (by omega)⟩
  case isFalse =>
    split
    case isTrue => exact Continues.done rfl (by decide) l₀ l₁ hv hs hlt
    case isFalse => exact Continues.done rfl (by decide) l₀ l₁ hv hs hlt

theorem lexMultiply_scanned : Succeeds lexMultiply l (Scanned l) :=
  Continues.start (.ifNext (.done rfl (by decide)) (.done rfl (by decide))) hv hne

theorem lexSlash_scanned : Succeeds lexSlash l (Scanned l) := by
  refine Continues.start (.ifNext .comment (.ifNext (fun l₀ l₁ hv hs hlt => ?_)
    (.ifNext (.done rfl (by decide)) (.done rfl (by decide))))) hv hne
  simp only [succeeds_bind, succeeds_bound, succeeds_ite]
  refine (parseMultilineComment_succeeds _ l₁ hs.valid (by omega)).mono fun ok l₂ h => ?_
  have hs₂ := hs.trans h
  have := h.length_le
  split
  case isTrue => exact (succeeds_pure _).mpr ⟨hs₂.toMoved.reached, by omega, hs₂.idle⟩
  case isFalse => exact (succeeds_pure _).mpr ⟨hs₂.toMoved.reached, trivial⟩

theorem lexAnd_scanned : Succeeds lexAnd l (Scanned l) :=
  Continues.start (.ifNext (.done rfl (by decide))
    (.ifNext (.done rfl (by decide)) (.done rfl (by decide)))) hv hne

theorem lexXor_scanned : Succeeds lexXor l (Scanned l) :=
  Continues.start (.ifNext (.done rfl (by decide)) (.done rfl (by decide))) hv hne

theorem lexModulo_scanned : Succeeds lexModulo l (Scanned l) :=
  Continues.start (.ifNext (.done rfl (by decide)) (.done rfl (by decide))) hv hne

theorem lexOr_scanned : Succeeds lexOr l (Scanned l) :=
  Continues.start (.ifNext (.done rfl (by decide))
    (.ifNext (.done rfl (by decide)) (.done rfl (by decide)))) hv hne

theorem lexSingle_scanned {t : JSTokenType} (ht : t.isReal = true) (hid : t ≠ .ident) :
    Succeeds (lexSingle t) l (Scanned l) :=
  Continues.start (.done ht hid) hv hne

theorem lexBrace_scanned {t : JSTokenType} (ht : t.isReal = true) (hid : t ≠ .ident) :
    Succeeds (lexBrace t) l (Scanned l) := by
  simp only [lexBrace, succeeds_bind, succeeds_currentOffset]
  simpa only [succeeds_bind] using Continues.start (.done ht hid) hv hne

end Punctuation

/-! ## Numbers -/

/-- The state of `lex` inside a number that started in `l₀`. -/
structure InNumber (l₀ l : Lexer) : Prop extends Recorded l₀ l where
  progress : l.code.length < l₀.code.length

theorem InNumber.trans {l₀ l l' : Lexer} (h : InNumber l₀ l) (h' : Recorded l l') :
    InNumber l₀ l' :=
  ⟨h.toRecorded.trans h', by have := h'.length_le; have := h.progress; omega⟩

theorem endNumber_scanned {l₀ l : Lexer} (h : InNumber l₀ l) (d : Double) :
    Succeeds (endNumber d) l (Scanned l₀) := by
  simp only [endNumber, succeeds_bind, succeeds_getCurrent, succeeds_ite, succeeds_clearBuffer8]
  split
  case isTrue => exact (succeeds_pure _).mpr ⟨h.toMoved.reached, trivial⟩
  case isFalse =>
    refine (succeeds_pure _).mpr ⟨(h.toRecorded.append []).toMoved.reached, h.progress,
      Or.inr ⟨⟨rfl, by simp⟩, fun hi => ?_⟩⟩
    exact ⟨h.valid, h.error.trans hi.error, rfl, h.buffer16.trans hi.buffer16⟩

theorem finishNumber_scanned [Platform] {l₀ l : Lexer} (h : InNumber l₀ l) :
    Succeeds finishNumber l (Scanned l₀) := by
  simp only [finishNumber, succeeds_bind, succeeds_getCurrent, succeeds_ite, succeeds_get]
  split
  case isTrue he =>
    have hne : l.current ≠ -1 := by
      intro hend
      rw [hend] at he
      exact absurd he (by decide)
    refine (parseNumberAfterExponentIndicator_succeeds h.valid hne).mono fun ok l₁ h₁ => ?_
    split
    case isTrue => exact (succeeds_pure _).mpr ⟨(h.trans h₁).toMoved.reached, trivial⟩
    case isFalse => exact endNumber_scanned (h.trans h₁) _
  case isFalse => exact endNumber_scanned h _

theorem inNumberAfterDecimalPoint_scanned [Platform] {l₀ l : Lexer} (h : InNumber l₀ l) :
    Succeeds inNumberAfterDecimalPoint l (Scanned l₀) := by
  simp only [inNumberAfterDecimalPoint, succeeds_bind]
  exact (parseNumberAfterDecimalPoint_succeeds h.valid).mono fun _ l₁ h₁ =>
    finishNumber_scanned (h.trans h₁)

/-- The case of a number, entered at its first digit or with digits in the buffer. -/
theorem lexNumber_scanned [Platform] {l₀ l : Lexer} (h : Recorded l₀ l)
    (hc : l.buffer8 = [] → isASCIIDigit l.current = true)
    (hprogress : isASCIIDigit l.current = true ∨ l.code.length < l₀.code.length) :
    Succeeds lexNumber l (Scanned l₀) := by
  simp only [lexNumber, succeeds_bind]
  refine (parseDecimal_succeeds h.valid hc).mono ?_
  rintro r l₁ ⟨h₁, hlt⟩
  have hin : InNumber l₀ l₁ := by
    refine ⟨h.trans h₁, ?_⟩
    have := h.length_le
    have := h₁.length_le
    rcases hprogress with hd | hprogress
    · have := hlt hd; omega
    · omega
  cases r with
  | some d => exact endNumber_scanned hin d
  | none =>
      simp only [succeeds_bind, succeeds_getCurrent, succeeds_ite, succeeds_shift]
      split
      case isTrue hdot =>
        refine ⟨by rw [hdot]; decide, ?_⟩
        exact inNumberAfterDecimalPoint_scanned (hin.trans advance_skipped.recorded)
      case isFalse => exact finishNumber_scanned hin

theorem lexZero_scanned [Platform] {l : Lexer} (hv : l.Valid) (hne : l.current ≠ -1) :
    Succeeds lexZero l (Scanned l) := by
  have hlen := advance_length hv hne
  simp only [lexZero, succeeds_bind, succeeds_shift, succeeds_getCurrent, succeeds_peek,
    succeeds_ite, succeeds_record8]
  refine ⟨hne, ?_⟩
  split
  case isTrue hx =>
    have hne₁ : l.advance.current ≠ -1 := by
      intro hend
      rw [hend] at hx
      exact absurd hx.1 (by decide)
    have hhex : isASCIIHexDigit l.advance.advance.current = true := by
      simpa only [advance, ← List.drop_one, List.drop_drop] using hx.2
    refine (parseHex_succeeds hne₁ hhex).mono fun d l₁ h₁ => ?_
    have hin : InNumber l l.advance := ⟨advance_skipped.recorded, by omega⟩
    exact endNumber_scanned (hin.trans h₁) d
  case isFalse =>
    -- the first digit is in the buffer, whichever loop reads the others
    have hrest : ∀ next : Option Double → LexM Exit, (∀ d, next (some d) = endNumber d) →
        next none = lexNumber → ∀ l₁, InNumber l l₁ → l₁.buffer8 ≠ [] →
          l₁.current = l.advance.current → if isASCIIOctalDigit l.advance.current = true then
            Succeeds parseOctal l₁ fun r l₂ => Succeeds (next r) l₂ (Scanned l)
          else Succeeds lexNumber l₁ (Scanned l) := by
      intro next hsome hnone l₁ h₁ hb hcur
      split
      case isTrue hoct =>
        rw [← hcur] at hoct
        refine (parseOctal_succeeds h₁.valid hoct).mono ?_
        rintro r l₂ ⟨h₂, hr⟩
        cases r with
        | some d =>
            rw [hsome]
            exact endNumber_scanned (h₁.trans h₂) d
        | none =>
            rw [hnone]
            exact lexNumber_scanned (h₁.trans h₂).toRecorded (fun _ => hr rfl)
              (Or.inr (h₁.trans h₂).progress)
      case isFalse =>
        exact lexNumber_scanned h₁.toRecorded (fun h => absurd h hb) (Or.inr h₁.progress)
    exact ⟨by decide, hrest _ (fun _ => rfl) rfl _ ⟨advance_skipped.recorded.append _, by
      change l.advance.code.length < _; omega⟩ (by simp) rfl⟩

theorem lexDot_scanned [Platform] {l : Lexer} (hv : l.Valid) (hne : l.current ≠ -1) :
    Succeeds lexDot l (Scanned l) := by
  refine Continues.start (fun l₀ l₁ hv hs hlt => ?_) hv hne
  simp only [succeeds_bind, succeeds_getCurrent, succeeds_ite]
  split
  case isTrue => exact Continues.done rfl (by decide) l₀ l₁ hv hs hlt
  case isFalse => exact inNumberAfterDecimalPoint_scanned ⟨hs.recorded, hlt⟩

/-! ## Strings, identifiers and line terminators -/

theorem lexQuote_scanned {l : Lexer} (hne : l.current ≠ -1) :
    Succeeds lexQuote l (Scanned l) := by
  simp only [lexQuote, succeeds_bind]
  refine (parseString_succeeds hne).mono ?_
  rintro r l₁ ⟨h₁, h8, hr⟩
  cases r with
  | none => exact (succeeds_pure _).mpr ⟨h₁.reached, trivial⟩
  | some ident =>
      obtain ⟨hcur, h16⟩ := hr (by simp)
      have hne₁ : l₁.current ≠ -1 := by rw [hcur]; exact hne
      have hlen := advance_length h₁.valid hne₁
      have := h₁.length_le
      simp only [succeeds_bind, succeeds_shift]
      refine ⟨hne₁, (succeeds_pure _).mpr ⟨(h₁.trans advance_moved).reached, by omega,
        Or.inr ⟨⟨rfl, by simp⟩, fun hi => ?_⟩⟩⟩
      exact ⟨rfl, h₁.error.trans hi.error, h8.trans hi.buffer8, h16⟩

theorem testKeyword_real (ident : Identifier) : (testKeyword ident).isReal = true := by
  have hall : ∀ k ∈ keywords, k.2.isReal = true := by decide
  rcases testKeyword_mem ident with h | ⟨k, hk, h⟩
  · rw [h]
    rfl
  · rw [h]
    exact hall k hk

theorem lexIdentifier_scanned (lexType : LexType) {l : Lexer} (hv : l.Valid)
    (hstart : isIdentPart l.current = true ∨ l.current = chr '\\')
    (hstarts : StartsIdentifier l.current) :
    Succeeds (lexIdentifier lexType) l (Scanned l) := by
  simp only [lexIdentifier, succeeds_bind]
  refine (parseIdentifier_succeeds lexType hv hstart).mono ?_
  rintro ⟨t, r⟩ l₁ ⟨h₁, h8, hlt, h⟩
  rcases h with ⟨rfl, rfl⟩ | ⟨ident, rfl, hne, h16, ht⟩
  · exact (succeeds_pure _).mpr ⟨h₁.reached, hlt, Or.inl ⟨rfl, hstarts, h₁.error⟩⟩
  · have hidle : l.Idle → l₁.Idle := fun hi =>
      ⟨h₁.valid, h₁.error.trans hi.error, h8.trans hi.buffer8, h16 hi.buffer16⟩
    refine (succeeds_pure _).mpr ⟨h₁.reached, hlt, Or.inr ⟨⟨?_, fun _ => ⟨ident, rfl, hne⟩⟩, hidle⟩⟩
    rcases ht with rfl | rfl
    · rfl
    · exact testKeyword_real ident

theorem endLine_scanned {l : Lexer} (hv : l.Valid) (h : isLineTerminator l.current = true) :
    Succeeds endLine l fun exit l' =>
      Scanned l exit l' ∧ (exit = .start ∨ exit = .returnToken .semicolon) := by
  simp only [endLine, succeeds_bind, succeeds_modify, succeeds_lastTokenWasRestrKeyword,
    succeeds_ite]
  refine (shiftLineTerminator_succeeds hv h).mono ?_
  rintro _ l₁ ⟨h₁, hlt⟩
  have hreached : Reached l { l₁ with atLineStart := true, terminator := true } :=
    ⟨h₁.valid, h₁.codeStart, h₁.suffix⟩
  have hidle : l.Idle → ({ l₁ with atLineStart := true, terminator := true } : Lexer).Idle := by
    intro hi
    have hi := h₁.idle hi
    exact ⟨hi.valid, hi.error, hi.buffer8, hi.buffer16⟩
  split
  case isTrue => exact (succeeds_pure _).mpr ⟨⟨hreached, hlt, rfl, hidle⟩, Or.inr rfl⟩
  case isFalse => exact (succeeds_pure _).mpr ⟨⟨hreached, hlt, hidle⟩, Or.inl rfl⟩

/-! ## The switch -/

/-- The assertions on the character types agree with the table. -/
theorem asciiType_spec {c : Int} (h : isASCII c = true) :
    (asciiType c = .whiteSpace → isWhiteSpace c = true) ∧
      (asciiType c = .lineTerminator → isLineTerminator c = true) ∧
      (asciiType c = .identifierStart → isIdentStart c = true ∧ isIdentPart c = true) ∧
      (asciiType c = .number → isASCIIDigit c = true) ∧
      (asciiType c = .backSlash → c = chr '\\') := by
  have hdec : ∀ n : Nat, n < 128 →
      (asciiType n = .whiteSpace → isWhiteSpace n = true) ∧
        (asciiType n = .lineTerminator → isLineTerminator n = true) ∧
        (asciiType n = .identifierStart → isIdentStart n = true ∧ isIdentPart n = true) ∧
        (asciiType n = .number → isASCIIDigit n = true) ∧
        (asciiType n = .backSlash → (n : Int) = chr '\\') := by decide +kernel
  simp only [isASCII, Bool.and_eq_true, decide_eq_true_eq] at h
  have hc : ((c.toNat : Nat) : Int) = c := Int.toNat_of_nonneg h.1
  have := hdec c.toNat (by omega)
  rwa [hc] at this

theorem lexSwitch_scanned [Platform] (lexType : LexType) {l : Lexer} (hv : l.Valid)
    (hne : l.current ≠ -1) (hspace : isWhiteSpace l.current = false) :
    Succeeds (lexSwitch lexType (characterType l.current)) l (Scanned l) := by
  cases hascii : isASCII l.current with
  | false =>
      simp only [characterType, hascii, Bool.false_eq_true, if_false]
      split
      case isTrue hterm =>
        simp only [lexSwitch, lexLineTerminator, succeeds_bind, succeeds_getCurrent,
          succeeds_assert]
        exact ⟨hterm, (endLine_scanned hv hterm).mono fun _ _ h => h.1⟩
      case isFalse =>
        exact (succeeds_pure _).mpr ⟨(Moved.refl hv).reached, trivial⟩
  | true =>
      obtain ⟨hwhite, hterm, hident, hnumber, hslash⟩ := asciiType_spec hascii
      have hcharacter : characterType l.current = asciiType l.current := by
        simp only [characterType, hascii, if_true]
      rw [hcharacter]
      cases htype : asciiType l.current with
      | greater => exact lexGreater_scanned hv hne
      | equal => exact lexEqual_scanned hv hne
      | less => exact lexLess_scanned hv hne
      | exclamationMark => exact lexExclamationMark_scanned hv hne
      | add => exact lexAdd_scanned hv hne
      | sub => exact lexSub_scanned hv hne
      | multiply => exact lexMultiply_scanned hv hne
      | slash => exact lexSlash_scanned hv hne
      | and => exact lexAnd_scanned hv hne
      | xor => exact lexXor_scanned hv hne
      | modulo => exact lexModulo_scanned hv hne
      | or => exact lexOr_scanned hv hne
      | openParen | closeParen | openBracket | closeBracket | comma | colon | question | tilde
      | semicolon => exact lexSingle_scanned hv hne rfl (by decide)
      | openBrace | closeBrace => exact lexBrace_scanned hv hne rfl (by decide)
      | dot => exact lexDot_scanned hv hne
      | zero => exact lexZero_scanned hv hne
      | number =>
          exact lexNumber_scanned (.refl hv) (fun _ => hnumber htype) (Or.inl (hnumber htype))
      | quote => exact lexQuote_scanned hne
      | identifierStart =>
          simp only [lexSwitch, succeeds_bind, succeeds_getCurrent, succeeds_assert]
          exact ⟨(hident htype).1, lexIdentifier_scanned lexType hv (Or.inl (hident htype).2)
            (Or.inl (hcharacter.trans htype))⟩
      | backSlash =>
          exact lexIdentifier_scanned lexType hv (Or.inr (hslash htype))
            (Or.inr (hcharacter.trans htype))
      | lineTerminator =>
          simp only [lexSwitch, lexLineTerminator, succeeds_bind, succeeds_getCurrent,
            succeeds_assert]
          exact ⟨hterm htype, (endLine_scanned hv (hterm htype)).mono fun _ _ h => h.1⟩
      | invalid => exact (succeeds_pure _).mpr ⟨(Moved.refl hv).reached, trivial⟩
      | whiteSpace => rw [hwhite htype] at hspace; cases hspace

/-- An identifier does not leave through `returnError`. -/
theorem lexIdentifier_yields (lexType : LexType) (l : Lexer) :
    Yields (lexIdentifier lexType) l fun exit _ => exit ≠ .returnError := by
  simp only [lexIdentifier, yields_bind]
  rintro ⟨t, ident⟩ l₁ -
  refine (yields_pure _).mpr fun h => ?_
  cases h

theorem lexSwitch_returnError [Platform] {lexType : LexType} {l l' : Lexer}
    (h : lexSwitch lexType (characterType l.current) l = .ok (.returnError, l')) :
    ¬ StartsIdentifier l.current := by
  rintro (hstarts | hstarts) <;> rw [hstarts] at h
  · have hafter : Yields (lexSwitch lexType .identifierStart) l fun exit _ =>
        exit ≠ .returnError := by
      simp only [lexSwitch, yields_bind]
      exact fun _ _ _ _ l₁ _ => lexIdentifier_yields lexType l₁
    exact hafter.of_eq h rfl
  · exact (lexIdentifier_yields lexType l).of_eq h rfl

/-! ## Tokens -/

/-- What `lex`, started in `l`, says of the token it returned. -/
structure Lexed (l : Lexer) (t : JSToken) (l' : Lexer) : Prop where
  reached : Reached l l'
  idle : t.type ≠ .errorTok → l.Idle → l'.Idle
  progress : t.type.isReal = true → l'.code.length < l.code.length
  ident : t.type = .ident → t.data.getIdent ≠ []
  atEnd : t.type = .eofTok → l'.code = []

theorem Lexed.after {l l' l'' : Lexer} {t : JSToken} (h : Reached l l') (hi : l.Idle → l'.Idle)
    (h' : Lexed l' t l'') : Lexed l t l'' :=
  ⟨h.trans h'.reached, fun ht => h'.idle ht ∘ hi, fun ht => by
    have := h'.progress ht
    have := h.length_le
    omega, h'.ident, h'.atEnd⟩

/-- Where `lex`, started in `l`, comes upon an invalid token.  It leaves through `returnError`,
which sets the flag, unless the token is an identifier: that has an escape that is not valid,
and the flag stays clear. -/
def Invalid [Platform] (lexType : LexType) (l l' : Lexer) : Prop :=
  ∃ l₁ exit l₂, Reached l l₁ ∧
    lexSwitch lexType (characterType l₁.current) l₁ = .ok (exit, l₂) ∧
      (¬ StartsIdentifier l₁.current ∧ exit = .returnError ∧ l'.error = true ∨
        StartsIdentifier l₁.current ∧ (∃ data, exit = .done .errorTok data) ∧ l'.error = false)

/-- What `lex` says of a token, valid or not. -/
def LexAnswer [Platform] (lexType : LexType) (l : Lexer) (t : JSToken) (l' : Lexer) : Prop :=
  Lexed l t l' ∧ (t.type = .errorTok → l.Idle → Invalid lexType l l')

theorem LexAnswer.after [Platform] {lexType : LexType} {l l' l'' : Lexer} {t : JSToken}
    (h : Reached l l') (hi : l.Idle → l'.Idle) (h' : LexAnswer lexType l' t l'') :
    LexAnswer lexType l t l'' := by
  refine ⟨h'.1.after h hi, fun ht hidle => ?_⟩
  obtain ⟨l₁, exit, l₂, hr, hfound⟩ := h'.2 ht (hi hidle)
  exact ⟨l₁, exit, l₂, h.trans hr, hfound⟩

theorem eofToken_lexed [Platform] {lexType : LexType} {l l' : Lexer} {old : JSToken}
    (h : Reached l l') (hi : l.Idle → l'.Idle) (hend : l'.current = -1) :
    LexAnswer lexType l { old with type := .eofTok } l' :=
  ⟨⟨h, fun _ => hi, fun h => (by cases h), fun h => (by cases h), fun _ =>
    codeUnit_eq_neg_one.mp (h.valid ▸ hend)⟩, fun h => (by cases h)⟩

theorem returnToken_succeeds {l : Lexer} (startOffset : Nat) (t : JSTokenType)
    (data : JSTokenData) :
    Succeeds (returnToken startOffset t data) l fun tok l' =>
      tok.type = t ∧ tok.data = data ∧ l' = { l with lastToken := some t } := by
  simp [returnToken]

theorem inSingleLineComment_succeeds {l : Lexer} (hv : l.Valid) :
    Succeeds inSingleLineComment l fun r l' => Reached l l' ∧
      match r with
      | none => (l.Idle → l'.Idle) ∧ l'.current = -1
      | some exit => ∃ l₁, Skipped l l₁ ∧ Scanned l₁ exit l' ∧
          (exit = .start ∨ exit = .returnToken .semicolon) := by
  simp only [inSingleLineComment, succeeds_bind, succeeds_bound, succeeds_getCurrent, succeeds_ite]
  refine (whileShift_succeeds (by decide) hv (by omega)).mono ?_
  rintro _ l₁ ⟨h₁, hcur⟩
  split
  case isTrue hend => exact (succeeds_pure _).mpr ⟨h₁.toMoved.reached, h₁.idle, hend⟩
  case isFalse hne =>
    have hterm : isLineTerminator l₁.current = true := by
      simpa [hne] using hcur
    refine (endLine_scanned h₁.valid hterm).mono ?_
    rintro exit l₂ ⟨h₂, hexit⟩
    exact (succeeds_pure _).mpr ⟨h₁.toMoved.reached.trans h₂.1, l₁, h₁, h₂, hexit⟩

/-- What follows the switch, for each way out of it; `again` is what `lexFrom`
does when it starts over. -/
theorem afterSwitch_succeeds [Platform] {lexType : LexType} {old : JSToken} {n : Nat}
    {l : Lexer} {startOffset : Nat} (hv : l.Valid)
    (again : ∀ l', Reached l l' → l'.code.length < l.code.length →
      Succeeds (lexFrom lexType old n) l' (LexAnswer lexType l'))
    {exit : Exit} {l₁ : Lexer} (h : Scanned l exit l₁) (hne : exit ≠ .inSingleLineComment)
    (hrun : exit = .start ∨ exit = .returnToken .semicolon ∨
      lexSwitch lexType (characterType l.current) l = .ok (exit, l₁)) :
    Succeeds (match (some exit : Option Exit) with
      | none => return { old with type := .eofTok }
      | some (.done t data) => do
          modify fun l => { l with atLineStart := false }
          returnToken startOffset t (data.getD old.data)
      | some (.returnToken t) => returnToken startOffset t old.data
      | some .returnError => do
          modify fun l => { l with error := true }
          return { old with type := .errorTok }
      | some _ => lexFrom lexType old n) l₁ (LexAnswer lexType l) := by
  obtain ⟨hr, hexit⟩ := h
  cases exit with
  | inSingleLineComment => exact absurd rfl hne
  | start => exact (again l₁ hr hexit.1).mono fun _ _ h => h.after hr hexit.2
  | returnError =>
      have hrun : lexSwitch lexType (characterType l.current) l = .ok (.returnError, l₁) := by
        simpa using hrun
      simp only [succeeds_bind, succeeds_modify]
      refine (succeeds_pure _).mpr ⟨⟨⟨hr.valid, hr.codeStart, hr.suffix⟩, fun h _ => absurd rfl h,
        fun h => (by cases h), fun h => (by cases h), fun h => (by cases h)⟩, fun _ _ => ?_⟩
      exact ⟨l, _, _, (Moved.refl hv).reached, hrun, Or.inl ⟨lexSwitch_returnError hrun, rfl, rfl⟩⟩
  | returnToken t =>
      obtain ⟨hlt, rfl, hidle⟩ := hexit
      refine (returnToken_succeeds startOffset .semicolon old.data).mono ?_
      rintro tok l₂ ⟨ht, -, rfl⟩
      refine ⟨⟨⟨hr.valid, hr.codeStart, hr.suffix⟩, fun _ hi => ?_, fun _ => hlt,
        fun h => (by rw [ht] at h; cases h), fun h => (by rw [ht] at h; cases h)⟩,
        fun h => (by rw [ht] at h; cases h)⟩
      have hi := hidle hi
      exact ⟨hi.valid, hi.error, hi.buffer8, hi.buffer16⟩
  | done t data =>
      obtain ⟨hlt, hfound⟩ := hexit
      simp only [succeeds_bind, succeeds_modify]
      refine (returnToken_succeeds startOffset t (data.getD old.data)).mono ?_
      rintro tok l₂ ⟨rfl, hdata, rfl⟩
      refine ⟨⟨⟨hr.valid, hr.codeStart, hr.suffix⟩, fun herr hi => ?_, fun _ => hlt, fun hid => ?_,
        fun heof => ?_⟩, fun herr hi => ?_⟩
      · rcases hfound with ⟨h, -⟩ | ⟨-, hidle⟩
        · exact absurd h herr
        · have hi := hidle hi
          exact ⟨hi.valid, hi.error, hi.buffer8, hi.buffer16⟩
      · rcases hfound with ⟨h, -⟩ | ⟨⟨-, hident⟩, -⟩
        · rw [h] at hid; cases hid
        · obtain ⟨ident, rfl, hname⟩ := hident hid
          rw [hdata]
          exact hname
      · rcases hfound with ⟨h, -⟩ | ⟨⟨hreal, -⟩, -⟩
        · rw [h] at heof; cases heof
        · rw [heof] at hreal; cases hreal
      · rcases hfound with ⟨-, hstarts, herror⟩ | ⟨⟨hreal, -⟩, -⟩
        · have hrun : lexSwitch lexType (characterType l.current) l =
              .ok (.done .errorTok data, l₁) := by
            simpa [herr] using hrun
          exact ⟨l, _, _, (Moved.refl hv).reached, hrun,
            Or.inr ⟨hstarts, ⟨data, rfl⟩, herror.trans hi.error⟩⟩
        · rw [herr] at hreal; cases hreal

theorem lexFrom_succeeds [Platform] (lexType : LexType) (old : JSToken) (n : Nat) (l : Lexer)
    (hv : l.Valid) (hn : l.code.length < n) :
    Succeeds (lexFrom lexType old n) l (LexAnswer lexType l) := by
  induction n generalizing l with
  | zero => omega
  | succ n ih =>
      simp only [lexFrom, succeeds_bind, succeeds_bound, succeeds_currentOffset,
        succeeds_getCurrent, succeeds_ite]
      refine (whileShift_succeeds end_not_class.2.2.2.2.2.1 hv (by omega)).mono ?_
      rintro _ l₁ ⟨h₁, hspace⟩
      have hle := h₁.length_le
      have hr₁ := h₁.toMoved.reached
      split
      case isTrue hend => exact (succeeds_pure _).mpr (eofToken_lexed hr₁ h₁.idle hend)
      case isFalse hne =>
        have again : ∀ l', Reached l₁ l' → l'.code.length < l₁.code.length →
            Succeeds (lexFrom lexType old n) l' (LexAnswer lexType l') :=
          fun l' hr' hlt => ih l' hr'.valid (by omega)
        obtain ⟨exit, l₂, hrun, h₂⟩ := lexSwitch_scanned lexType h₁.valid hne hspace
        refine ⟨exit, l₂, hrun, ?_⟩
        beta_reduce
        split
        case isFalse hcomment =>
          simp only [succeeds_pure]
          exact (afterSwitch_succeeds h₁.valid again h₂ hcomment (Or.inr (Or.inr hrun))).mono
            fun _ _ h => h.after hr₁ h₁.idle
        case isTrue hcomment =>
          subst hcomment
          obtain ⟨hr₂, hlt₂, hi₂⟩ := h₂
          refine (inSingleLineComment_succeeds hr₂.valid).mono ?_
          rintro r l₃ ⟨hr₃, h₃⟩
          cases r with
          | none =>
              exact (succeeds_pure _).mpr (eofToken_lexed (hr₁.trans (hr₂.trans hr₃))
                (h₃.1 ∘ hi₂ ∘ h₁.idle) h₃.2)
          | some exit =>
              obtain ⟨l', hl', h₃, hexit⟩ := h₃
              have hle' := hl'.length_le
              refine (afterSwitch_succeeds hl'.valid
                (fun l'' hr'' hlt'' => ih l'' hr''.valid (by omega)) h₃
                (by rcases hexit with rfl | rfl <;> simp)
                (hexit.imp_right Or.inl)).mono fun _ _ h => ?_
              exact h.after (hr₁.trans (hr₂.trans hl'.toMoved.reached)) (hl'.idle ∘ hi₂ ∘ h₁.idle)

/-- What `lex` does after the assertions at its entry. -/
theorem lexStart_succeeds [Platform] (lexType : LexType) (old : JSToken) {l : Lexer}
    (hv : l.Valid) : Succeeds (do
      modify fun l => { l with terminator := false }
      lexFrom lexType old (← bound)) l (LexAnswer lexType l) := by
  simp only [succeeds_bind, succeeds_modify, succeeds_bound]
  have hr : Reached l { l with terminator := false } := ⟨hv, rfl, List.suffix_rfl⟩
  refine (lexFrom_succeeds lexType old _ { l with terminator := false } hv (by simp)).mono
    fun t l' h => ?_
  exact h.after hr fun hi => ⟨hi.valid, hi.error, hi.buffer8, hi.buffer16⟩

theorem lex_answers [Platform] (lexType : LexType) (old : JSToken) {l : Lexer} (hi : l.Idle) :
    Succeeds (lex lexType old) l (LexAnswer lexType l) := by
  have h := lexStart_succeeds lexType old hi.valid
  simp only [lex, succeeds_bind, succeeds_get, succeeds_assert] at h ⊢
  exact ⟨by simp [hi.error, hi.buffer8, hi.buffer16], h⟩

/-- **`lex` returns a token** when it is called between two tokens. -/
theorem lex_succeeds [Platform] (lexType : LexType) (old : JSToken) {l : Lexer} (hi : l.Idle) :
    Succeeds (lex lexType old) l (Lexed l) :=
  (lex_answers lexType old hi).mono fun _ _ h => h.1

/-- **Which invalid tokens set the flag**: all but identifiers. -/
theorem lex_invalid [Platform] {lexType : LexType} {old t : JSToken} {l l' : Lexer} (hi : l.Idle)
    (h : lex lexType old l = .ok (t, l')) (ht : t.type = .errorTok) : Invalid lexType l l' :=
  ((lex_answers lexType old hi).of_eq h).2 ht hi

/-! ## Regular expressions -/

theorem regExpLoop_succeeds (n : Nat) (escape brackets : Bool) (l : Lexer) (hv : l.Valid)
    (hn : l.code.length < n) :
    Succeeds (regExpLoop escape brackets n) l fun r l' => Moved l l' ∧
      l'.buffer8 = l.buffer8 ∧ (r = false → l'.buffer16 = []) := by
  induction n generalizing escape brackets l with
  | zero => omega
  | succ n ih =>
      simp only [regExpLoop, succeeds_bind, succeeds_getCurrent, succeeds_ite,
        succeeds_clearBuffer16, succeeds_shift, succeeds_record16]
      split
      case isTrue =>
        exact (succeeds_pure _).mpr ⟨(Moved.refl hv).buffers _ _, rfl, fun _ => rfl⟩
      case isFalse h =>
        have hne : l.current ≠ -1 := by
          intro hend
          simp [hend] at h
        have hlen := advance_length hv hne
        refine ⟨hne, ?_⟩
        split
        case isTrue => exact (succeeds_pure _).mpr ⟨advance_moved, rfl, fun h => by cases h⟩
        case isFalse =>
          refine ⟨recordable_of_ne_end hv hne, ?_⟩
          have hrest : ∀ b₁ b₂, Succeeds (regExpLoop b₁ b₂ n) { l.advance with
              buffer16 := l.advance.buffer16 ++ [l.current.toNat.toUInt16] } fun r l' =>
                Moved l l' ∧ l'.buffer8 = l.buffer8 ∧ (r = false → l'.buffer16 = []) := by
            intro b₁ b₂
            refine (ih b₁ b₂ { l.advance with
              buffer16 := l.advance.buffer16 ++ [l.current.toNat.toUInt16] } rfl
              (by change l.advance.code.length < n; omega)).mono ?_
            rintro r l' ⟨hm, h8, hr⟩
            exact ⟨(advance_moved.buffers _ _).trans hm, h8, hr⟩
          repeat' split
          all_goals exact hrest _ _

/-- The loops of `scanRegExp` leave `m_buffer16` empty. -/
theorem scanPattern_succeeds {l : Lexer} (hv : l.Valid) :
    Succeeds scanPattern l fun _ l' => Moved l l' ∧ l'.buffer8 = l.buffer8 ∧ l'.buffer16 = [] := by
  simp only [scanPattern, succeeds_bind, succeeds_bound, succeeds_ite, succeeds_get,
    succeeds_clearBuffer16]
  refine (regExpLoop_succeeds _ false false l hv (by simp)).mono ?_
  rintro ok l₁ ⟨h₁, h8, hr⟩
  split
  case isTrue hok => exact (succeeds_pure _).mpr ⟨h₁, h8, hr (by simpa using hok)⟩
  case isFalse =>
    let I : Lexer → Prop := fun l' => Moved l l' ∧ l'.buffer8 = l.buffer8
    refine (whileCurrent_succeeds (I := I) (fun l' hl' hc => ?_) _ { l₁ with buffer16 := [] }
      ⟨h₁.buffers _ _, h8⟩ (by simp)).mono ?_
    · have hne := ne_end_of end_not_class.1 hc
      have hlen := advance_length hl'.1.valid hne
      simp only [succeeds_bind, succeeds_getCurrent, succeeds_record16, succeeds_shift]
      refine ⟨recordable_of_ne_end hl'.1.valid hne, hne, ⟨?_, hl'.2⟩, ?_⟩
      · exact (hl'.1.buffers l'.buffer8 _).trans advance_moved
      · simp only [advance] at hlen ⊢
        omega
    · rintro _ l₂ ⟨⟨h₂, h8'⟩, -⟩
      exact (succeeds_pure _).mpr ⟨h₂.buffers _ _, h8', rfl⟩

/-- A prefix that the assertions of `scanRegExp` allow. -/
def RegExpPrefix (c : UChar) : Prop :=
  isLineTerminator c.toNat = false ∧ (c.toNat : Int) ≠ chr '/' ∧ (c.toNat : Int) ≠ chr '['

theorem recordable_toNat (c : UChar) : Recordable c.toNat := by
  have := c.toNat_lt
  simp only [Recordable]
  omega

/-- **`scanRegExp` succeeds** when it is called between two tokens, and leaves
the lexer between two tokens. -/
theorem scanRegExp_succeeds (patternPrefix : Option UChar) {l : Lexer} (hi : l.Idle)
    (hpre : ∀ c, patternPrefix = some c → RegExpPrefix c) :
    Succeeds (scanRegExp patternPrefix) l fun _ l' => Moved l l' ∧ l'.Idle := by
  have hrest : ∀ b, Succeeds scanPattern { l with buffer16 := b } fun _ l' =>
      Moved l l' ∧ l'.Idle := by
    intro b
    refine (scanPattern_succeeds (l := { l with buffer16 := b }) hi.valid).mono ?_
    rintro _ l' ⟨h, h8, h16⟩
    have h : Moved l l' := ((Moved.refl hi.valid).buffers l.buffer8 b).trans h
    exact ⟨h, h.valid, h.error.trans hi.error, h8.trans hi.buffer8, h16⟩
  simp only [scanRegExp, succeeds_bind, succeeds_get, succeeds_assert]
  refine ⟨by simp [hi.buffer16], ?_⟩
  cases patternPrefix with
  | none => simpa only [succeeds_pure] using hrest l.buffer16
  | some c =>
      obtain ⟨hterm, hslash, hbracket⟩ := hpre c rfl
      simp only [succeeds_bind, succeeds_assert, succeeds_record16]
      exact ⟨by simp [hterm], by simpa using hslash, by simpa using hbracket, recordable_toNat c,
        hrest _⟩

end Lexer

end HammerJS
