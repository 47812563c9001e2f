import HammerJS.Procs.Partial
import HammerJS.Reflect.Lex

/-!
# Line numbers

`m_lineNumber` never becomes smaller: `shiftLineTerminator` alone writes it, and counts on.

* `Lexer.Lines` — a routine does not make `m_lineNumber` smaller.
* `Lexer.lex_lines` — neither does `lex`.
* `Lexer.scanRegExp_grows` — `scanRegExp` writes its buffer, and reads on.
-/

namespace HammerJS

open Procs

namespace Lexer

/-- A routine that does not make `m_lineNumber` smaller. -/
abbrev Lines {α : Type} (x : LexM α) : Prop := Grows (fun l : Lexer => l.lineNumber) x

/-! ## Single steps -/

theorem assert_lines (c : Bool) (e : Crash) : Lines (assert c e) := .ite (.pure _) (.throw e)

theorem getCurrent_lines : Lines getCurrent := .bind .get fun _ => .pure _

theorem currentCharacter_lines : Lines currentCharacter := .bind .get fun _ => .pure _

theorem currentOffset_lines : Lines currentOffset :=
  .bind .get fun _ => .bind .get fun _ => .pure _

theorem bound_lines : Lines bound := .bind .get fun _ => .pure _

theorem peek_lines (n : Nat) : Lines (peek n) := .bind .get fun _ => .pure _

theorem shift_lines : Lines shift :=
  .bind getCurrent_lines fun _ => .bind (assert_lines _ _) fun _ => .modify fun _ => le_rfl

theorem record8_lines (c : Int) : Lines (record8 c) :=
  .bind (assert_lines _ _) fun _ => .modify fun _ => le_rfl

theorem record16_lines (c : Int) : Lines (record16 c) :=
  .bind (assert_lines _ _) fun _ => .modify fun _ => le_rfl

theorem appendSegment_lines (start : List UChar) : Lines (appendSegment start) :=
  .modify fun _ => le_rfl

theorem clearBuffer8_lines : Lines clearBuffer8 := .modify fun _ => le_rfl

theorem clearBuffer16_lines : Lines clearBuffer16 := .modify fun _ => le_rfl

theorem whileCurrent_lines {cond : Int → Bool} {body : LexM Unit} (hbody : Lines body) (n : Nat) :
    Lines (whileCurrent cond body n) := by
  induction n with
  | zero => exact .throw _
  | succ n ih => exact .bind getCurrent_lines fun _ => .ite (.bind hbody fun _ => ih) (.pure _)

/-- A line terminator counts. -/
theorem shiftLineTerminator_lines : Lines shiftLineTerminator := by
  have hcount : Lines (modify fun l : Lexer => { l with lineNumber := l.lineNumber + 1 }) :=
    .modify fun l => Nat.le_succ l.lineNumber
  unfold shiftLineTerminator
  repeat' first
    | exact hcount | apply getCurrent_lines | apply shift_lines | apply assert_lines
    | apply Grows.pure | apply Grows.ite | refine Grows.bind ?_ fun _ => ?_

theorem getUnicodeCharacter_lines : Lines getUnicodeCharacter := by
  unfold getUnicodeCharacter convertUnicode convertHex
  repeat' first
    | apply peek_lines | apply getCurrent_lines | apply shift_lines | apply assert_lines
    | apply Grows.pure | apply Grows.ite | refine Grows.bind ?_ fun _ => ?_

/-! ## Scanners -/

theorem identifierLoop_lines (bufferRequired : Bool) (start : List UChar) (n : Nat) :
    Lines (identifierLoop bufferRequired start n) := by
  induction n generalizing bufferRequired start with
  | zero => exact .throw _
  | succ n ih =>
      unfold identifierLoop
      repeat' first
        | apply ih | apply getCurrent_lines | apply currentCharacter_lines | apply shift_lines
        | apply appendSegment_lines | apply getUnicodeCharacter_lines | apply record16_lines
        | apply Grows.get | apply Grows.pure | apply Grows.ite | refine Grows.bind ?_ fun _ => ?_

theorem parseIdentifier_lines (lexType : LexType) : Lines (parseIdentifier lexType) := by
  refine .bind currentCharacter_lines fun _ => .bind bound_lines fun _ =>
    .bind (identifierLoop_lines _ _ _) fun r => ?_
  cases r with
  | none => exact .pure _
  | some r =>
      repeat' first
        | apply currentCharacter_lines | apply appendSegment_lines | apply clearBuffer16_lines
        | apply Grows.get | apply Grows.pure | apply Grows.ite | refine Grows.bind ?_ fun _ => ?_

theorem parseEscape_lines (quote : Int) : Lines (parseEscape quote) := by
  unfold parseEscape convertHex
  repeat' first
    | apply shiftLineTerminator_lines | apply getUnicodeCharacter_lines | apply record16_lines
    | apply getCurrent_lines | apply peek_lines | apply shift_lines | apply assert_lines
    | apply Grows.pure | apply Grows.ite | refine Grows.bind ?_ fun _ => ?_

theorem stringLoop_lines (quote : Int) (start : List UChar) (n : Nat) :
    Lines (stringLoop quote start n) := by
  induction n generalizing start with
  | zero => exact .throw _
  | succ n ih =>
      unfold stringLoop
      repeat' first
        | apply ih | apply getCurrent_lines | apply currentCharacter_lines | apply shift_lines
        | apply appendSegment_lines | apply parseEscape_lines
        | apply Grows.pure | apply Grows.ite | refine Grows.bind ?_ fun _ => ?_

theorem parseString_lines : Lines parseString := by
  refine .bind getCurrent_lines fun _ => .bind shift_lines fun _ =>
    .bind currentCharacter_lines fun _ => .bind bound_lines fun _ =>
      .bind (stringLoop_lines _ _ _) fun r => ?_
  cases r with
  | none => exact .pure _
  | some start =>
      exact .bind (appendSegment_lines _) fun _ => .bind (.bind .get fun _ => .pure _) fun _ =>
        .bind clearBuffer16_lines fun _ => .pure _

theorem recordWhile_lines (cond : Int → Bool) : Lines (recordWhile cond) :=
  .bind bound_lines fun _ => whileCurrent_lines
    (.bind getCurrent_lines fun _ => .bind (record8_lines _) fun _ => shift_lines) _

theorem hexLoop_lines (value : Nat) (maximumDigits : Int) (n : Nat) :
    Lines (hexLoop value maximumDigits n) := by
  induction n generalizing value maximumDigits with
  | zero => exact .throw _
  | succ n ih =>
      unfold hexLoop
      repeat' first
        | apply ih | apply getCurrent_lines | apply assert_lines | apply shift_lines
        | apply Grows.pure | apply Grows.ite | refine Grows.bind ?_ fun _ => ?_

theorem digitLoop_lines (radix : Nat) (isDigit : Int → Bool) (value : Nat) (digits : List Int)
    (maximumDigits : Int) (n : Nat) :
    Lines (digitLoop radix isDigit value digits maximumDigits n) := by
  induction n generalizing value digits maximumDigits with
  | zero => exact .throw _
  | succ n ih =>
      unfold digitLoop
      repeat' first
        | apply ih | apply getCurrent_lines | apply assert_lines | apply shift_lines
        | apply Grows.pure | apply Grows.ite | refine Grows.bind ?_ fun _ => ?_

theorem recordHexValue_lines (value n : Nat) : Lines (recordHexValue value n) := by
  induction n generalizing value with
  | zero => exact .pure _
  | succ n ih =>
      exact .ite (.bind (record8_lines _) fun _ => ih _) (.bind (record8_lines _) fun _ => ih _)

theorem recordDigits_lines (digits : List Int) : Lines (recordDigits digits) := by
  induction digits with
  | nil => exact .pure _
  | cons d ds ih => exact .bind (record8_lines d) fun _ => ih

theorem parseMultilineComment_lines (n : Nat) : Lines (parseMultilineComment n) := by
  induction n with
  | zero => exact .throw _
  | succ n ih =>
      unfold parseMultilineComment
      repeat' first
        | apply ih | apply getCurrent_lines | apply shift_lines | apply shiftLineTerminator_lines
        | apply Grows.pure | apply Grows.ite | refine Grows.bind ?_ fun _ => ?_

/-! ## Numbers -/

theorem parseDecimal_lines : Lines parseDecimal := by
  unfold parseDecimal
  repeat' first
    | apply getCurrent_lines | apply bound_lines | apply digitLoop_lines | apply recordDigits_lines
    | apply recordWhile_lines
    | apply Grows.get | apply Grows.pure | apply Grows.ite | refine Grows.bind ?_ fun _ => ?_

theorem endNumber_lines (d : Double) : Lines (endNumber d) := by
  unfold endNumber
  repeat' first
    | apply getCurrent_lines | apply clearBuffer8_lines
    | apply Grows.pure | apply Grows.ite | refine Grows.bind ?_ fun _ => ?_

section Numbers

variable [Platform]

theorem parseHex_lines : Lines parseHex := by
  unfold parseHex
  repeat' first
    | apply shift_lines | apply bound_lines | apply hexLoop_lines | apply recordHexValue_lines
    | apply recordWhile_lines
    | apply Grows.get | apply Grows.pure | apply Grows.ite | refine Grows.bind ?_ fun _ => ?_

theorem parseOctal_lines : Lines parseOctal := by
  unfold parseOctal
  repeat' first
    | apply getCurrent_lines | apply bound_lines | apply digitLoop_lines | apply recordDigits_lines
    | apply recordWhile_lines
    | apply Grows.get | apply Grows.pure | apply Grows.ite | refine Grows.bind ?_ fun _ => ?_

theorem finishNumber_lines : Lines finishNumber := by
  unfold finishNumber parseNumberAfterExponentIndicator
  repeat' first
    | apply getCurrent_lines | apply record8_lines | apply shift_lines | apply recordWhile_lines
    | apply endNumber_lines
    | apply Grows.get | apply Grows.pure | apply Grows.ite | refine Grows.bind ?_ fun _ => ?_

theorem inNumberAfterDecimalPoint_lines : Lines inNumberAfterDecimalPoint :=
  .bind (.bind (record8_lines _) fun _ => recordWhile_lines _) fun _ => finishNumber_lines

theorem lexNumber_lines : Lines lexNumber := by
  refine .bind parseDecimal_lines fun r => ?_
  cases r with
  | some d => exact endNumber_lines d
  | none =>
      exact .bind getCurrent_lines fun _ =>
        .ite (.bind shift_lines fun _ => inNumberAfterDecimalPoint_lines) finishNumber_lines

theorem lexZero_lines : Lines lexZero := by
  unfold lexZero
  repeat' first
    | apply parseOctal_lines | apply getCurrent_lines | apply peek_lines | apply shift_lines
    | apply record8_lines | apply parseHex_lines | apply endNumber_lines | apply lexNumber_lines
    | apply Grows.ite | refine Grows.bind ?_ fun _ => ?_ | split

theorem lexDot_lines : Lines lexDot :=
  .bind shift_lines fun _ => .bind getCurrent_lines fun _ =>
    .ite (.pure _) inNumberAfterDecimalPoint_lines

end Numbers

/-! ## Tokens -/

theorem ifNext_lines (c : Char) {x y : LexM Exit} (hx : Lines x) (hy : Lines y) :
    Lines (ifNext c x y) :=
  .bind getCurrent_lines fun _ => .ite (.bind shift_lines fun _ => hx) hy

theorem endLine_lines : Lines endLine := by
  unfold endLine lastTokenWasRestrKeyword
  repeat' first
    | apply shiftLineTerminator_lines | apply Grows.get
    | apply Grows.pure | apply Grows.ite | refine Grows.bind ?_ fun _ => ?_
  exact .modify fun _ => le_rfl

theorem inSingleLineComment_lines : Lines inSingleLineComment := by
  unfold inSingleLineComment
  repeat' first
    | exact whileCurrent_lines shift_lines _ | apply getCurrent_lines | apply bound_lines
    | apply endLine_lines
    | apply Grows.pure | apply Grows.ite | refine Grows.bind ?_ fun _ => ?_

theorem lexQuote_lines : Lines lexQuote := by
  refine .bind parseString_lines fun r => ?_
  cases r with
  | none => exact .pure _
  | some ident => exact .bind shift_lines fun _ => .pure _

theorem lexIdentifier_lines (lexType : LexType) : Lines (lexIdentifier lexType) :=
  .bind (parseIdentifier_lines lexType) fun _ => .pure _

theorem lexSlash_lines : Lines lexSlash := by
  unfold lexSlash token
  repeat' first
    | apply parseMultilineComment_lines | apply bound_lines | apply shift_lines
    | apply ifNext_lines | apply Grows.pure | apply Grows.ite | refine Grows.bind ?_ fun _ => ?_

/-- The cases of operators and punctuators: they read on by `shift()`. -/
theorem lexOperator_lines : Lines lexGreater ∧ Lines lexEqual ∧ Lines lexLess ∧
    Lines lexExclamationMark ∧ Lines lexAdd ∧ Lines lexSub ∧ Lines lexMultiply ∧ Lines lexAnd ∧
      Lines lexXor ∧ Lines lexModulo ∧ Lines lexOr ∧ ∀ t, Lines (lexSingle t) := by
  refine ⟨?_, ?_, ?_, ?_, ?_, ?_, ?_, ?_, ?_, ?_, ?_, fun t => ?_⟩ <;>
  [unfold lexGreater; unfold lexEqual; unfold lexLess; unfold lexExclamationMark; unfold lexAdd;
    unfold lexSub; unfold lexMultiply; unfold lexAnd; unfold lexXor; unfold lexModulo;
    unfold lexOr; unfold lexSingle] <;>
  unfold token <;>
  repeat' first
    | apply getCurrent_lines | apply peek_lines | apply shift_lines | apply ifNext_lines
    | apply Grows.get | apply Grows.pure | apply Grows.ite
    | refine Grows.bind ?_ fun _ => ?_

theorem returnToken_lines (startOffset : Nat) (t : JSTokenType) (data : JSTokenData) :
    Lines (returnToken startOffset t data) :=
  .bind currentOffset_lines fun _ => .bind (.modify fun _ => le_rfl) fun _ =>
    .bind .get fun _ => .pure _

/-- What `scanRegExp` does not write, it does not make smaller. -/
theorem scanRegExp_grows {f : Lexer → Nat}
    (hf : ∀ l buffer16 code current, f { l with buffer16, code, current } = f l)
    (patternPrefix : Option UChar) : Grows f (scanRegExp patternPrefix) := by
  have hassert c e : Grows f (assert c e) := .ite (.pure _) (.throw e)
  have hcurrent : Grows f getCurrent := .bind .get fun _ => .pure _
  have hbound : Grows f bound := .bind .get fun _ => .pure _
  have hshift : Grows f shift :=
    .bind hcurrent fun _ => .bind (hassert _ _) fun _ => .modify fun l => (hf l _ _ _).ge
  have hrecord c : Grows f (record16 c) :=
    .bind (hassert _ _) fun _ => .modify fun l => (hf l _ l.code l.current).ge
  have hclear : Grows f clearBuffer16 := .modify fun l => (hf l _ l.code l.current).ge
  have hloop (lastWasEscape inBrackets : Bool) (n : Nat) :
      Grows f (regExpLoop lastWasEscape inBrackets n) := by
    induction n generalizing lastWasEscape inBrackets with
    | zero => exact .throw _
    | succ n ih =>
        unfold regExpLoop
        repeat' first
          | apply ih | exact hcurrent | exact hshift | exact hclear | apply hrecord
          | apply Grows.pure | apply Grows.ite | refine Grows.bind ?_ fun _ => ?_
  have hflags (n : Nat) :
      Grows f (whileCurrent isIdentPart (do record16 (← getCurrent); shift) n) := by
    induction n with
    | zero => exact .throw _
    | succ n ih =>
        exact .bind hcurrent fun _ => .ite (.bind (.bind hcurrent fun _ =>
          .bind (hrecord _) fun _ => hshift) fun _ => ih) (.pure _)
  have hpattern : Grows f scanPattern := by
    unfold scanPattern
    repeat' first
      | apply hloop | apply hflags | exact hbound | exact hclear
      | apply Grows.get | apply Grows.pure | apply Grows.ite | refine Grows.bind ?_ fun _ => ?_
  refine .bind .get fun _ => .bind (hassert _ _) fun _ => ?_
  cases patternPrefix with
  | none => exact hpattern
  | some c =>
      exact .bind (hassert _ _) fun _ => .bind (hassert _ _) fun _ =>
        .bind (hassert _ _) fun _ => .bind (hrecord _) fun _ => hpattern

variable [Platform]

theorem lexSwitch_lines (lexType : LexType) (type : CharacterType) :
    Lines (lexSwitch lexType type) := by
  obtain ⟨hgreater, hequal, hless, hexclamation, hadd, hsub, hmultiply, hand, hxor, hmodulo, hor,
    hsingle⟩ := lexOperator_lines
  cases type with
  | greater => exact hgreater
  | equal => exact hequal
  | less => exact hless
  | exclamationMark => exact hexclamation
  | add => exact hadd
  | sub => exact hsub
  | multiply => exact hmultiply
  | and => exact hand
  | xor => exact hxor
  | modulo => exact hmodulo
  | or => exact hor
  | slash => exact lexSlash_lines
  | openBrace | closeBrace =>
      exact .bind currentOffset_lines fun _ => .bind shift_lines fun _ => .pure _
  | dot => exact lexDot_lines
  | zero => exact lexZero_lines
  | number => exact lexNumber_lines
  | quote => exact lexQuote_lines
  | identifierStart =>
      exact .bind getCurrent_lines fun _ => .bind (assert_lines _ _) fun _ => lexIdentifier_lines _
  | backSlash => exact lexIdentifier_lines _
  | lineTerminator =>
      exact .bind getCurrent_lines fun _ => .bind (assert_lines _ _) fun _ => endLine_lines
  | invalid => exact .pure _
  | whiteSpace => exact .throw _
  | _ => exact hsingle _

theorem lexFrom_lines (lexType : LexType) (old : JSToken) (n : Nat) :
    Lines (lexFrom lexType old n) := by
  induction n with
  | zero => exact .throw _
  | succ n ih =>
      refine .bind bound_lines fun _ => .bind (whileCurrent_lines shift_lines _) fun _ =>
        .bind currentOffset_lines fun _ => .bind getCurrent_lines fun _ =>
          .ite (.pure _) (.bind (lexSwitch_lines _ _) fun exit => ?_)
      refine .ite (.bind inSingleLineComment_lines fun exit => ?_) (.bind (.pure _) fun exit => ?_)
      all_goals
        rcases exit with - | (⟨t, data⟩ | - | - | t | -)
        · exact .pure _
        · exact .bind (.modify fun _ => le_rfl) fun _ => returnToken_lines _ _ _
        · exact ih
        · exact ih
        · exact returnToken_lines _ _ _
        · exact .bind (.modify fun _ => le_rfl) fun _ => .pure _

/-- `lex` does not make `m_lineNumber` smaller. -/
theorem lex_lines (lexType : LexType) (old : JSToken) : Lines (lex lexType old) :=
  .bind .get fun _ => .bind (assert_lines _ _) fun _ => .bind (.modify fun _ => le_rfl) fun _ =>
    .bind bound_lines fun _ => lexFrom_lines _ _ _

end Lexer

end HammerJS
