import HammerJS.Reflect.Lexer

/-!
# The lexer: tokens

`Lexer::lex` and `Lexer::scanRegExp`.

The switch of `lex` ends in one of five ways: it leaves the switch with a token,
or jumps to one of the labels `start`, `inSingleLineComment`, `returnToken` and
`returnError`.  `Exit` is that choice; each case of the switch is a routine of
its own, and `lexFrom` follows the jumps.
-/

namespace HammerJS

/-- How the switch of `lex` is left. -/
inductive Exit where
  /-- `break`, with the token found and the value written through `lvalp`, if any. -/
  | done (token : JSTokenType) (data : Option JSTokenData)
  /-- `goto start`. -/
  | start
  /-- `goto inSingleLineComment`. -/
  | inSingleLineComment
  /-- `goto returnToken`. -/
  | returnToken (token : JSTokenType)
  /-- `goto returnError`. -/
  | returnError
  deriving DecidableEq

namespace Lexer

/-- If the current character is `c`, read it and go on with `x`, else with `y`. -/
def ifNext (c : Char) (x y : LexM Exit) : LexM Exit := do
  if (← getCurrent) = chr c then
    shift
    x
  else y

/-- Leave the switch with a token that carries no value. -/
def token (t : JSTokenType) : LexM Exit := return .done t none

/-- Case `CharacterGreater`. -/
def lexGreater : LexM Exit := do
  shift
  ifNext '>'
    (ifNext '>'
      (ifNext '=' (token .urshiftEqual) (token .urshift))
      (ifNext '=' (token .rshiftEqual) (token .rshift)))
    (ifNext '=' (token .ge) (token .gt))

/-- Case `CharacterEqual`. -/
def lexEqual : LexM Exit := do
  shift
  ifNext '=' (ifNext '=' (token .strEq) (token .eqEq)) (token .equal)

/-- Case `CharacterLess`; `<!--` opens a single-line comment. -/
def lexLess : LexM Exit := do
  shift
  if (← getCurrent) = chr '!' ∧ (← peek 1) = chr '-' ∧ (← peek 2) = chr '-' then
    return .inSingleLineComment
  ifNext '<'
    (ifNext '=' (token .lshiftEqual) (token .lshift))
    (ifNext '=' (token .le) (token .lt))

/-- Case `CharacterExclamationMark`. -/
def lexExclamationMark : LexM Exit := do
  shift
  ifNext '=' (ifNext '=' (token .strNeq) (token .ne)) (token .exclamation)

/-- Case `CharacterAdd`; `++` after a line terminator is never postfix. -/
def lexAdd : LexM Exit := do
  shift
  ifNext '+'
    (do token (if !(← get).terminator then .plusPlus else .autoPlusPlus))
    (ifNext '=' (token .plusEqual) (token .plus))

/-- Case `CharacterSub`; `-->` at the start of a line opens a single-line comment. -/
def lexSub : LexM Exit := do
  shift
  ifNext '-'
    (do
      if (← get).atLineStart ∧ (← getCurrent) = chr '>' then
        shift
        return .inSingleLineComment
      token (if !(← get).terminator then .minusMinus else .autoMinusMinus))
    (ifNext '=' (token .minusEqual) (token .minus))

/-- Case `CharacterMultiply`. -/
def lexMultiply : LexM Exit := do
  shift
  ifNext '=' (token .multEqual) (token .times)

/-- Case `CharacterSlash`: comments and division. -/
def lexSlash : LexM Exit := do
  shift
  ifNext '/' (return .inSingleLineComment)
    (ifNext '*'
      (do if ← parseMultilineComment (← bound) then return .start else return .returnError)
      (ifNext '=' (token .divEqual) (token .divide)))

/-- Case `CharacterAnd`. -/
def lexAnd : LexM Exit := do
  shift
  ifNext '&' (token .and) (ifNext '=' (token .andEqual) (token .bitAnd))

/-- Case `CharacterXor`. -/
def lexXor : LexM Exit := do
  shift
  ifNext '=' (token .xorEqual) (token .bitXor)

/-- Case `CharacterModulo`. -/
def lexModulo : LexM Exit := do
  shift
  ifNext '=' (token .modEqual) (token .mod)

/-- Case `CharacterOr`. -/
def lexOr : LexM Exit := do
  shift
  ifNext '=' (token .orEqual) (ifNext '|' (token .or) (token .bitOr))

/-- The cases of one character. -/
def lexSingle (t : JSTokenType) : LexM Exit := do
  shift
  token t

/-- Cases `CharacterOpenBrace` and `CharacterCloseBrace`, which carry their offset. -/
def lexBrace (t : JSTokenType) : LexM Exit := do
  let offset ← currentOffset
  shift
  return .done t (some (.intValue offset))

/-- What follows every number: no identifier may start right after it. -/
def endNumber (d : Double) : LexM Exit := do
  if isIdentStart (← getCurrent) then return .returnError
  clearBuffer8
  return .done .number (some (.doubleValue d))

/-- The exponent, and the conversion of the digits in `m_buffer8`. -/
def finishNumber [Platform] : LexM Exit := do
  if orBit20 (← getCurrent) = chr 'e' then
    if !(← parseNumberAfterExponentIndicator) then return .returnError
  endNumber (Platform.strtod (← get).buffer8)

/-- The label `inNumberAfterDecimalPoint`, and the rest of the number. -/
def inNumberAfterDecimalPoint [Platform] : LexM Exit := do
  parseNumberAfterDecimalPoint
  finishNumber

/-- Case `CharacterNumber`, when the number is not complete yet. -/
def lexNumber [Platform] : LexM Exit := do
  match ← parseDecimal with
  | some d => endNumber d
  | none =>
      if (← getCurrent) = chr '.' then
        shift
        inNumberAfterDecimalPoint
      else finishNumber

/-- Case `CharacterZero`, which falls through into `CharacterNumber`. -/
def lexZero [Platform] : LexM Exit := do
  shift
  if orBit20 (← getCurrent) = chr 'x' ∧ isASCIIHexDigit (← peek 1) then
    endNumber (← parseHex)
  else
    record8 (chr '0')
    if isASCIIOctalDigit (← getCurrent) then
      match ← parseOctal with
      | some d => endNumber d
      | none => lexNumber
    else lexNumber

/-- Case `CharacterDot`. -/
def lexDot [Platform] : LexM Exit := do
  shift
  if !isASCIIDigit (← getCurrent) then token .dot
  else inNumberAfterDecimalPoint

/-- Case `CharacterQuote`. -/
def lexQuote : LexM Exit := do
  match ← parseString with
  | none => return .returnError
  | some ident => do
      shift
      return .done .string (some (.ident ident))

/-- Cases `CharacterIdentifierStart` and `CharacterBackSlash`. -/
def lexIdentifier (lexType : LexType) : LexM Exit := do
  let (t, ident) ← parseIdentifier lexType
  return .done t (ident.map .ident)

/-- Read a line terminator; after a restricted keyword it ends the statement. -/
def endLine : LexM Exit := do
  shiftLineTerminator
  modify fun l => { l with atLineStart := true, terminator := true }
  if ← lastTokenWasRestrKeyword then return .returnToken .semicolon
  return .start

/-- Case `CharacterLineTerminator`. -/
def lexLineTerminator : LexM Exit := do
  assert (isLineTerminator (← getCurrent)) .notLineTerminator
  endLine

/-- The type of the current character, when it is not the end of the input. -/
def characterType (c : Int) : CharacterType :=
  if isASCII c then asciiType c
  else if isLineTerminator c then .lineTerminator
  else .invalid

/-- The switch of `lex`. -/
def lexSwitch [Platform] (lexType : LexType) : CharacterType → LexM Exit
  | .greater => lexGreater
  | .equal => lexEqual
  | .less => lexLess
  | .exclamationMark => lexExclamationMark
  | .add => lexAdd
  | .sub => lexSub
  | .multiply => lexMultiply
  | .slash => lexSlash
  | .and => lexAnd
  | .xor => lexXor
  | .modulo => lexModulo
  | .or => lexOr
  | .openParen => lexSingle .openParen
  | .closeParen => lexSingle .closeParen
  | .openBracket => lexSingle .openBracket
  | .closeBracket => lexSingle .closeBracket
  | .comma => lexSingle .comma
  | .colon => lexSingle .colon
  | .question => lexSingle .question
  | .tilde => lexSingle .tilde
  | .semicolon => lexSingle .semicolon
  | .openBrace => lexBrace .openBrace
  | .closeBrace => lexBrace .closeBrace
  | .dot => lexDot
  | .zero => lexZero
  | .number => lexNumber
  | .quote => lexQuote
  | .identifierStart => do
      assert (isIdentStart (← getCurrent)) .notIdentStart
      lexIdentifier lexType
  | .backSlash => lexIdentifier lexType
  | .lineTerminator => lexLineTerminator
  | .invalid => return .returnError
  | .whiteSpace => throw .notReached

/-- The label `inSingleLineComment`: none at the end of the input. -/
def inSingleLineComment : LexM (Option Exit) := do
  whileCurrent (fun c => !isLineTerminator c && c != -1) shift (← bound)
  if (← getCurrent) = -1 then return none
  return some (← endLine)

/-- The label `returnToken`. -/
def returnToken (startOffset : Nat) (t : JSTokenType) (data : JSTokenData) : LexM JSToken := do
  let endOffset ← currentOffset
  modify fun l => { l with lastToken := some t }
  return ⟨t, data, (← get).lineNumber, startOffset, endOffset⟩

/-- The label `start` and what follows, `old` being the token record that the
results are written into.  The bound is on the number of jumps back to `start`. -/
def lexFrom [Platform] (lexType : LexType) (old : JSToken) : Nat → LexM JSToken
  | 0 => throw .loopBound
  | n + 1 => do
      whileCurrent isWhiteSpace shift (← bound)
      let startOffset ← currentOffset
      let current ← getCurrent
      if current = -1 then return { old with type := .eofTok }
      let exit ← lexSwitch lexType (characterType current)
      let exit ← if exit = .inSingleLineComment then inSingleLineComment else pure (some exit)
      match exit with
      | none => return { old with type := .eofTok }
      | some (.done t data) =>
          modify fun l => { l with atLineStart := false }
          returnToken startOffset t (data.getD old.data)
      | some (.returnToken t) => returnToken startOffset t old.data
      | some .returnError =>
          modify fun l => { l with error := true }
          return { old with type := .errorTok }
      | some _ => lexFrom lexType old n

/-- `lex(lvalp, llocp, lexType)`, with the token record written through `lvalp`
and `llocp`. -/
def lex [Platform] (lexType : LexType) (old : JSToken) : LexM JSToken := do
  let l ← get
  assert (!l.error && l.buffer8.isEmpty && l.buffer16.isEmpty) .lexEntry
  modify fun l => { l with terminator := false }
  lexFrom lexType old (← bound)

/-- The loop of `scanRegExp` over the body of the literal; false if it has none. -/
def regExpLoop (lastWasEscape inBrackets : Bool) : Nat → LexM Bool
  | 0 => throw .loopBound
  | n + 1 => do
      let current ← getCurrent
      if isLineTerminator current || current == -1 then
        clearBuffer16
        return false
      shift
      if current = chr '/' ∧ !lastWasEscape ∧ !inBrackets then return true
      record16 current
      if lastWasEscape then regExpLoop false inBrackets n
      else if current = chr '[' then regExpLoop false true n
      else if current = chr ']' then regExpLoop false false n
      else if current = chr '\\' then regExpLoop true inBrackets n
      else regExpLoop false inBrackets n

/-- `scanRegExp`, once the prefix has been recorded. -/
def scanPattern : LexM (Option (Identifier × Identifier)) := do
  if !(← regExpLoop false false (← bound)) then return none
  let pattern := (← get).buffer16
  clearBuffer16
  whileCurrent isIdentPart (do record16 (← getCurrent); shift) (← bound)
  let flags := (← get).buffer16
  clearBuffer16
  return some (pattern, flags)

/-- `scanRegExp(pattern, flags, patternPrefix)`: the pattern and the flags. -/
def scanRegExp (patternPrefix : Option UChar) : LexM (Option (Identifier × Identifier)) := do
  assert (← get).buffer16.isEmpty .scanRegExpEntry
  match patternPrefix with
  | some c =>
      assert (!isLineTerminator c.toNat) .scanRegExpEntry
      assert ((c.toNat : Int) != chr '/') .scanRegExpEntry
      assert ((c.toNat : Int) != chr '[') .scanRegExpEntry
      record16 c.toNat
  | none => pure ()
  scanPattern

/-- `setOffset(offset)`. -/
def setOffset (offset : Nat) (l : Lexer) : Lexer :=
  { l with code := l.codeStart.drop offset, current := codeUnit (l.codeStart.drop offset) }

end Lexer

end HammerJS
