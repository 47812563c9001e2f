import HammerJS.Reflect.Token

/-!
# The lexer: state, characters and scanners

The character classes and the scanning routines of `Lexer.cpp`.

A pointer into the source text is modelled by the text from it to the end, so
`m_code` is a suffix of `m_codeStart`, `++m_code` drops a character and the
difference of two pointers is a difference of lengths.  `m_current` is kept as
the code keeps it: the character at `m_code`, or `-1`.  The lines and flags that
nothing reads (`m_delimited`, `m_isReparsing`, `m_lastLineNumber`) are left out.

A routine runs in `LexM`: it passes the lexer along and stops at the first
failing assertion.
-/

namespace HammerJS

/-! ## Characters -/

/-- The code of a character constant. -/
def chr (c : Char) : Int := c.toNat

/-- `isASCII`. -/
def isASCII (c : Int) : Bool := 0 ≤ c && c ≤ 0x7F

/-- `isASCIIDigit`. -/
def isASCIIDigit (c : Int) : Bool := chr '0' ≤ c && c ≤ chr '9'

/-- `isASCIIOctalDigit`. -/
def isASCIIOctalDigit (c : Int) : Bool := chr '0' ≤ c && c ≤ chr '7'

/-- `c | 0x20`; the end marker `-1` has all bits set already. -/
def orBit20 (c : Int) : Int := if c < 0 then c else ((c.toNat ||| 0x20 : Nat) : Int)

/-- `isASCIIHexDigit`. -/
def isASCIIHexDigit (c : Int) : Bool :=
  (chr '0' ≤ c && c ≤ chr '9') || (chr 'a' ≤ orBit20 c && orBit20 c ≤ chr 'f')

/-- `toASCIIHexValue`, after its assertion. -/
def hexValue (c : Int) : Nat :=
  if c < chr 'A' then (c - chr '0').toNat else (c - chr 'A' + 10).toNat % 16

/-- `CharacterType`, in the order of the enumeration. -/
inductive CharacterType where
  | identifierStart | zero | number
  | invalid | lineTerminator | exclamationMark | openParen | closeParen | openBracket
  | closeBracket | comma | colon | question | tilde | quote | dot | slash | backSlash
  | semicolon | openBrace | closeBrace
  | add | sub | multiply | modulo | and | xor | or | less | greater | equal
  | whiteSpace
  deriving DecidableEq, Repr

/-- `typesOfASCIICharacters`. -/
def typesOfASCIICharacters : List CharacterType :=
  [ -- 0 .. 31: control characters
    .invalid, .invalid, .invalid, .invalid, .invalid, .invalid, .invalid, .invalid,
    .invalid, .whiteSpace, .lineTerminator, .whiteSpace, .whiteSpace, .lineTerminator, .invalid,
    .invalid,
    .invalid, .invalid, .invalid, .invalid, .invalid, .invalid, .invalid, .invalid,
    .invalid, .invalid, .invalid, .invalid, .invalid, .invalid, .invalid, .invalid,
    -- space ! " # $ % & ' ( ) * + , - . /
    .whiteSpace, .exclamationMark, .quote, .invalid, .identifierStart, .modulo, .and, .quote,
    .openParen, .closeParen, .multiply, .add, .comma, .sub, .dot, .slash,
    -- 0 .. 9 : ; < = > ?
    .zero, .number, .number, .number, .number, .number, .number, .number,
    .number, .number, .colon, .semicolon, .less, .equal, .greater, .question,
    -- @ A .. Z [ \ ] ^ _
    .invalid, .identifierStart, .identifierStart, .identifierStart, .identifierStart,
    .identifierStart, .identifierStart, .identifierStart,
    .identifierStart, .identifierStart, .identifierStart, .identifierStart,
    .identifierStart, .identifierStart, .identifierStart, .identifierStart,
    .identifierStart, .identifierStart, .identifierStart, .identifierStart,
    .identifierStart, .identifierStart, .identifierStart, .identifierStart,
    .identifierStart, .identifierStart, .identifierStart, .openBracket,
    .backSlash, .closeBracket, .xor, .identifierStart,
    -- ` a .. z { | } ~ DEL
    .invalid, .identifierStart, .identifierStart, .identifierStart, .identifierStart,
    .identifierStart, .identifierStart, .identifierStart,
    .identifierStart, .identifierStart, .identifierStart, .identifierStart,
    .identifierStart, .identifierStart, .identifierStart, .identifierStart,
    .identifierStart, .identifierStart, .identifierStart, .identifierStart,
    .identifierStart, .identifierStart, .identifierStart, .identifierStart,
    .identifierStart, .identifierStart, .identifierStart, .openBrace,
    .or, .closeBrace, .tilde, .invalid ]

/-- The entry of the table for an ASCII character. -/
def asciiType (c : Int) : CharacterType := typesOfASCIICharacters.getD c.toNat .invalid

/-- `isIdentStart`.  The build has no Unicode tables (`category` is 0 in
`config.h`), so only ASCII characters start an identifier. -/
def isIdentStart (c : Int) : Bool := isASCII c && asciiType c == .identifierStart

/-- `isIdentPart`: the first three character types; again ASCII only. -/
def isIdentPart (c : Int) : Bool :=
  isASCII c &&
    (asciiType c == .identifierStart || asciiType c == .zero || asciiType c == .number)

/-- `Lexer::isWhiteSpace`; `isSeparatorSpace` is false in `config.h`. -/
def isWhiteSpace (c : Int) : Bool :=
  if isASCII c then c == chr ' ' || c == chr '\t' || c == 0xB || c == 0xC else c == 0xFEFF

/-- `Lexer::isLineTerminator`. -/
def isLineTerminator (c : Int) : Bool :=
  c == chr '\r' || c == chr '\n' || c == 0x2028 || c == 0x2029

/-- `singleEscape`. -/
def singleEscape (c : Int) : Int :=
  if c = chr 'b' then 0x08
  else if c = chr 't' then 0x09
  else if c = chr 'n' then 0x0A
  else if c = chr 'v' then 0x0B
  else if c = chr 'f' then 0x0C
  else if c = chr 'r' then 0x0D
  else if c = chr '\\' then chr '\\'
  else if c = chr '\'' then chr '\''
  else if c = chr '"' then chr '"'
  else 0

/-- The character at a pointer, or `-1` at the end of the text. -/
def codeUnit : List UChar → Int
  | [] => -1
  | c :: _ => (c.toNat : Int)

/-! ## State -/

/-- The fields of `Lexer`. -/
structure Lexer where
  lineNumber : Nat
  buffer8 : List Char
  buffer16 : List UChar
  /-- `m_terminator`: a line terminator stands before the last token. -/
  terminator : Bool
  /-- `m_lastToken`; none for the initial `-1`. -/
  lastToken : Option JSTokenType
  /-- `m_codeStart`, with the whole text. -/
  codeStart : List UChar
  /-- `m_code`, with the text from it on. -/
  code : List UChar
  atLineStart : Bool
  error : Bool
  /-- `m_current`: the character at `m_code`, or `-1`. -/
  current : Int
  deriving DecidableEq

/-- A lexing routine: it passes the lexer along, and may stop at an assertion. -/
abbrev LexM := StateT Lexer (Except Crash)

namespace Lexer

/-- `ASSERT(c)`. -/
def assert (c : Bool) (e : Crash) : LexM Unit := if c then pure () else throw e

/-- `m_current`. -/
def getCurrent : LexM Int := return (← get).current

/-- `currentCharacter()`, the pointer `m_code`. -/
def currentCharacter : LexM (List UChar) := return (← get).code

/-- `currentOffset()`. -/
def currentOffset : LexM Nat := return (← get).codeStart.length - (← get).code.length

/-- `setCode`, on a source that starts at offset 0 and line 1. -/
def setCode (source : List UChar) : Lexer where
  lineNumber := 1
  buffer8 := []
  buffer16 := []
  terminator := false
  lastToken := none
  codeStart := source
  code := source
  atLineStart := true
  error := false
  current := codeUnit source

/-- `shift()`. -/
def shift : LexM Unit := do
  assert ((← getCurrent) != -1) .shiftAtEnd
  modify fun l => { l with code := l.code.tail, current := codeUnit l.code.tail }

/-- `peek(offset)`. -/
def peek (offset : Nat) : LexM Int := return codeUnit ((← get).code.drop offset)

/-- The loops of the lexer: `body` while `cond` holds of `m_current`.  The bound
is the number of characters left, and one more for the end. -/
def whileCurrent (cond : Int → Bool) (body : LexM Unit) : Nat → LexM Unit
  | 0 => throw .loopBound
  | n + 1 => do
      if cond (← getCurrent) then
        body
        whileCurrent cond body n

/-- A bound for the loops started here. -/
def bound : LexM Nat := return (← get).code.length + 1

/-- `convertHex`, with the assertions of `toASCIIHexValue`. -/
def convertHex (c1 c2 : Int) : LexM Nat := do
  assert (isASCIIHexDigit c1) .notHexDigit
  assert (isASCIIHexDigit c2) .notHexDigit
  return hexValue c1 * 16 + hexValue c2

/-- `convertUnicode`. -/
def convertUnicode (c1 c2 c3 c4 : Int) : LexM Nat := do
  return (← convertHex c1 c2) * 256 + (← convertHex c3 c4)

/-- `getUnicodeCharacter()`. -/
def getUnicodeCharacter : LexM Int := do
  let char1 ← peek 1
  let char2 ← peek 2
  let char3 ← peek 3
  let current ← getCurrent
  if !isASCIIHexDigit current || !isASCIIHexDigit char1 || !isASCIIHexDigit char2 ||
      !isASCIIHexDigit char3 then
    return -1
  let result ← convertUnicode current char1 char2 char3
  shift
  shift
  shift
  shift
  return result

/-- `shiftLineTerminator()`: CR LF and LF CR count as one terminator. -/
def shiftLineTerminator : LexM Unit := do
  let prev ← getCurrent
  assert (isLineTerminator prev) .notLineTerminator
  shift
  if prev + (← getCurrent) = chr '\n' + chr '\r' then shift
  modify fun l => { l with lineNumber := l.lineNumber + 1 }

/-- `lastTokenWasRestrKeyword()`. -/
def lastTokenWasRestrKeyword : LexM Bool := do
  let t := (← get).lastToken
  return t == some .continue || t == some .break || t == some .return || t == some .throw

/-- `record8(c)`. -/
def record8 (c : Int) : LexM Unit := do
  assert (0 ≤ c && c ≤ 0xFF) .recordRange
  modify fun l => { l with buffer8 := l.buffer8 ++ [Char.ofNat c.toNat] }

/-- `record16(c)`. -/
def record16 (c : Int) : LexM Unit := do
  assert (0 ≤ c && c ≤ 0xFFFF) .recordRange
  modify fun l => { l with buffer16 := l.buffer16 ++ [c.toNat.toUInt16] }

/-- The characters between two pointers. -/
def segment (start stop : List UChar) : List UChar := start.take (start.length - stop.length)

/-- `m_buffer16.append(start, currentCharacter() - start)`; nothing when the
pointers are equal. -/
def appendSegment (start : List UChar) : LexM Unit :=
  modify fun l => { l with buffer16 := l.buffer16 ++ segment start l.code }

/-- `m_buffer8.resize(0)`. -/
def clearBuffer8 : LexM Unit := modify fun l => { l with buffer8 := [] }

/-- `m_buffer16.resize(0)`. -/
def clearBuffer16 : LexM Unit := modify fun l => { l with buffer16 := [] }

/-! ## Identifiers -/

/-- `HashTable::testKeyword`: a trie for each length, with `str i` for `str[i]`. -/
def testKeyword (name : Identifier) : JSTokenType :=
  let str (i : Nat) : Char := Char.ofNat (name.getD i 0).toNat
  match name.length with
  | 2 =>
      if str 0 = 'd' ∧ str 1 = 'o' then .do
      else if str 0 = 'i' ∧ str 1 = 'f' then .if
      else if str 0 = 'i' ∧ str 1 = 'n' then .inToken
      else .ident
  | 3 =>
      if str 0 = 'f' ∧ str 1 = 'o' ∧ str 2 = 'r' then .for
      else if str 0 = 'n' ∧ str 1 = 'e' ∧ str 2 = 'w' then .new
      else if str 0 = 't' ∧ str 1 = 'r' ∧ str 2 = 'y' then .try
      else if str 0 = 'v' ∧ str 1 = 'a' ∧ str 2 = 'r' then .var
      else .ident
  | 4 =>
      if str 0 = 'c' ∧ str 1 = 'a' ∧ str 2 = 's' ∧ str 3 = 'e' then .case
      else if str 0 = 'e' ∧ str 1 = 'l' ∧ str 2 = 's' ∧ str 3 = 'e' then .else
      else if str 0 = 'e' ∧ str 1 = 'n' ∧ str 2 = 'u' ∧ str 3 = 'm' then .reserved
      else if str 0 = 'n' ∧ str 1 = 'u' ∧ str 2 = 'l' ∧ str 3 = 'l' then .nullToken
      else if str 0 = 't' ∧ str 1 = 'h' ∧ str 2 = 'i' ∧ str 3 = 's' then .thisToken
      else if str 0 = 't' ∧ str 1 = 'r' ∧ str 2 = 'u' ∧ str 3 = 'e' then .trueToken
      else if str 0 = 'v' ∧ str 1 = 'o' ∧ str 2 = 'i' ∧ str 3 = 'd' then .voidToken
      else if str 0 = 'w' ∧ str 1 = 'i' ∧ str 2 = 't' ∧ str 3 = 'h' then .with
      else .ident
  | 5 =>
      if str 0 = 'b' ∧ str 1 = 'r' ∧ str 2 = 'e' ∧ str 3 = 'a' ∧ str 4 = 'k' then .break
      else if str 0 = 'c' ∧ str 1 = 'a' ∧ str 2 = 't' ∧ str 3 = 'c' ∧ str 4 = 'h' then .catch
      else if str 0 = 'c' ∧ str 1 = 'o' ∧ str 2 = 'n' ∧ str 3 = 's' ∧ str 4 = 't' then .constToken
      else if str 0 = 'f' ∧ str 1 = 'a' ∧ str 2 = 'l' ∧ str 3 = 's' ∧ str 4 = 'e' then .falseToken
      else if str 0 = 't' ∧ str 1 = 'h' ∧ str 2 = 'r' ∧ str 3 = 'o' ∧ str 4 = 'w' then .throw
      else if str 0 = 'w' ∧ str 1 = 'h' ∧ str 2 = 'i' ∧ str 3 = 'l' ∧ str 4 = 'e' then .while
      else if str 0 = 'c' ∧ str 1 = 'l' ∧ str 2 = 'a' ∧ str 3 = 's' ∧ str 4 = 's' then .reserved
      else if str 0 = 's' ∧ str 1 = 'u' ∧ str 2 = 'p' ∧ str 3 = 'e' ∧ str 4 = 'r' then .reserved
      else .ident
  | 6 =>
      if str 0 = 'd' ∧ str 1 = 'e' ∧ str 2 = 'l' ∧ str 3 = 'e' ∧ str 4 = 't' ∧ str 5 = 'e' then
        .deleteToken
      else if str 0 = 's' ∧ str 1 = 'w' ∧ str 2 = 'i' ∧ str 3 = 't' ∧ str 4 = 'c' ∧ str 5 = 'h' then
        .switch
      else if str 0 = 'r' ∧ str 1 = 'e' ∧ str 2 = 't' ∧ str 3 = 'u' ∧ str 4 = 'r' ∧ str 5 = 'n' then
        .return
      else if str 0 = 't' ∧ str 1 = 'y' ∧ str 2 = 'p' ∧ str 3 = 'e' ∧ str 4 = 'o' ∧ str 5 = 'f' then
        .typeof
      else if str 0 = 'e' ∧ str 1 = 'x' ∧ str 2 = 'p' ∧ str 3 = 'o' ∧ str 4 = 'r' ∧ str 5 = 't' then
        .reserved
      else if str 0 = 'i' ∧ str 1 = 'm' ∧ str 2 = 'p' ∧ str 3 = 'o' ∧ str 4 = 'r' ∧ str 5 = 't' then
        .reserved
      else .ident
  | 7 =>
      if str 0 = 'd' then
        if str 1 = 'e' then if str 2 = 'f' then if str 3 = 'a' then if str 4 = 'u' then
        if str 5 = 'l' then if str 6 = 't' then .default
        else .ident else .ident else .ident else .ident else .ident else .ident
      else if str 0 = 'f' then
        if str 1 = 'i' then if str 2 = 'n' then if str 3 = 'a' then if str 4 = 'l' then
        if str 5 = 'l' then if str 6 = 'y' then .finally
        else .ident else .ident else .ident else .ident else .ident else .ident
      else if str 0 = 'e' then
        if str 1 = 'x' then if str 2 = 't' then if str 3 = 'e' then if str 4 = 'n' then
        if str 5 = 'd' then if str 6 = 's' then .reserved
        else .ident else .ident else .ident else .ident else .ident else .ident
      else .ident
  | 8 =>
      if str 0 = 'f' then
        if str 1 = 'u' then if str 2 = 'n' then if str 3 = 'c' then if str 4 = 't' then
        if str 5 = 'i' then if str 6 = 'o' then if str 7 = 'n' then .function
        else .ident else .ident else .ident else .ident else .ident else .ident else .ident
      else if str 0 = 'c' then
        if str 1 = 'o' then if str 2 = 'n' then if str 3 = 't' then if str 4 = 'i' then
        if str 5 = 'n' then if str 6 = 'u' then if str 7 = 'e' then .continue
        else .ident else .ident else .ident else .ident else .ident else .ident else .ident
      else if str 0 = 'd' then
        if str 1 = 'e' then if str 2 = 'b' then if str 3 = 'u' then if str 4 = 'g' then
        if str 5 = 'g' then if str 6 = 'e' then if str 7 = 'r' then .debugger
        else .ident else .ident else .ident else .ident else .ident else .ident else .ident
      else .ident
  | 10 =>
      if str 0 = 'i' then if str 1 = 'n' then if str 2 = 's' then if str 3 = 't' then
      if str 4 = 'a' then if str 5 = 'n' then if str 6 = 'c' then if str 7 = 'e' then
      if str 8 = 'o' then if str 9 = 'f' then .instanceof
      else .ident else .ident else .ident else .ident else .ident
      else .ident else .ident else .ident else .ident else .ident
  | _ => .ident

/-- The reserved words, with their tokens. -/
def keywords : List (List Char × JSTokenType) :=
  [ (['d', 'o'], .do),
    (['i', 'f'], .if),
    (['i', 'n'], .inToken),
    (['f', 'o', 'r'], .for),
    (['n', 'e', 'w'], .new),
    (['t', 'r', 'y'], .try),
    (['v', 'a', 'r'], .var),
    (['c', 'a', 's', 'e'], .case),
    (['e', 'l', 's', 'e'], .else),
    (['e', 'n', 'u', 'm'], .reserved),
    (['n', 'u', 'l', 'l'], .nullToken),
    (['t', 'h', 'i', 's'], .thisToken),
    (['t', 'r', 'u', 'e'], .trueToken),
    (['v', 'o', 'i', 'd'], .voidToken),
    (['w', 'i', 't', 'h'], .with),
    (['b', 'r', 'e', 'a', 'k'], .break),
    (['c', 'a', 't', 'c', 'h'], .catch),
    (['c', 'o', 'n', 's', 't'], .constToken),
    (['f', 'a', 'l', 's', 'e'], .falseToken),
    (['t', 'h', 'r', 'o', 'w'], .throw),
    (['w', 'h', 'i', 'l', 'e'], .while),
    (['c', 'l', 'a', 's', 's'], .reserved),
    (['s', 'u', 'p', 'e', 'r'], .reserved),
    (['d', 'e', 'l', 'e', 't', 'e'], .deleteToken),
    (['s', 'w', 'i', 't', 'c', 'h'], .switch),
    (['r', 'e', 't', 'u', 'r', 'n'], .return),
    (['t', 'y', 'p', 'e', 'o', 'f'], .typeof),
    (['e', 'x', 'p', 'o', 'r', 't'], .reserved),
    (['i', 'm', 'p', 'o', 'r', 't'], .reserved),
    (['d', 'e', 'f', 'a', 'u', 'l', 't'], .default),
    (['f', 'i', 'n', 'a', 'l', 'l', 'y'], .finally),
    (['e', 'x', 't', 'e', 'n', 'd', 's'], .reserved),
    (['f', 'u', 'n', 'c', 't', 'i', 'o', 'n'], .function),
    (['c', 'o', 'n', 't', 'i', 'n', 'u', 'e'], .continue),
    (['d', 'e', 'b', 'u', 'g', 'g', 'e', 'r'], .debugger),
    (['i', 'n', 's', 't', 'a', 'n', 'c', 'e', 'o', 'f'], .instanceof) ]

/-- The first entry of a table under a word. -/
def tokenOf (table : List (List Char × JSTokenType)) (word : List Char) : JSTokenType :=
  match table.find? fun k => k.1 == word with
  | some k => k.2
  | none => .ident

@[simp] theorem tokenOf_nil (word : List Char) : tokenOf [] word = .ident := rfl

@[simp] theorem tokenOf_cons (k : List Char × JSTokenType) (table : List (List Char × JSTokenType))
    (word : List Char) :
    tokenOf (k :: table) word = if word = k.1 then k.2 else tokenOf table word := by
  unfold tokenOf
  by_cases h : word = k.1
  · simp [h]
  · simp [h, Ne.symm h]

/-- The trie finds the reserved words. -/
theorem testKeyword_eq (name : Identifier) :
    testKeyword name = tokenOf keywords (name.map fun c => Char.ofNat c.toNat) := by
  match name with
  | [] | [_] => simp [testKeyword, keywords]
  | [c₀, c₁] => simp [testKeyword, keywords]
  | [c₀, c₁, c₂] => simp [testKeyword, keywords]
  | [c₀, c₁, c₂, c₃] => simp [testKeyword, keywords]
  | [c₀, c₁, c₂, c₃, c₄] => simp [testKeyword, keywords]
  | [c₀, c₁, c₂, c₃, c₄, c₅] => simp [testKeyword, keywords]
  | [c₀, c₁, c₂, c₃, c₄, c₅, c₆] =>
      -- a branch that fails further down does not come back to the other words
      simp only [testKeyword, List.length_cons, List.length_nil, keywords, tokenOf_cons]
      by_cases hd : Char.ofNat c₀.toNat = 'd'
      · simp [hd, ← ite_and]
      by_cases hf : Char.ofNat c₀.toNat = 'f'
      · simp [hf, ← ite_and]
      by_cases he : Char.ofNat c₀.toNat = 'e'
      · simp [he, ← ite_and]
      · simp [hd, hf, he]
  | [c₀, c₁, c₂, c₃, c₄, c₅, c₆, c₇] =>
      simp only [testKeyword, List.length_cons, List.length_nil, keywords, tokenOf_cons]
      by_cases hf : Char.ofNat c₀.toNat = 'f'
      · simp [hf, ← ite_and]
      by_cases hc : Char.ofNat c₀.toNat = 'c'
      · simp [hc, ← ite_and]
      by_cases hd : Char.ofNat c₀.toNat = 'd'
      · simp [hd, ← ite_and]
      · simp [hf, hc, hd]
  | [c₀, c₁, c₂, c₃, c₄, c₅, c₆, c₇, c₈] => simp [testKeyword, keywords]
  | [c₀, c₁, c₂, c₃, c₄, c₅, c₆, c₇, c₈, c₉] => simp [testKeyword, keywords, ← ite_and]
  | c₀ :: c₁ :: c₂ :: c₃ :: c₄ :: c₅ :: c₆ :: c₇ :: c₈ :: c₉ :: c₁₀ :: name =>
      simp [testKeyword, keywords]

theorem tokenOf_mem {table : List (List Char × JSTokenType)} {word : List Char}
    (h : tokenOf table word ≠ .ident) : (word, tokenOf table word) ∈ table := by
  induction table with
  | nil => exact absurd rfl h
  | cons k table ih =>
      rw [tokenOf_cons] at h ⊢
      by_cases hk : word = k.1
      · rw [if_pos hk, hk]
        exact List.mem_cons_self
      · rw [if_neg hk] at h ⊢
        exact List.mem_cons_of_mem k (ih h)

theorem tokenOf_ne_ident {table : List (List Char × JSTokenType)} {word : List Char}
    (hall : ∀ k ∈ table, k.2 ≠ .ident) (h : word ∈ table.map Prod.fst) :
    tokenOf table word ≠ .ident := by
  induction table with
  | nil => cases h
  | cons k table ih =>
      rw [tokenOf_cons]
      by_cases hk : word = k.1
      · rw [if_pos hk]
        exact hall k List.mem_cons_self
      · rw [if_neg hk]
        rcases List.mem_cons.mp h with h | h
        · exact absurd h hk
        · exact ih (fun k hk => hall k (List.mem_cons_of_mem _ hk)) h

theorem testKeyword_mem (name : Identifier) :
    testKeyword name = .ident ∨ ∃ k ∈ keywords, testKeyword name = k.2 := by
  rw [testKeyword_eq]
  by_cases h : tokenOf keywords (name.map fun c => Char.ofNat c.toNat) = .ident
  · exact Or.inl h
  · exact Or.inr ⟨_, tokenOf_mem h, rfl⟩

/-- `LexType`. -/
inductive LexType where
  | identifyReservedWords
  | ignoreReservedWords
  deriving DecidableEq, Repr

/-- The scanning loop of `parseIdentifier`: `bufferRequired` and
`identifierStart` are its local variables; no result after an invalid escape. -/
def identifierLoop (bufferRequired : Bool) (identifierStart : List UChar) :
    Nat → LexM (Option (Bool × List UChar))
  | 0 => throw .loopBound
  | n + 1 => do
      let current ← getCurrent
      if isIdentPart current then
        shift
        identifierLoop bufferRequired identifierStart n
      else if current ≠ chr '\\' then
        return some (bufferRequired, identifierStart)
      else
        -- \uXXXX unicode characters
        appendSegment identifierStart
        shift
        if (← getCurrent) ≠ chr 'u' then return none
        shift
        let character ← getUnicodeCharacter
        if character = -1 then return none
        let size := (← get).buffer16.length
        if (if size ≠ 0 then !isIdentPart character else !isIdentStart character) then
          return none
        record16 character
        identifierLoop true (← currentCharacter) n

/-- `parseIdentifier`: the token type, and the name unless an escape was invalid. -/
def parseIdentifier (lexType : LexType) : LexM (JSTokenType × Option Identifier) := do
  let start ← currentCharacter
  match ← identifierLoop false start (← bound) with
  | none => return (.errorTok, none)
  | some (bufferRequired, identifierStart) =>
      if !bufferRequired then
        let ident := segment identifierStart (← currentCharacter)
        if lexType = .identifyReservedWords then
          return (testKeyword ident, some ident)
        clearBuffer16
        return (.ident, some ident)
      else
        -- no keyword is recognised if there was an escape in the identifier
        appendSegment identifierStart
        let ident := (← get).buffer16
        clearBuffer16
        return (.ident, some ident)

/-! ## Strings -/

/-- What follows a backslash inside a string; false if it is not allowed there. -/
def parseEscape (stringQuoteCharacter : Int) : LexM Bool := do
  let current ← getCurrent
  let escape := singleEscape current
  if escape ≠ 0 then
    record16 escape
    shift
    return true
  else if isLineTerminator current then
    shiftLineTerminator
    return true
  else if current = chr 'x' then
    shift
    let prev ← getCurrent
    if isASCIIHexDigit prev && isASCIIHexDigit (← peek 1) then
      shift
      record16 (← convertHex prev (← getCurrent))
      shift
    else
      record16 (chr 'x')
    return true
  else if current = chr 'u' then
    shift
    let character ← getUnicodeCharacter
    if character ≠ -1 then
      record16 character
      return true
    else if (← getCurrent) = stringQuoteCharacter then
      record16 (chr 'u')
      return true
    else
      -- only the quote is allowed after \u
      return false
  else if isASCIIOctalDigit current then
    let character1 := current
    shift
    let character2 ← getCurrent
    if isASCIIOctalDigit character2 then
      shift
      let character3 ← getCurrent
      if chr '0' ≤ character1 ∧ character1 ≤ chr '3' ∧ isASCIIOctalDigit character3 then
        record16 ((character1 - chr '0') * 64 + (character2 - chr '0') * 8 + character3 - chr '0')
        shift
      else
        record16 ((character1 - chr '0') * 8 + character2 - chr '0')
    else
      record16 (character1 - chr '0')
    return true
  else if current ≠ -1 then
    record16 current
    shift
    return true
  else
    return false

/-- `(static_cast<unsigned>(c) - 0xE) & 0x2000`, which singles out the end marker
and the line terminators, among others. -/
def needsSpecialHandling (c : Int) : Bool := ((c - 0xE) % 2 ^ 32).toNat &&& 0x2000 ≠ 0

/-- The loop of `parseString`, up to the closing quote: the start of the last
segment, or none if the string is not well formed. -/
def stringLoop (stringQuoteCharacter : Int) (stringStart : List UChar) :
    Nat → LexM (Option (List UChar))
  | 0 => throw .loopBound
  | n + 1 => do
      let current ← getCurrent
      if current = stringQuoteCharacter then
        return some stringStart
      else if current = chr '\\' then
        appendSegment stringStart
        shift
        if ← parseEscape stringQuoteCharacter then
          stringLoop stringQuoteCharacter (← currentCharacter) n
        else
          return none
      else if needsSpecialHandling current && (isLineTerminator current || current == -1) then
        return none
      else
        shift
        stringLoop stringQuoteCharacter stringStart n

/-- `parseString`: the value of the literal, leaving the lexer at the closing
quote. -/
def parseString : LexM (Option Identifier) := do
  let stringQuoteCharacter ← getCurrent
  shift
  let start ← currentCharacter
  match ← stringLoop stringQuoteCharacter start (← bound) with
  | none => return none
  | some stringStart =>
      appendSegment stringStart
      let ident := (← get).buffer16
      clearBuffer16
      return some ident

/-! ## Numbers -/

/-- Read characters of a class into `m_buffer8`. -/
def recordWhile (cond : Int → Bool) : LexM Unit := do
  whileCurrent cond (do record8 (← getCurrent); shift) (← bound)

/-- The digit loop of `parseHex`: `hexValue` and `maximumDigits` are its local
variables. -/
def hexLoop (value : Nat) (maximumDigits : Int) : Nat → LexM (Nat × Int)
  | 0 => throw .loopBound
  | n + 1 => do
      let current ← getCurrent
      assert (isASCIIHexDigit current) .notHexDigit
      let value := (value * 16 % 2 ^ 32 + hexValue current) % 2 ^ 32
      shift
      let maximumDigits := maximumDigits - 1
      if isASCIIHexDigit (← getCurrent) && 0 ≤ maximumDigits then
        hexLoop value maximumDigits n
      else
        return (value, maximumDigits)

/-- The eight digits of `hexValue`, moved to `m_buffer8`. -/
def recordHexValue (value : Nat) : Nat → LexM Unit
  | 0 => pure ()
  | n + 1 => do
      let digit : Int := (value / 2 ^ 28 : Nat)
      if digit < 10 then record8 (digit + chr '0') else record8 (digit - 10 + chr 'a')
      recordHexValue (value * 16 % 2 ^ 32) n

/-- `parseHex`, at the `x` prefix. -/
def parseHex [Platform] : LexM Double := do
  shift
  let (value, maximumDigits) ← hexLoop 0 7 (← bound)
  if 0 ≤ maximumDigits then return .finite value
  -- no more place in the hexValue buffer
  recordHexValue value 8
  recordWhile isASCIIHexDigit
  return Platform.parseIntOverflow (← get).buffer8 16

/-- The digit loop shared by `parseOctal` and `parseDecimal`: the accumulator,
the digits written to the array (in the order they were read) and
`maximumDigits`. -/
def digitLoop (radix : Nat) (isDigit : Int → Bool) (value : Nat) (digits : List Int)
    (maximumDigits : Int) : Nat → LexM (Nat × List Int × Int)
  | 0 => throw .loopBound
  | n + 1 => do
      let current ← getCurrent
      let value := (value * radix + (current - chr '0').toNat) % 2 ^ 32
      assert (0 ≤ maximumDigits && maximumDigits < 10) .digitsBounds
      let digits := digits ++ [current]
      shift
      let maximumDigits := maximumDigits - 1
      if isDigit (← getCurrent) && 0 ≤ maximumDigits then
        digitLoop radix isDigit value digits maximumDigits n
      else
        return (value, digits, maximumDigits)

/-- Move the digits of the array to `m_buffer8`, in the order they were read. -/
def recordDigits : List Int → LexM Unit
  | [] => pure ()
  | d :: ds => do
      record8 d
      recordDigits ds

/-- `parseOctal`: no value if the literal turns out to be decimal. -/
def parseOctal [Platform] : LexM (Option Double) := do
  let (value, digits, maximumDigits) ← digitLoop 8 isASCIIOctalDigit 0 [] 9 (← bound)
  if !isASCIIDigit (← getCurrent) && 0 ≤ maximumDigits then
    return some (.finite value)
  recordDigits digits
  recordWhile isASCIIOctalDigit
  if isASCIIDigit (← getCurrent) then return none
  return some (Platform.parseIntOverflow (← get).buffer8 8)

/-- `parseDecimal`: no value if the digits are left in `m_buffer8`. -/
def parseDecimal : LexM (Option Double) := do
  -- parseOctal may have left digits in m_buffer8
  if (← get).buffer8.isEmpty then
    let (value, digits, maximumDigits) ← digitLoop 10 isASCIIDigit 0 [] 9 (← bound)
    let current ← getCurrent
    if 0 ≤ maximumDigits ∧ current ≠ chr '.' ∧ orBit20 current ≠ chr 'e' then
      return some (.finite value)
    recordDigits digits
  recordWhile isASCIIDigit
  return none

/-- `parseNumberAfterDecimalPoint`. -/
def parseNumberAfterDecimalPoint : LexM Unit := do
  record8 (chr '.')
  recordWhile isASCIIDigit

/-- `parseNumberAfterExponentIndicator`. -/
def parseNumberAfterExponentIndicator : LexM Bool := do
  record8 (chr 'e')
  shift
  let current ← getCurrent
  if current = chr '+' ∨ current = chr '-' then
    record8 current
    shift
  if !isASCIIDigit (← getCurrent) then return false
  recordWhile isASCIIDigit
  return true

/-! ## Comments -/

/-- `parseMultilineComment`, after the opening `/*`. -/
def parseMultilineComment : Nat → LexM Bool
  | 0 => throw .loopBound
  | n + 1 => do
      let current ← getCurrent
      if current = chr '*' then
        shift
        if (← getCurrent) = chr '/' then
          shift
          return true
        else
          parseMultilineComment n
      else if current = -1 then
        return false
      else if isLineTerminator current then
        shiftLineTerminator
        parseMultilineComment n
      else
        shift
        parseMultilineComment n

end Lexer

end HammerJS
