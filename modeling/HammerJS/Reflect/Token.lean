import Mathlib

/-!
# Tokens

The token types of `JSParser.h` with their numeric values, the flags and the
binary precedences packed into those values, the token record handed from the
lexer to the parser, and the places where the program can crash.

A `double` is modelled by the rational it denotes, or infinity: no literal of
the language denotes anything else.  What the program takes from elsewhere (the
string and number conversions of `dtoa.cpp` and `parseIntOverflow`, and what the
compiler makes of an out-of-range `double` narrowed to `int`) is the class
`Platform`.
-/

namespace HammerJS

/-- A UTF-16 code unit. -/
abbrev UChar := UInt16

/-- The text of an `Identifier`. -/
abbrev Identifier := List UChar

/-- Some characters, such as the texts of `propertyNames->get` and `propertyNames->set`. -/
def identifierOfChars (cs : List Char) : Identifier := cs.map fun c => c.toNat.toUInt16

/-- The values a number literal can have. -/
inductive Double where
  | finite (q : ℚ)
  | infinity
  deriving DecidableEq

/-- The numeric conversions that the modelled code calls. -/
class Platform where
  /-- `WTF::strtod`, on the characters before the terminating zero. -/
  strtod : List Char → Double
  /-- `parseIntOverflow`, on digits in the given radix. -/
  parseIntOverflow : List Char → Nat → Double
  /-- `UString::number`. -/
  numberToString : Double → Identifier
  /-- A `double` outside the range of `int`, converted to `int`. -/
  narrow : Double → Int

/-- Where a run can stop: the failing assertion, the `CRASH()` reached, or the
invalid memory access. -/
inductive Crash where
  /-- `ASSERT(m_current != -1)` in `Lexer::shift`. -/
  | shiftAtEnd
  /-- The three assertions at the entry of `Lexer::lex`. -/
  | lexEntry
  /-- The assertions at the entry of `Lexer::scanRegExp`. -/
  | scanRegExpEntry
  /-- The assertion of `Lexer::shiftLineTerminator` and of the callers in `lex`. -/
  | notLineTerminator
  /-- The range assertions of `Lexer::record8` and `Lexer::record16`. -/
  | recordRange
  /-- `ASSERT(isASCIIHexDigit(c))` in `toASCIIHexValue`. -/
  | notHexDigit
  /-- A write to `digits[maximumDigits]` outside the array. -/
  | digitsBounds
  /-- `ASSERT(isIdentStart(m_current))` in `Lexer::lex`. -/
  | notIdentStart
  /-- `ASSERT_NOT_REACHED()` in the default case of `Lexer::lex`. -/
  | notReached
  /-- A loop of the lexer that went on after the end of the input. -/
  | loopBound
  /-- The `ASSERT(match(…))` that opens a production. -/
  | notMatched
  /-- `ASSERT(operandStackDepth > 1)` in `parseBinaryExpression`. -/
  | operandStackDepth
  /-- `CRASH()` in the unary operator loop of `parseUnaryExpression`. -/
  | unaryOperator
  /-- `last()` or `removeLast()` on an empty `Vector`. -/
  | emptyVector
  /-- `CRASH()` in the default case of `Node::convertOperator`. -/
  | convertOperator
  /-- `CRASH()` in `Builder::createGetterOrSetterProperty`. -/
  | getterOrSetter
  /-- A member function called on a null `Node`. -/
  | nullNode
  /-- `CRASH()` in the default case of `operatorAsText`. -/
  | operatorAsText
  /-- `childAt` with an index past the last child. -/
  | childBounds
  /-- A conversion that went on below the leaves of the tree. -/
  | recursionBound
  deriving DecidableEq

/-! ## Token types -/

/-- `UnaryOpTokenFlag`. -/
def unaryOpTokenFlag : Nat := 64

/-- `KeywordTokenFlag`. -/
def keywordTokenFlag : Nat := 128

/-- `BinaryOpTokenPrecedenceShift`. -/
def binaryOpTokenPrecedenceShift : Nat := 8

/-- `BinaryOpTokenAllowsInPrecedenceAdditionalShift`. -/
def binaryOpTokenAllowsInPrecedenceAdditionalShift : Nat := 4

/-- `BinaryOpTokenPrecedenceMask`. -/
def binaryOpTokenPrecedenceMask : Nat := 15 <<< binaryOpTokenPrecedenceShift

/-- `BINARY_OP_PRECEDENCE(prec)`: the precedence in both fields. -/
def binaryOpPrecedence (prec : Nat) : Nat :=
  (prec <<< binaryOpTokenPrecedenceShift) |||
    (prec <<< (binaryOpTokenPrecedenceShift + binaryOpTokenAllowsInPrecedenceAdditionalShift))

/-- `IN_OP_PRECEDENCE(prec)`: the precedence in the field read when `in` is
allowed only. -/
def inOpPrecedence (prec : Nat) : Nat :=
  prec <<< (binaryOpTokenPrecedenceShift + binaryOpTokenAllowsInPrecedenceAdditionalShift)

/-- The enumerators of `JSTokenType`. -/
inductive JSTokenType where
  | nullToken | trueToken | falseToken | break | case | default | for | new | var | constToken
  | continue | function | return | if | thisToken | do | while | switch | with | reserved | throw
  | try | catch | finally | debugger | else
  | openBrace | closeBrace | openParen | closeParen | openBracket | closeBracket | comma
  | question | number | ident | string | semicolon | colon | dot | errorTok | eofTok
  | equal | plusEqual | minusEqual | multEqual | divEqual | lshiftEqual | rshiftEqual
  | urshiftEqual | andEqual | modEqual | xorEqual | orEqual
  | plusPlus | minusMinus | exclamation | tilde | autoPlusPlus | autoMinusMinus
  | typeof | voidToken | deleteToken
  | or | and | bitOr | bitXor | bitAnd | eqEq | ne | strEq | strNeq | lt | gt | le | ge
  | instanceof | inToken | lshift | rshift | urshift | plus | minus | times | divide | mod
  deriving DecidableEq, Repr

namespace JSTokenType

/-- The numeric value of an enumerator. -/
def value : JSTokenType → Nat
  | nullToken => keywordTokenFlag
  | trueToken => keywordTokenFlag + 1
  | falseToken => keywordTokenFlag + 2
  | .break => keywordTokenFlag + 3
  | case => keywordTokenFlag + 4
  | default => keywordTokenFlag + 5
  | .for => keywordTokenFlag + 6
  | new => keywordTokenFlag + 7
  | var => keywordTokenFlag + 8
  | constToken => keywordTokenFlag + 9
  | .continue => keywordTokenFlag + 10
  | function => keywordTokenFlag + 11
  | .return => keywordTokenFlag + 12
  | .if => keywordTokenFlag + 13
  | thisToken => keywordTokenFlag + 14
  | .do => keywordTokenFlag + 15
  | .while => keywordTokenFlag + 16
  | switch => keywordTokenFlag + 17
  | .with => keywordTokenFlag + 18
  | reserved => keywordTokenFlag + 19
  | throw => keywordTokenFlag + 20
  | .try => keywordTokenFlag + 21
  | .catch => keywordTokenFlag + 22
  | .finally => keywordTokenFlag + 23
  | debugger => keywordTokenFlag + 24
  | .else => keywordTokenFlag + 25
  | openBrace => 0
  | closeBrace => 1
  | openParen => 2
  | closeParen => 3
  | openBracket => 4
  | closeBracket => 5
  | comma => 6
  | question => 7
  | number => 8
  | ident => 9
  | string => 10
  | semicolon => 11
  | colon => 12
  | dot => 13
  | errorTok => 14
  | eofTok => 15
  | equal => 16
  | plusEqual => 17
  | minusEqual => 18
  | multEqual => 19
  | divEqual => 20
  | lshiftEqual => 21
  | rshiftEqual => 22
  | urshiftEqual => 23
  | andEqual => 24
  | modEqual => 25
  | xorEqual => 26
  | orEqual => 27
  | plusPlus => 0 ||| unaryOpTokenFlag
  | minusMinus => 1 ||| unaryOpTokenFlag
  | exclamation => 2 ||| unaryOpTokenFlag
  | tilde => 3 ||| unaryOpTokenFlag
  | autoPlusPlus => 4 ||| unaryOpTokenFlag
  | autoMinusMinus => 5 ||| unaryOpTokenFlag
  | typeof => 6 ||| unaryOpTokenFlag ||| keywordTokenFlag
  | voidToken => 7 ||| unaryOpTokenFlag ||| keywordTokenFlag
  | deleteToken => 8 ||| unaryOpTokenFlag ||| keywordTokenFlag
  | or => 0 ||| binaryOpPrecedence 1
  | and => 1 ||| binaryOpPrecedence 2
  | bitOr => 2 ||| binaryOpPrecedence 3
  | bitXor => 3 ||| binaryOpPrecedence 4
  | bitAnd => 4 ||| binaryOpPrecedence 5
  | eqEq => 5 ||| binaryOpPrecedence 6
  | ne => 6 ||| binaryOpPrecedence 6
  | strEq => 7 ||| binaryOpPrecedence 6
  | strNeq => 8 ||| binaryOpPrecedence 6
  | lt => 9 ||| binaryOpPrecedence 7
  | gt => 10 ||| binaryOpPrecedence 7
  | le => 11 ||| binaryOpPrecedence 7
  | ge => 12 ||| binaryOpPrecedence 7
  | instanceof => 13 ||| binaryOpPrecedence 7 ||| keywordTokenFlag
  | inToken => 14 ||| inOpPrecedence 7 ||| keywordTokenFlag
  | lshift => 15 ||| binaryOpPrecedence 8
  | rshift => 16 ||| binaryOpPrecedence 8
  | urshift => 17 ||| binaryOpPrecedence 8
  | plus => 18 ||| binaryOpPrecedence 9 ||| unaryOpTokenFlag
  | minus => 19 ||| binaryOpPrecedence 9 ||| unaryOpTokenFlag
  | times => 20 ||| binaryOpPrecedence 10
  | divide => 21 ||| binaryOpPrecedence 10
  | mod => 22 ||| binaryOpPrecedence 10

/-- `isUnaryOp(token)`. -/
def isUnaryOp (t : JSTokenType) : Bool := t.value &&& unaryOpTokenFlag ≠ 0

/-- Whether the token is spelled like a keyword (`token & KeywordTokenFlag`). -/
def isKeyword (t : JSTokenType) : Bool := t.value &&& keywordTokenFlag ≠ 0

/-- `JSParser::isBinaryOperator(token)`: the precedence of the token as a binary
operator, read from the field that `m_allowsIn` selects; 0 if it is none. -/
def isBinaryOperator (allowsIn : Bool) (t : JSTokenType) : Nat :=
  if allowsIn then
    t.value &&& (binaryOpTokenPrecedenceMask <<< binaryOpTokenAllowsInPrecedenceAdditionalShift)
  else t.value &&& binaryOpTokenPrecedenceMask

/-- A token that stands for some text of the source, as opposed to the end of the
input and to an invalid token. -/
def isReal (t : JSTokenType) : Bool := t ≠ eofTok && t ≠ errorTok

end JSTokenType

/-- `JSTokenData`: the union of what a token carries. -/
inductive JSTokenData where
  /-- Not written yet. -/
  | unset
  | intValue (n : Nat)
  | doubleValue (d : Double)
  | ident (id : Identifier)
  deriving DecidableEq

namespace JSTokenData

/-- Reading `m_data.ident`. -/
def getIdent : JSTokenData → Identifier
  | .ident id => id
  | _ => []

/-- Reading `m_data.doubleValue`. -/
def getDouble : JSTokenData → Double
  | .doubleValue d => d
  | _ => .finite 0

/-- Reading `m_data.intValue`. -/
def getInt : JSTokenData → Nat
  | .intValue n => n
  | _ => 0

end JSTokenData

/-- `JSTokenInfo`: where a token stands. -/
structure JSTokenInfo where
  line : Nat
  startOffset : Nat
  endOffset : Nat
  deriving DecidableEq

/-- `JSToken`. -/
structure JSToken where
  type : JSTokenType
  data : JSTokenData
  info : JSTokenInfo
  deriving DecidableEq

end HammerJS
