import HammerJS.Reflect.Exact
import HammerJS.Reflect.Lexer
import Mathlib.Data.Bool.AllAny

/-!
# What tokens look like

The lexical grammar that `Lexer.cpp` reads, over texts and without a lexer.

* `LineEnd`, `Comment`, `LineComment`, `Gap` — what may stand between two tokens.
* `punctuators`, `IdentifierParts`, `StringChars`, `RegExpChars`, `NumberText` — the texts
  of tokens, each with what it denotes.
* `Spells` — the text of a token, with its type and its data.
* `Partition` — a text cut into gaps and tokens.
-/

namespace HammerJS

open Lexer

/-! ## Between tokens -/

/-- One line terminator: a character, or a carriage return and a line feed in either
order. -/
inductive LineEnd : List UChar → Prop
  | single {c : UChar} (h : isLineTerminator c.toNat = true) : LineEnd [c]
  | crlf : LineEnd (identifierOfChars ['\r', '\n'])
  | lfcr : LineEnd (identifierOfChars ['\n', '\r'])

theorem LineEnd.isLineTerminator {eol : List UChar} (h : LineEnd eol) :
    ∀ c ∈ eol, isLineTerminator c.toNat = true := by
  cases h with
  | single h => simpa using h
  | crlf => exact List.all_iff_forall_prop.mp (by decide)
  | lfcr => exact List.all_iff_forall_prop.mp (by decide)

theorem LineEnd.ne_nil {eol : List UChar} (h : LineEnd eol) : eol ≠ [] := by
  cases h <;> simp [identifierOfChars]

/-- A comment between `/*` and the next `*/`. -/
def Comment (text : List UChar) : Prop :=
  ∃ body, text = identifierOfChars ['/', '*'] ++ body ++ identifierOfChars ['*', '/'] ∧
    ¬ identifierOfChars ['*', '/'] <:+: body ++ identifierOfChars ['*']

/-- What opens a comment that runs to the end of the line; `-->` does only if nothing
but gaps stands before it on the line. -/
def lineCommentOpeners (lineStart : Bool) : List (List Char) :=
  ['/', '/'] :: ['<', '!', '-', '-'] :: if lineStart then [['-', '-', '>']] else []

/-- A comment that runs to the end of the line, without the line terminator. -/
def LineComment (lineStart : Bool) (text : List UChar) : Prop :=
  ∃ opener ∈ lineCommentOpeners lineStart, identifierOfChars opener <+: text ∧
    ∀ c ∈ text, isLineTerminator c.toNat = false

/-- White space, comments and line terminators.  The flags tell whether only such things
stand on the line, before the gap and after it. -/
inductive Gap : Bool → List UChar → Bool → Prop
  | nil {b : Bool} : Gap b [] b
  | space {b b' : Bool} {c : UChar} {gap : List UChar} (hc : isWhiteSpace c.toNat = true)
      (h : Gap b gap b') : Gap b (c :: gap) b'
  | comment {b b' : Bool} {text gap : List UChar} (hc : Comment text) (h : Gap b gap b') :
      Gap b (text ++ gap) b'
  | line {b b' : Bool} {eol gap : List UChar} (he : LineEnd eol) (h : Gap true gap b') :
      Gap b (eol ++ gap) b'
  | lineComment {b b' : Bool} {text eol gap : List UChar} (hc : LineComment b text)
      (he : LineEnd eol) (h : Gap true gap b') : Gap b (text ++ eol ++ gap) b'

/-! ## Punctuators -/

/-- The punctuators, with their tokens.  Two of them have a second token, for where a
line terminator stands before them. -/
def punctuators : List (List Char × JSTokenType) :=
  [ (['{'], .openBrace), (['}'], .closeBrace), (['('], .openParen), ([')'], .closeParen),
    (['['], .openBracket), ([']'], .closeBracket), (['.'], .dot), ([';'], .semicolon),
    ([','], .comma), (['?'], .question), ([':'], .colon), (['~'], .tilde),
    (['<'], .lt), (['>'], .gt), (['<', '='], .le), (['>', '='], .ge),
    (['=', '='], .eqEq), (['!', '='], .ne), (['=', '=', '='], .strEq), (['!', '=', '='], .strNeq),
    (['+'], .plus), (['-'], .minus), (['*'], .times), (['/'], .divide), (['%'], .mod),
    (['+', '+'], .plusPlus), (['+', '+'], .autoPlusPlus),
    (['-', '-'], .minusMinus), (['-', '-'], .autoMinusMinus),
    (['<', '<'], .lshift), (['>', '>'], .rshift), (['>', '>', '>'], .urshift),
    (['&'], .bitAnd), (['|'], .bitOr), (['^'], .bitXor), (['!'], .exclamation),
    (['&', '&'], .and), (['|', '|'], .or), (['='], .equal),
    (['+', '='], .plusEqual), (['-', '='], .minusEqual), (['*', '='], .multEqual),
    (['/', '='], .divEqual), (['%', '='], .modEqual), (['<', '<', '='], .lshiftEqual),
    (['>', '>', '='], .rshiftEqual), (['>', '>', '>', '='], .urshiftEqual),
    (['&', '='], .andEqual), (['|', '='], .orEqual), (['^', '='], .xorEqual) ]

/-! ## Identifiers -/

/-- The characters of some code units. -/
def charsOf (text : List UChar) : List Char := text.map fun c => Char.ofNat c.toNat

theorem charsOf_append (text text' : List UChar) :
    charsOf (text ++ text') = charsOf text ++ charsOf text' := List.map_append

theorem charsOf_single (c : UChar) : charsOf [c] = [Char.ofNat c.toNat] := rfl

/-- Some hexadecimal digits. -/
def HexDigits (digits : List UChar) : Prop := ∀ d ∈ digits, isASCIIHexDigit d.toNat = true

/-- The code unit that hexadecimal digits denote. -/
def hexUnit (digits : List UChar) : UChar := (digitsValue 16 (charsOf digits)).toUInt16

/-- Whether a character may stand in a name, at its start or further on. -/
def namesWith (started : Bool) (c : UChar) : Prop :=
  if started then isIdentPart c.toNat = true else isIdentStart c.toNat = true

/-- Part of an identifier name, the characters it denotes, and whether one of them is
escaped. -/
inductive IdentifierParts : Bool → List UChar → Identifier → Bool → Prop
  | nil {b : Bool} : IdentifierParts b [] [] false
  | char {b escaped : Bool} {c : UChar} {text : List UChar} {name : Identifier}
      (hc : namesWith b c) (h : IdentifierParts true text name escaped) :
      IdentifierParts b (c :: text) (c :: name) escaped
  | escape {b escaped : Bool} {digits text : List UChar} {name : Identifier}
      (hd : HexDigits digits) (hlen : digits.length = 4) (hc : namesWith b (hexUnit digits))
      (h : IdentifierParts true text name escaped) :
      IdentifierParts b (identifierOfChars ['\\', 'u'] ++ digits ++ text)
        (hexUnit digits :: name) true

/-- The token of a name. -/
def nameType (lexType : LexType) (escaped : Bool) (name : Identifier) : JSTokenType :=
  if escaped = false ∧ lexType = .identifyReservedWords then testKeyword name else .ident

/-! ## Strings -/

/-- Some octal digits. -/
def OctalDigits (digits : List UChar) : Prop := ∀ d ∈ digits, isASCIIOctalDigit d.toNat = true

/-- The code unit that octal digits denote. -/
def octalUnit (digits : List UChar) : UChar := (digitsValue 8 (charsOf digits)).toUInt16

/-- The character `c` starts no other escape. -/
def PlainEscape (c : UChar) : Prop :=
  singleEscape c.toNat = 0 ∧ isLineTerminator c.toNat = false ∧
    (c.toNat : Int) ≠ chr 'x' ∧ (c.toNat : Int) ≠ chr 'u' ∧ isASCIIOctalDigit c.toNat = false

/-- What follows a backslash in a string that `quote` encloses, what it denotes, and the
text after it.  An `x` without two digits, and a `u` right before the quote, stand for
themselves. -/
inductive Escape (quote : UChar) : List UChar → List UChar → List UChar → Prop
  | single {c : UChar} {rest : List UChar} (hc : singleEscape c.toNat ≠ 0) :
      Escape quote [c] [(singleEscape c.toNat).toNat.toUInt16] rest
  | continuation {eol rest : List UChar} (he : LineEnd eol) : Escape quote eol [] rest
  | hex {digits rest : List UChar} (hd : HexDigits digits) (hlen : digits.length = 2) :
      Escape quote (identifierOfChars ['x'] ++ digits) [hexUnit digits] rest
  | noHex {rest : List UChar} (h : ¬ (HexDigits (rest.take 2) ∧ 2 ≤ rest.length)) :
      Escape quote (identifierOfChars ['x']) (identifierOfChars ['x']) rest
  | unicode {digits rest : List UChar} (hd : HexDigits digits) (hlen : digits.length = 4) :
      Escape quote (identifierOfChars ['u'] ++ digits) [hexUnit digits] rest
  | noUnicode {rest : List UChar} :
      Escape quote (identifierOfChars ['u']) (identifierOfChars ['u']) (quote :: rest)
  | octal {digits rest : List UChar} (hd : OctalDigits digits) (hne : digits ≠ [])
      (hlen : digits.length ≤ 3) (hvalue : digitsValue 8 (charsOf digits) ≤ 255)
      (hmax : ∀ d, rest.head? = some d → digits.length = 3 ∨ isASCIIOctalDigit d.toNat = false ∨
        255 < digitsValue 8 (charsOf (digits ++ [d]))) :
      Escape quote digits [octalUnit digits] rest
  | plain {c : UChar} {rest : List UChar} (hc : PlainEscape c) : Escape quote [c] [c] rest

/-- What stands behind the closing quote does not matter. -/
theorem Escape.cut {quote : UChar} {escape value text rest : List UChar}
    (h : Escape quote escape value (text ++ quote :: rest)) :
    Escape quote escape value (text ++ [quote]) := by
  generalize hall : text ++ quote :: rest = all at h
  cases h with
  | single hc => exact .single hc
  | continuation he => exact .continuation he
  | hex hd hlen => exact .hex hd hlen
  | noHex h =>
      subst hall
      refine .noHex ?_
      match text with
      | [] => simp
      | [c] => simpa using h
      | c :: c' :: text => simpa using h
  | unicode hd hlen => exact .unicode hd hlen
  | noUnicode =>
      match text with
      | [] => exact .noUnicode
      | c :: text =>
          cases (List.cons.inj hall).1
          exact .noUnicode
  | octal hd hne hlen hvalue hmax =>
      subst hall
      refine .octal hd hne hlen hvalue fun d hd => hmax d ?_
      cases text <;> simpa using hd
  | plain hc => exact .plain hc

/-- The characters of a string that `quote` encloses, and what they denote. -/
inductive StringChars (quote : UChar) : List UChar → List UChar → Prop
  | nil : StringChars quote [] []
  | char {c : UChar} {text value : List UChar} (hquote : c ≠ quote)
      (hslash : (c.toNat : Int) ≠ chr '\\') (hline : isLineTerminator c.toNat = false)
      (h : StringChars quote text value) : StringChars quote (c :: text) (c :: value)
  | escape {escape value text value' : List UChar}
      (he : Escape quote escape value (text ++ [quote])) (h : StringChars quote text value') :
      StringChars quote (identifierOfChars ['\\'] ++ escape ++ text) (value ++ value')

/-! ## Regular expressions -/

/-- The characters of a regular expression up to the slash that closes it; the flags tell
whether the character before is a backslash, and whether a class is open. -/
inductive RegExpChars : Bool → Bool → List UChar → Prop
  | nil : RegExpChars false false []
  | escaped {brackets : Bool} {c : UChar} {text : List UChar}
      (hline : isLineTerminator c.toNat = false) (h : RegExpChars false brackets text) :
      RegExpChars true brackets (c :: text)
  | openBracket {brackets : Bool} {text : List UChar} (h : RegExpChars false true text) :
      RegExpChars false brackets (identifierOfChars ['['] ++ text)
  | closeBracket {brackets : Bool} {text : List UChar} (h : RegExpChars false false text) :
      RegExpChars false brackets (identifierOfChars [']'] ++ text)
  | backslash {brackets : Bool} {text : List UChar} (h : RegExpChars true brackets text) :
      RegExpChars false brackets (identifierOfChars ['\\'] ++ text)
  | char {brackets : Bool} {c : UChar} {text : List UChar}
      (hline : isLineTerminator c.toNat = false)
      (hplain : ∀ d ∈ ['[', ']', '\\'], (c.toNat : Int) ≠ chr d)
      (hslash : (c.toNat : Int) = chr '/' → brackets = true)
      (h : RegExpChars false brackets text) : RegExpChars false brackets (c :: text)

/-- The flags behind a regular expression. -/
def RegExpFlags (flags : List UChar) : Prop := ∀ c ∈ flags, isIdentPart c.toNat = true

/-! ## Numbers -/

/-- Some decimal digits. -/
def Digits (digits : List UChar) : Prop := ∀ d ∈ digits, isASCIIDigit d.toNat = true

/-- The exponent of a number, if it has one. -/
inductive ExponentText : List UChar → Prop
  | none : ExponentText []
  | some {e : UChar} {sign digits : List UChar} (he : orBit20 e.toNat = chr 'e')
      (hsign : sign = [] ∨ sign = identifierOfChars ['+'] ∨ sign = identifierOfChars ['-'])
      (hd : Digits digits) (hne : digits ≠ []) : ExponentText (e :: sign ++ digits)

/-- A decimal number. -/
inductive DecimalText : List UChar → Prop
  | whole {whole exponent : List UChar} (hw : Digits whole) (hne : whole ≠ [])
      (he : ExponentText exponent) : DecimalText (whole ++ exponent)
  | point {whole fraction exponent : List UChar} (hw : Digits whole) (hf : Digits fraction)
      (hne : whole ++ fraction ≠ []) (he : ExponentText exponent) :
      DecimalText (whole ++ identifierOfChars ['.'] ++ fraction ++ exponent)

/-- A decimal number, with a small `e`. -/
def lowerExponent (text : List UChar) : List Char :=
  (charsOf text).map fun c => if c = 'E' then 'e' else c

theorem lowerExponent_append (text text' : List UChar) :
    lowerExponent (text ++ text') = lowerExponent text ++ lowerExponent text' := by
  simp [lowerExponent, charsOf]

/-- The text of a number, what it denotes, and what is made of it: the number itself, or
what a conversion makes of its digits. -/
inductive NumberText [Platform] : List UChar → ℚ → Double → Prop
  | hex {x : UChar} {digits : List UChar} {d : Double} (hx : orBit20 x.toNat = chr 'x')
      (hd : HexDigits digits) (hne : digits ≠ [])
      (hv : d = .finite (digitsValue 16 (charsOf digits)) ∨ ∃ buffer : List Char,
        buffer.map Char.toLower = (charsOf digits).map Char.toLower ∧
          d = Platform.parseIntOverflow buffer 16) :
      NumberText (identifierOfChars ['0'] ++ x :: digits) (digitsValue 16 (charsOf digits)) d
  | octal {digits : List UChar} {d : Double} (hd : OctalDigits digits) (hne : digits ≠ [])
      (hv : d = .finite (digitsValue 8 (charsOf digits)) ∨
        d = Platform.parseIntOverflow ('0' :: charsOf digits) 8) :
      NumberText (identifierOfChars ['0'] ++ digits) (digitsValue 8 (charsOf digits)) d
  | decimal {text : List UChar} {d : Double} (h : DecimalText text)
      (hoctal : ¬ ∃ digits, text = identifierOfChars ['0'] ++ digits ∧ OctalDigits digits ∧
        digits ≠ [])
      (hv : d = .finite (decimalValue (lowerExponent text)) ∨
        d = Platform.strtod (lowerExponent text)) :
      NumberText text (decimalValue (lowerExponent text)) d

theorem DecimalText.ne_nil {text : List UChar} (h : DecimalText text) : text ≠ [] := by
  cases h with
  | whole _ hne _ => simp [hne]
  | point _ _ _ _ => simp [identifierOfChars]

theorem NumberText.ne_nil [Platform] {text : List UChar} {q : ℚ} {d : Double}
    (h : NumberText text q d) : text ≠ [] := by
  cases h with
  | hex _ _ _ _ => simp [identifierOfChars]
  | octal _ _ _ => simp [identifierOfChars]
  | decimal h _ _ => exact h.ne_nil

/-! ## Tokens -/

/-- The text of a token that `following` stands behind, with its type and its data. -/
inductive Spells [Platform] (lexType : LexType) (following : List UChar) :
    List UChar → JSTokenType → JSTokenData → Prop
  | punctuator {text : List Char} {t : JSTokenType} {data : JSTokenData}
      (h : (text, t) ∈ punctuators)
      (longest : ∀ p ∈ punctuators,
        identifierOfChars p.1 <+: identifierOfChars text ++ following → p.1.length ≤ text.length) :
      Spells lexType following (identifierOfChars text) t data
  | identifier {text : List UChar} {name : Identifier} {escaped : Bool}
      (h : IdentifierParts false text name escaped) (hne : text ≠ []) :
      Spells lexType following text (nameType lexType escaped name) (.ident name)
  | string {quote : UChar} {text value : List UChar}
      (hquote : (quote.toNat : Int) = chr '"' ∨ (quote.toNat : Int) = chr '\'')
      (h : StringChars quote text value) :
      Spells lexType following (quote :: text ++ [quote]) .string (.ident value)
  | number {text : List UChar} {q : ℚ} {d : Double} (h : NumberText text q d) :
      Spells lexType following text .number (.doubleValue d)

theorem nameType_cases (lexType : LexType) (escaped : Bool) (name : Identifier) :
    nameType lexType escaped name = .ident ∨ ∃ k ∈ keywords, nameType lexType escaped name = k.2 := by
  unfold nameType
  split
  · exact testKeyword_mem name
  · exact Or.inl rfl

/-- The type of a name is none of the other types. -/
theorem nameType_ne {lexType : LexType} {escaped : Bool} {name : Identifier} {t : JSTokenType}
    (ht : t ≠ .ident ∧ ∀ k ∈ keywords, t ≠ k.2) : t ≠ nameType lexType escaped name := by
  rcases nameType_cases lexType escaped name with h | ⟨k, hk, h⟩
  · rw [h]
    exact ht.1
  · rw [h]
    exact ht.2 k hk

section Spells

variable [Platform] {lexType : LexType} {following text : List UChar} {data : JSTokenData}

/-- The text of a string. -/
theorem Spells.string_text (h : Spells lexType following text .string data) :
    ∃ quote inner value, ((quote.toNat : Int) = chr '"' ∨ (quote.toNat : Int) = chr '\'') ∧
      text = quote :: inner ++ [quote] ∧ StringChars quote inner value ∧ data = .ident value := by
  generalize ht : JSTokenType.string = t at h
  cases h with
  | punctuator hmem =>
      have hnone : ∀ p ∈ punctuators, JSTokenType.string ≠ p.2 := by decide
      exact absurd ht (hnone _ hmem)
  | identifier => exact absurd ht (nameType_ne (by decide))
  | string hquote h => exact ⟨_, _, _, hquote, rfl, h, rfl⟩
  | number => cases ht

/-- The text of a number. -/
theorem Spells.number_text (h : Spells lexType following text .number data) :
    ∃ q d, NumberText text q d ∧ data = .doubleValue d := by
  generalize ht : JSTokenType.number = t at h
  cases h with
  | punctuator hmem =>
      have hnone : ∀ p ∈ punctuators, JSTokenType.number ≠ p.2 := by decide
      exact absurd ht (hnone _ hmem)
  | identifier => exact absurd ht (nameType_ne (by decide))
  | string => cases ht
  | number h => exact ⟨_, _, h, rfl⟩

/-- The text of a punctuator that has a type of its own. -/
theorem Spells.punctuator_text {t : JSTokenType} (h : Spells lexType following text t data)
    (ht : t ≠ .ident ∧ ∀ k ∈ keywords, t ≠ k.2) (hstring : t ≠ .string) (hnumber : t ≠ .number) :
    ∃ chars, (chars, t) ∈ punctuators ∧ text = identifierOfChars chars := by
  generalize ht' : t = t' at h
  cases h with
  | punctuator hmem => exact ⟨_, ht' ▸ hmem, rfl⟩
  | identifier => exact absurd ht' (nameType_ne ht)
  | string => exact absurd ht' hstring
  | number => exact absurd ht' hnumber

end Spells

/-- The tokens after which a line terminator counts as a semicolon. -/
def Restricted (last : Option JSTokenType) : Prop :=
  last = some .continue ∨ last = some .break ∨ last = some .return ∨ last = some .throw

/-- A line terminator, with the comment that it ends. -/
def LineBreak (lineStart : Bool) (text : List UChar) : Prop :=
  ∃ comment eol, text = comment ++ eol ∧ (comment = [] ∨ LineComment lineStart comment) ∧
    LineEnd eol

/-- The text from `offset` on, after the token `last`, is cut into gaps and tokens up to
`rest`. -/
inductive Partition [Platform] : Option JSTokenType → Bool → Nat → List (LexType × JSToken) →
    List UChar → List UChar → Prop
  | done {last : Option JSTokenType} {lineStart : Bool} {offset : Nat} {rest : List UChar} :
      Partition last lineStart offset [] rest rest
  | token {last : Option JSTokenType} {b b' : Bool} {offset : Nat} {lexType : LexType}
      {t : JSToken} {ts : List (LexType × JSToken)} {gap text following rest : List UChar}
      (hgap : Gap b gap b') (hspells : Spells lexType following text t.type t.data)
      (hstart : t.info.startOffset = offset + gap.length)
      (hend : t.info.endOffset = t.info.startOffset + text.length)
      (hne : t.info.startOffset < t.info.endOffset)
      (h : Partition (some t.type) false t.info.endOffset ts following rest) :
      Partition last b offset ((lexType, t) :: ts) (gap ++ text ++ following) rest
  | semicolon {last : Option JSTokenType} {b b' : Bool} {offset : Nat} {lexType : LexType}
      {t : JSToken} {ts : List (LexType × JSToken)} {gap text following rest : List UChar}
      (hgap : Gap b gap b') (hlast : Restricted last) (htype : t.type = .semicolon)
      (htext : LineBreak b' text)
      (hstart : t.info.startOffset = offset + gap.length)
      (hend : t.info.endOffset = t.info.startOffset + text.length)
      (hne : t.info.startOffset < t.info.endOffset)
      (h : Partition (some t.type) true t.info.endOffset ts following rest) :
      Partition last b offset ((lexType, t) :: ts) (gap ++ text ++ following) rest

end HammerJS
