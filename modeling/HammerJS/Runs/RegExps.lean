import HammerJS.Reflect.Exact
import HammerJS.Reflect.Outcomes
import HammerJS.Runs.Termination
import HammerJS.Spelling.RegExps
import HammerJS.Syntax.Conversion
import HammerJS.Syntax.Derivations
import HammerJS.Syntax.Positions

/-!
# Regular expressions in a parse

The lexer takes the start of a regular expression for a division, and
`parsePrimaryExpression` has it look again.

* `Stream.Ahead` — the source from a division token on.
* `lex_regExp`, `primaryExpression_regExp` — the literal from the division token on, and
  where an operand may start.
* `regExp_literals` — the text of a literal comes back as its value, and a division token
  stands for a division exactly between two operands.
-/

namespace HammerJS

open Procs Machine Lexer Parse

variable [Platform]

/-! ## Literals -/

/-- The current token is a division token, and the source from it on is `text`. -/
def Stream.Ahead (a : Stream) (text : List UChar) : Prop :=
  (a.token.type = .divide ∧ text = identifierOfChars ['/'] ++ a.lexer.code) ∨
    (a.token.type = .divEqual ∧ text = identifierOfChars ['/', '='] ++ a.lexer.code)

omit [Platform] in
/-- Behind its slash a literal opens no comment. -/
theorem RegularExpressionBody.no_comment {body : List UChar} (h : RegularExpressionBody body)
    (rest : List UChar) :
    codeUnit (body ++ rest) ≠ chr '/' ∧ codeUnit (body ++ rest) ≠ chr '*' := by
  obtain ⟨hchars, hne, hfirst⟩ := h
  have hstar : ∀ c : UChar, c ≠ '*'.toNat.toUInt16 → (c.toNat : Int) ≠ chr '*' := by
    intro c hc
    exact unit_ne (List.mem_singleton_self '*') (by simpa [identifierOfChars] using hc) (by decide)
  cases hchars with
  | nil => exact absurd rfl hne
  | @char c text hline hc h =>
      exact ⟨unit_ne (by simp) hc (by decide), hstar c (by simpa using hfirst)⟩
  | backslash => exact ⟨(by decide : chr '\\' ≠ chr '/'), (by decide : chr '\\' ≠ chr '*')⟩
  | cls => exact ⟨(by decide : chr '[' ≠ chr '/'), (by decide : chr '[' ≠ chr '*')⟩

omit [Platform] in
/-- What stands behind an equals sign at the start of a body. -/
theorem RegularExpressionChars.behind_equals {text : List UChar}
    (h : RegularExpressionChars ('='.toNat.toUInt16 :: text)) : RegularExpressionChars text := by
  generalize hall : '='.toNat.toUInt16 :: text = all at h
  cases h with
  | nil => cases hall
  | char hline hc h =>
      obtain ⟨-, rfl⟩ := List.cons.inj hall
      exact h
  | backslash => exact absurd (List.cons.inj hall).1 (by decide)
  | cls => exact absurd (List.cons.inj hall).1 (by decide)

/-- What `parseRegExp` returns where the literal is read. -/
theorem primaryExpression_scanned {s : ParserState} {patternPrefix : Option UChar}
    {pattern flags : Identifier} {l : Lexer}
    (ht : s.token.type = if patternPrefix.isSome then .divEqual else .divide)
    (hpre : ∀ c ∈ patternPrefix, c = '='.toNat.toUInt16) (hl : l.Idle)
    (hscan : scanRegExp patternPrefix s.lexer = .ok (some (pattern, flags), l)) :
    ∃ t, parser.Returns .primaryExpression s (some (Builder.createRegex pattern flags)) t ∧
      Stream.Next .identifyReservedWords ⟨l, s.token⟩ t.stream := by
  obtain ⟨token, lexer, hlex, -⟩ := lex_succeeds .identifyReservedWords s.token hl
  have hstep : parserStep (.scanRegExp patternPrefix) s =
      .ok (some (pattern, flags), { s with lexer := l }) := by
    simp only [parserStep, hscan, Except.map]
  have hnext : ({ s with lexer := l } : ParserState).Next .identifyReservedWords
      { s with lexer, token, tokenCount := s.tokenCount + 1 } := by
    simp only [ParserState.Next, parserStep, hlex, Except.map]
  have hregExp : Gives parser.Returns (parseRegExp patternPrefix) s
      (Builder.createRegex pattern flags)
      { s with lexer, token, tokenCount := s.tokenCount + 1 } := by
    unfold parseRegExp
    refine (reaches_command hstep).mpr ?_
    exact gives_failIfNull.mpr ⟨(pattern, flags), rfl,
      gives_next.mpr ⟨_, hnext, gives_pure.mpr ⟨rfl, rfl⟩⟩⟩
  refine ⟨{ s with lexer, token, tokenCount := s.tokenCount + 1 }, parser_returns_iff.mpr ?_, hlex⟩
  show Gives parser.Returns parsePrimaryExpression s _ _
  unfold parsePrimaryExpression
  rw [gives_tokenType]
  cases patternPrefix with
  | none =>
      rw [show s.token.type = .divide from ht]
      exact hregExp
  | some c =>
      rw [show s.token.type = .divEqual from ht]
      rw [hpre c rfl] at hregExp
      exact hregExp

omit [Platform] in
/-- Flags of plain characters are flags to the scanner, and end where `rest` does not go on. -/
theorem regExpFlags_of_chars {flags : List Char} {rest : List UChar}
    (hflags : ∀ c ∈ flags, isIdPart c = true)
    (hrest : ∀ c : Char, isIdPart c = true → rest.head? ≠ some c.toNat.toUInt16) :
    RegExpFlags (identifierOfChars flags) ∧ isIdentPart (codeUnit rest) = false := by
  constructor
  · intro c hc
    obtain ⟨d, hd, rfl⟩ := List.mem_map.mp hc
    exact (namesWith_iff true _).mpr ⟨d, hflags d hd, rfl⟩
  · cases rest with
    | nil => exact end_not_class.1
    | cons c rest =>
        rw [← Bool.not_eq_true]
        intro hpart
        obtain ⟨d, hd, rfl⟩ := (namesWith_iff true c).mp hpart
        exact hrest d hd rfl

/-- In front of a literal `lex` answers a division token, and the literal starts there. -/
theorem lex_regExp (lexType : LexType) (old : JSToken) {l : Lexer}
    {body flags rest : List UChar} (hbody : RegularExpressionBody body) (hidle : l.Idle)
    (hcode : l.code = regExpText body flags ++ rest) :
    Succeeds (lex lexType old) l fun token l' => Stream.Ahead ⟨l', token⟩ l.code := by
  have hslash : l.code =
      '/'.toNat.toUInt16 :: (body ++ (identifierOfChars ['/'] ++ flags ++ rest)) := by
    rw [hcode, regExpText]
    simp [identifierOfChars]
  refine (lex_slash lexType old hidle hslash (hbody.no_comment _)).mono ?_
  rw [hslash]
  rintro token l' (⟨htype, hl'⟩ | ⟨htype, hl'⟩)
  · exact Or.inl ⟨htype, by rw [hl']; rfl⟩
  · exact Or.inr ⟨htype, by rw [hl']; rfl⟩

/-- Behind the division token the rest of a literal is read. -/
theorem primaryExpression_rest {s : ParserState} {patternPrefix : Option UChar}
    {text flags rest : List UChar}
    (ht : s.token.type = if patternPrefix.isSome then .divEqual else .divide)
    (hpre : ∀ c ∈ patternPrefix, c = '='.toNat.toUInt16) (hl : s.lexer.Idle)
    (htext : RegularExpressionChars text) (hflags : RegExpFlags flags)
    (hrest : isIdentPart (codeUnit rest) = false)
    (hcode : s.lexer.code = text ++ identifierOfChars ['/'] ++ flags ++ rest) :
    ∃ t l, parser.Returns .primaryExpression s
        (some (Builder.createRegex (patternPrefix.toList ++ text) flags)) t ∧
      l.Idle ∧ l.code = rest ∧ Stream.Next .identifyReservedWords ⟨l, s.token⟩ t.stream := by
  have hscanner : ∀ c ∈ patternPrefix, RegExpPrefix c := by
    intro c hc
    rw [hpre c hc]
    exact regExpPrefix_equal _ rfl
  have hscan := scanRegExp_reads hl hscanner htext.scanned hflags hrest hcode
  obtain ⟨_, _, hscan', -, hidle⟩ := scanRegExp_succeeds patternPrefix hl hscanner
  cases hscan.symm.trans hscan'
  obtain ⟨t, hreturns, hnext⟩ := primaryExpression_scanned ht hpre hidle hscan
  exact ⟨t, _, hreturns, hidle, rfl, hnext⟩

/-- **Where an operand may start, a literal is read to its end.** -/
theorem primaryExpression_regExp {source body flags rest : List UChar} {s : ParserState}
    (hbody : RegularExpressionBody body) (hflags : RegExpFlags flags)
    (hrest : isIdentPart (codeUnit rest) = false)
    (hs : Occurs source (.call .primaryExpression) s)
    (hahead : s.stream.Ahead (regExpText body flags ++ rest)) :
    ∃ t l, parser.Returns .primaryExpression s (some (Builder.createRegex body flags)) t ∧
      l.Idle ∧ l.code = rest ∧ Stream.Next .identifyReservedWords ⟨l, s.token⟩ t.stream := by
  have hidle : ∀ type, s.token.type = type → type ≠ .errorTok → s.lexer.Idle := by
    rintro type rfl hne
    exact hs.pre.sound.idle hne
  have hsplit : regExpText body flags ++ rest =
      '/'.toNat.toUInt16 :: (body ++ identifierOfChars ['/'] ++ flags ++ rest) := by
    simp [regExpText, identifierOfChars]
  rw [hsplit] at hahead
  rcases hahead with ⟨htype, htext⟩ | ⟨htype, htext⟩
  · exact @primaryExpression_rest _ s none _ _ _ htype (by simp)
      (hidle _ htype (by decide)) hbody.chars hflags hrest (List.cons.inj htext).2.symm
  · have htext := (List.cons.inj htext).2
    obtain ⟨hchars, hne, -⟩ := hbody
    cases body with
    | nil => exact absurd rfl hne
    | cons c text =>
        obtain ⟨rfl, hcode⟩ := List.cons.inj htext
        exact @primaryExpression_rest _ s (some '='.toNat.toUInt16) _ _ _ htype
          (by simp) (hidle _ htype (by decide)) hchars.behind_equals hflags hrest hcode.symm

/-! ## Sources -/

/-- **Regular expressions.**  A literal is lexed as a division token in front of the rest;
where an operand may start, the literal is read to its last flag and converted to its text.
In a source that is accepted a division token stands for a division exactly between two
operands, and for a regular expression exactly where an expression starts. -/
theorem regExp_literals {source body rest : List UChar} {flags : List Char}
    (hbody : RegularExpressionBody body) (hflags : ∀ c ∈ flags, isIdPart c = true)
    (hrest : ∀ c : Char, isIdPart c = true → rest.head? ≠ some c.toNat.toUInt16) :
    (∀ lexType old (l : Lexer), l.Idle →
      l.code = regExpText body (identifierOfChars flags) ++ rest →
      Succeeds (lex lexType old) l fun token l' => Stream.Ahead ⟨l', token⟩ l.code) ∧
    (∀ s, Occurs source (.call .primaryExpression) s →
      s.stream.Ahead (regExpText body (identifierOfChars flags) ++ rest) →
      ∃ node t l, parser.Returns .primaryExpression s (some node) t ∧ l.Idle ∧ l.code = rest ∧
        Stream.Next .identifyReservedWords ⟨l, s.token⟩ t.stream ∧
        Converts (some node)
          (literalValue "RegEx" (.string (regExpText body (identifierOfChars flags))))) ∧
    ∀ j, reflectParse source = .tree j → ∃ program start stop,
      Accepted source program start stop ∧ j = programValue program.value ∧
        ∀ before x behind a b, program.lexemes = before ++ x :: behind → Reads before start a →
          x.Step a b → a.token.type.IsSlash →
          (x.IsDivision ↔ OperatorPosition program before behind) ∧
            (x.IsRegExp ↔ OperandPosition program before) := by
  obtain ⟨hflags, hrest⟩ := regExpFlags_of_chars hflags hrest
  refine ⟨fun lexType old l hidle hcode => ?_, fun s hs hahead => ?_, fun j hj => ?_⟩
  · exact lex_regExp lexType old hbody hidle hcode
  · obtain ⟨t, l, hreturns, hidle, hcode, hnext⟩ :=
      primaryExpression_regExp hbody hflags hrest hs hahead
    exact ⟨_, t, l, hreturns, hidle, hcode, hnext,
      (Phrase.regExp none body (identifierOfChars flags)).converts⟩
  · obtain ⟨program, start, stop, haccepted, -, hvalue⟩ := reflectParse_tree hj
    refine ⟨program, start, stop, haccepted, hvalue, fun before x behind a b hx _ hstep ht => ?_⟩
    rw [hstep.type] at ht
    exact ⟨division_iff hx ht, regExp_iff hx ht⟩

omit [Platform] in
/-- `=\/[/]` is the body of a literal. -/
theorem regularExpressionBody_slashes :
    RegularExpressionBody (identifierOfChars ['=', '\\', '/', '[', '/', ']']) where
  chars := .char (by decide) (by decide)
    (.backslash (by decide) (.cls (.char (by decide) (by decide) .nil) .nil))
  nonempty := by decide
  first := by decide

/-- `parsePrimaryExpression` is called at `/=`, in front of `rest`. -/
def atDivEqual (rest : List UChar) : Event parserInterface → ParserState → Bool
  | .call .primaryExpression, s => s.token.type == .divEqual && s.lexer.code == rest
  | _, _ => false

omit [Platform] in
/-- The literal of `a=/=\/[/]/g;`. -/
theorem regExp_literals_slashes : ∃ s node t l,
    @Occurs exactPlatform (identifierOfChars "a=/=\\/[/]/g;".toList)
      (.call .primaryExpression) s ∧
    (@parser exactPlatform).Returns .primaryExpression s (some node) t ∧
    l.code = identifierOfChars [';'] ∧
    @Stream.Next exactPlatform .identifyReservedWords ⟨l, s.token⟩ t.stream ∧
    @Converts exactPlatform (some node)
      (literalValue "RegEx" (.string (identifierOfChars "/=\\/[/]/g".toList))) := by
  let _ : Platform := exactPlatform
  obtain ⟨ev, s, hv, h⟩ := parser.visits_of_any
    (atDivEqual (identifierOfChars "\\/[/]/g;".toList))
    (callDepth (identifierOfChars "a=/=\\/[/]/g;".toList)) .createSyntaxTree
    (initialState (identifierOfChars "a=/=\\/[/]/g;".toList)) (by decide +kernel)
  unfold atDivEqual at h
  split at h
  · obtain ⟨htype, hcode⟩ := Bool.and_eq_true_iff.mp h
    have hahead : s.stream.Ahead (regExpText (identifierOfChars ['=', '\\', '/', '[', '/', ']'])
        (identifierOfChars ['g']) ++ identifierOfChars [';']) := by
      refine Or.inr ⟨eq_of_beq htype, ?_⟩
      rw [show s.stream.lexer.code = _ from eq_of_beq hcode]
      decide
    have hend : ∀ c : Char, isIdPart c = true →
        (identifierOfChars [';']).head? ≠ some c.toNat.toUInt16 := by
      intro c hc hrest
      have hpart : isIdentPart ';'.toNat = true :=
        (namesWith_iff true ';'.toNat.toUInt16).mpr ⟨c, hc, Option.some.inj hrest⟩
      cases hpart
    obtain ⟨node, t, l, hreturns, -, hrest, hnext, hconverts⟩ :=
      (@regExp_literals _ _ _ _ ['g'] regularExpressionBody_slashes
        (List.all_iff_forall_prop.mp (by decide)) hend).2.1 s hv hahead
    exact ⟨s, node, t, l, hv, hreturns, hrest, hnext, hconverts⟩
  · cases h

end HammerJS
