import HammerJS.Reflect.StatementsSafety

/-!
# Every parse comes to an end

The events of the parse of a source, and why there are finitely many.

* `Occurs` — an event of the parse of a source.
* `Occurs.sound`, `Occurs.pre` — the lexer and the productions are used as they
  expect to be.
* `source_terminates` — every token, every statement and every iteration of a loop
  leaves less of the source, and the lexer is never set back.
-/

namespace HammerJS

open Procs Machine Lexer Parse

variable [Platform] {source : List UChar}

/-! ## The events of a parse -/

/-- The parse of the source comes, in the state `t`, to the event `e`. -/
def Occurs (source : List UChar) (e : Event parserInterface) (t : ParserState) : Prop :=
  parser.Visits (callDepth source) .createSyntaxTree (initialState source) e t

/-- The events that the code of `p`, called in `s`, issues itself. -/
abbrev Production.Issues (p : Production) (s : ParserState) (e : Event parserInterface)
    (t : ParserState) : Prop :=
  parser.Issues (fun _ => False) (productionBody p) s e t

/-- A production is called with its precondition. -/
theorem Occurs.pre {p : Production} {t : ParserState} (h : Occurs source (.call p) t) : Pre p t :=
  visits_pre safety_neverDead parser_safe.correct (initialState_pre source) h

/-- What is blamed for a fault of the parse. -/
theorem blamed_of_fault {n : Nat} {e : Crash}
    (h : parser.run n .createSyntaxTree (initialState source) = .fault e) :
    ∃ ev t, parser.Visits n .createSyntaxTree (initialState source) ev t ∧ Excused ev t e := by
  rcases run_blame safety_neverDead parser_safe.correct (initialState_pre source) h with h | h
  · exact h.elim
  · exact h

/-- What is blamed for a command that is not expected. -/
theorem Occurs.blamed {o : ParserOp} {t : ParserState} (h : Occurs source (.op o) t) {e : Crash}
    (he : Forbidden o t e) : ∃ ev u, Occurs source ev u ∧ Excused ev u e := by
  rcases visits_blame safety_neverDead parser_safe.correct (initialState_pre source) h he with h | h
  · exact h.elim
  · exact h

/-- Only three crashes are excused. -/
theorem excused_cases {ev : Event parserInterface} {t : ParserState} {e : Crash}
    (h : Excused ev t e) : e = .lexEntry ∨ e = .nullNode ∨ e = .getterOrSetter := by
  rcases ev with o | p
  · exact h.elim
  · cases p <;> first | exact Or.inl h.1 | exact Or.inr (Or.inl h.1) |
      exact Or.inr (Or.inr h.1) | exact h.elim

/-- The invariant of the parser holds wherever a token is read. -/
theorem Occurs.sound {lexType : LexType} {t : ParserState}
    (h : Occurs source (.op (.next lexType)) t) : Sound t := by
  by_contra hs
  obtain ⟨ev, u, -, he⟩ := h.blamed (e := .notReached) (Or.inr ⟨rfl, hs⟩)
  rcases excused_cases he with h | h | h <;> cases h

/-! ## Termination -/

/-- Every call of `lex` that returns a token moves on. -/
theorem lex_advances {l l' : Lexer} {lexType : LexType} {old t : JSToken} (hv : l.Valid)
    (h : lex lexType old l = .ok (t, l')) (ht : t.type.isReal = true) :
    l'.code.length < l.code.length := by
  have hs : ¬ l.Stuck := fun hs => by
    rw [lex_stuck lexType old hs] at h
    cases h
  exact ((lex_succeeds lexType old (idle_of_not_stuck hv hs)).of_eq h).progress ht

/-- The loops that read tokens, each with a further iteration of it. -/
inductive Production.Iterates : Production → Production → Prop
  | sourceElements {a b} : Iterates (.sourceElementsLoop a) (.sourceElementsLoop b)
  | varDeclaration {a b c a' b' c'} :
      Iterates (.varDeclarationLoop a b c) (.varDeclarationLoop a' b' c')
  | constDeclaration {a b a' b'} : Iterates (.constDeclarationLoop a b) (.constDeclarationLoop a' b')
  | switchClauses {a b} : Iterates (.switchClausesLoop a) (.switchClausesLoop b)
  | formalParameters {a b} : Iterates (.formalParametersLoop a) (.formalParametersLoop b)
  | else {a b c a' b' c'} : Iterates (.ifLoop a b c) (.ifLoop a' b' c')
  | comma {a b} : Iterates (.commaLoop a) (.commaLoop b)
  | assignment {a b c a' b' c'} : Iterates (.assignmentLoop a b c) (.assignmentLoop a' b' c')
  | binary {a b a' b'} : Iterates (.binaryLoop a b) (.binaryLoop a' b')
  | object {a b a' b'} : Iterates (.objectLoop a b) (.objectLoop a' b')
  | strictObject {a b} : Iterates (.strictObjectLoop a) (.strictObjectLoop b)
  | elisions {a b} : Iterates (.elisionsLoop a) (.elisionsLoop b)
  | array {a b} : Iterates (.arrayLoop a) (.arrayLoop b)
  | arguments {a b} : Iterates (.argumentsLoop a) (.argumentsLoop b)
  | new {a b} : Iterates (.newLoop a) (.newLoop b)
  | member {a b a' b'} : Iterates (.memberLoop a b) (.memberLoop a' b')
  | unaryTokens {a b} : Iterates (.unaryTokensLoop a) (.unaryTokensLoop b)

omit [Platform] in
theorem Production.Iterates.rank_eq {p q : Production} (h : p.Iterates q) : q.rank = p.rank := by
  cases h <;> rfl

/-- A call comes after the start of the production that makes it. -/
theorem Occurs.mayCall {p q : Production} {s t : ParserState} (h : Occurs source (.call p) s)
    (hq : p.Issues s (.call q) t) : Pre q t ∧ MayCall p s q t :=
  parser_safe.issues (fun _ _ hd => hd) h.pre hq

/-- What a production that was called returns. -/
theorem Occurs.post {p : Production} {s s' : ParserState} {r : Option p.Ret}
    (h : Occurs source (.call p) s) (hr : parser.Returns p s r s') : Post p s r s' :=
  Returns.post safety_neverDead parser_safe.correct h.pre hr

/-- What brings the parse of a source to its end. -/
structure Terminates (source : List UChar) : Prop where
  /-- The parse ends, with a result or at an assertion. -/
  ends : ∀ n, callDepth source ≤ n →
    (parser.run n .createSyntaxTree (initialState source)).Ends
  /-- No loop of the lexer goes on at the end of the input. -/
  scans : ∀ n e, parser.run n .createSyntaxTree (initialState source) = .fault e →
    e ≠ .loopBound
  /-- A token that is neither the end of the input nor invalid was read from the
  source. -/
  tokens : ∀ lexType t t', Occurs source (.op (.next lexType)) t → t.Next lexType t' →
    t'.token.type ≠ .eofTok → t'.token.type ≠ .errorTok →
      t'.lexer.code.length < t.lexer.code.length
  /-- A statement that is not null was read from the source. -/
  statements : ∀ t node t', Occurs source (.call .statement) t →
    parser.Returns .statement t (some node) t' → t'.left < t.left
  /-- Every call decreases the measure. -/
  calls : ∀ p s q t, Occurs source (.call p) s → p.Issues s (.call q) t →
    safetyMeasure q t < safetyMeasure p s
  /-- Every further iteration of a loop comes after a token. -/
  iterations : ∀ p s q t, Occurs source (.call p) s → p.Issues s (.call q) t →
    p.Iterates q → t.left < s.left
  /-- The lexer is never set back to an earlier character. -/
  rewinds : ∀ offset t, ¬ Occurs source (.op (.setOffset offset)) t

/-- **Termination.**  Every parse comes to an end, whether or not `m_error` is set on
the way. -/
theorem source_terminates (source : List UChar) : Terminates source where
  ends n hn := by
    have hends := runParser_ends source
    rw [runParser] at hends
    rwa [parser.run_mono hn _ _ fun h => by rw [h] at hends; exact hends]
  scans n e h := by
    rintro rfl
    obtain ⟨ev, t, -, he⟩ := blamed_of_fault h
    rcases excused_cases he with h | h | h <;> cases h
  tokens lexType t t' h hn heof herror := by
    have hreal : t'.token.type.isReal = true := by simp [JSTokenType.isReal, heof, herror]
    unfold ParserState.Next at hn
    simp only [parserStep] at hn
    cases hlex : lex lexType t.token t.lexer with
    | error e => rw [hlex] at hn; cases hn
    | ok r =>
        rw [hlex] at hn
        cases hn
        exact lex_advances h.sound.valid hlex hreal
  statements t node t' h hr := (h.post hr).progress (by simp) rfl
  calls p s q t h hq := (h.mayCall hq).2.measure
  iterations p s q t h hq hiterates := by
    have hlt := (h.mayCall hq).2.measure
    have hrank := hiterates.rank_eq
    simp only [safetyMeasure] at hlt
    omega
  rewinds offset t h := by
    obtain ⟨ev, u, -, he⟩ := h.blamed (e := .notReached) rfl
    rcases excused_cases he with h | h | h <;> cases h

end HammerJS
