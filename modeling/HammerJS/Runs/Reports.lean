import HammerJS.Reflect.LexerBounds
import HammerJS.Reflect.LexerLines
import HammerJS.Runs.Completeness
import HammerJS.Runs.Termination

/-!
# Reports of errors

`Parser::createSyntaxTree` returns the tree, and a line and a message for an error.  The
error that it reports is that of the lexer; one that only the parser has seen is not reported.

* `Lexer.report`, `Parser.createSyntaxTree` — what is returned.
* `ReportAgrees` — there is a report exactly if there is no tree.
* `LexError` — a call of `lex` leaves through `returnError`.
* `invalid_token` — the calls that return an invalid token without leaving through it.
* `report_agrees_iff` — a failure is reported exactly in the presence of such a call.
* `createSyntaxTree_derived`, `report_agrees_iff_of_unread` — the same, by the grammar.
-/

namespace HammerJS

open Procs Machine Lexer Parse

/-! ## What is returned -/

/-- What is written through `errLine` and `errMsg`. -/
structure ErrorReport where
  errLine : Int
  errMsg : String
  deriving DecidableEq

/-- The report, of the lexer as the parser leaves it. -/
def Lexer.report (lexer : Lexer) : ErrorReport :=
  let lineNumber := lexer.lineNumber
  let lexError := lexer.error
  if lexError then ⟨lineNumber, "Parse error"⟩ else ⟨-1, ""⟩

/-- `Parser::createSyntaxTree`, with the tree, or null, and the report; nothing if the process
stops at an assertion. -/
def Parser.createSyntaxTree [Platform] (source : List UChar) :
    Option (Option Node × ErrorReport) :=
  match runParser source with
  | .done tree s => some (tree, s.lexer.report)
  | _ => none

/-- The report says of a tree whether it is null. -/
structure ReportAgrees (tree : Option Node) (report : ErrorReport) : Prop where
  null : tree = none ↔ 1 ≤ report.errLine ∧ report.errMsg ≠ ""
  tree : tree ≠ none → report.errLine = -1 ∧ report.errMsg = ""

/-! ## The two flags -/

section Flags

variable [Platform] {source : List UChar}

/-- In the parse of the source, a call of `lex` sets the flag of the lexer. -/
def LexError (source : List UChar) : Prop :=
  ∃ lexType t t', Occurs source (.op (.next lexType)) t ∧ t.Next lexType t' ∧
    t'.lexer.error = true

/-- `lex` is not called once its flag is set. -/
theorem ParserState.Next.not_error {lexType : LexType} {s s' : ParserState}
    (h : s.Next lexType s') : s.lexer.error = false := by
  cases herror : s.lexer.error with
  | false => rfl
  | true =>
      rw [ParserState.Next, s.next_stuck lexType (Or.inl herror)] at h
      cases h

/-- What a command does to the line and to the flag of the lexer. -/
structure Marks (s s' : ParserState) : Prop where
  line : s.lexer.lineNumber ≤ s'.lexer.lineNumber
  error : s.lexer.error = true → s'.lexer.error = true

omit [Platform] in
theorem Marks.refl (s : ParserState) : Marks s s := ⟨le_rfl, id⟩

omit [Platform] in
theorem Marks.trans (s t u : ParserState) (h₁ : Marks s t) (h₂ : Marks t u) : Marks s u :=
  ⟨h₁.line.trans h₂.line, h₂.error ∘ h₁.error⟩

/-- A command does not count back, and `next` alone sets the flag. -/
theorem step_marks (o : ParserOp) (s : ParserState) (a : o.Res) (s' : ParserState)
    (h : parserStep o s = .ok (a, s')) :
    Marks s s' ∧ ((∃ lexType, o = .next lexType) ∨ s'.lexer.error = s.lexer.error) := by
  cases o with
  | next lexType =>
      have hn : s.Next lexType s' := h
      have herror := hn.not_error
      refine ⟨⟨?_, fun hs => ?_⟩, Or.inl ⟨lexType, rfl⟩⟩
      · have hlex : lex lexType s.token s.lexer = .ok (s'.token, s'.lexer) := hn.eq.1
        exact Grows.le (lex_lines lexType s.token) hlex
      · rw [herror] at hs
        cases hs
  | scanRegExp patternPrefix =>
      simp only [parserStep] at h
      cases hl : Lexer.scanRegExp patternPrefix s.lexer with
      | error e => rw [hl] at h; cases h
      | ok r =>
          rw [hl] at h
          cases h
          have hline : s.lexer.lineNumber ≤ r.2.lineNumber :=
            Grows.le (scanRegExp_grows (f := fun l => l.lineNumber) (fun _ _ _ _ => rfl) _) hl
          have hset : (if s.lexer.error then 1 else 0) ≤ (if r.2.error then 1 else 0) :=
            Grows.le (scanRegExp_grows (f := fun l => if l.error then 1 else 0)
              (fun _ _ _ _ => rfl) _) hl
          have hclear : (if s.lexer.error then 0 else 1) ≤ (if r.2.error then 0 else 1) :=
            Grows.le (scanRegExp_grows (f := fun l => if l.error then 0 else 1)
              (fun _ _ _ _ => rfl) _) hl
          have herror : r.2.error = s.lexer.error := by
            revert hset hclear
            cases r.2.error <;> cases s.lexer.error <;> simp
          exact ⟨⟨hline, fun hs => herror.trans hs⟩, Or.inr herror⟩
  | crash e => cases h
  | setOffset offset => cases h; exact ⟨⟨le_rfl, id⟩, Or.inr rfl⟩
  | setError => cases h; exact ⟨⟨le_rfl, id⟩, Or.inr rfl⟩
  | token => cases h; exact ⟨.refl _, Or.inr rfl⟩
  | tokenCount => cases h; exact ⟨.refl _, Or.inr rfl⟩
  | prevTerminator => cases h; exact ⟨.refl _, Or.inr rfl⟩
  | syntaxAlreadyValidated => cases h; exact ⟨.refl _, Or.inr rfl⟩
  | hasError => cases h; exact ⟨.refl _, Or.inr rfl⟩
  | getRegs => cases h; exact ⟨.refl _, Or.inr rfl⟩
  | setRegs regs => cases h; exact ⟨⟨le_rfl, id⟩, Or.inr rfl⟩

/-- The flag of the lexer at the end of a parse. -/
theorem lexError_iff {tree : Option Node} {s' : ParserState}
    (h : runParser source = .done tree s') : s'.lexer.error = true ↔ LexError source := by
  constructor
  · intro hs'
    obtain ⟨o, t, a, t', hv, ho, ht, ht'⟩ :=
      visits_of_broken (M := parser) (I := fun s : ParserState => s.lexer.error = false)
        (callDepth source) .createSyntaxTree (initialState source) s' tree h rfl (by simp [hs'])
    rcases (step_marks o t a t' ho).2 with ⟨lexType, rfl⟩ | heq
    · exact ⟨lexType, t, t', hv, ho, by simpa using ht'⟩
    · exact absurd (heq.trans ht) ht'
  · rintro ⟨lexType, t, t', hv, hn, ht'⟩
    have hstep : parser.step (.next lexType) t = .ok ((), t') := hn
    exact (visits_relates Marks.refl Marks.trans
      (fun o s a s' h => (step_marks o s a s' h).1) hv hstep h).2.error ht'

/-! ### Invalid tokens -/

/-- A command leaves the lexer inside of the source. -/
theorem step_bounded {o : ParserOp} {s s' : ParserState} {a : o.Res}
    (h : parserStep o s = .ok (a, s')) (hs : s.lexer.Bounded source) :
    s'.lexer.Bounded source := by
  have hcall : ∀ (call : LexerCall) (l : Lexer), call.runAsserted s.lexer = .ok ((), l) →
      l.Bounded source := by
    intro call l hrun
    obtain ⟨_, l', hrun', hl'⟩ := run_succeeds call hs
    rcases runAsserted_cases call s.lexer with heq | heq | heq
    · rw [hrun, hrun'] at heq
      cases heq
      exact hl'
    · rw [hrun] at heq; cases heq
    · rw [hrun] at heq; cases heq
  cases o with
  | next lexType =>
      have hn : s.Next lexType s' := h
      have hlex : lex lexType s.token s.lexer = .ok (s'.token, s'.lexer) := hn.eq.1
      refine hcall (.lex lexType s.token) _ ?_
      show Except.bind (lex lexType s.token s.lexer) _ = _
      rw [hlex]
      rfl
  | scanRegExp patternPrefix =>
      simp only [parserStep] at h
      cases hl : Lexer.scanRegExp patternPrefix s.lexer with
      | error e => rw [hl] at h; cases h
      | ok r =>
          rw [hl] at h
          cases h
          refine hcall (.scanRegExp patternPrefix) _ ?_
          show Except.bind (Lexer.scanRegExp patternPrefix s.lexer) _ = _
          rw [hl]
          rfl
  | setOffset offset =>
      cases h
      refine ⟨hs.codeStart, ?_, rfl, codeUnit_eq_neg_one⟩
      rw [← hs.codeStart]
      exact List.drop_suffix _ _
  | crash e => cases h
  | setError | token | tokenCount | prevTerminator | syntaxAlreadyValidated | hasError | getRegs
  | setRegs => cases h; exact hs

/-- A parse calls `lex` between two tokens only, or stops at its assertion. -/
theorem next_idle {tree : Option Node} {s' t t' : ParserState} {lexType : LexType}
    (h : runParser source = .done tree s') (hv : Occurs source (.op (.next lexType)) t)
    (hn : t.Next lexType t') : t.lexer.Idle := by
  have hstep : parser.step (.next lexType) t = .ok ((), t') := hn
  have hbounded : t.lexer.Bounded source :=
    (visits_relates (R := fun s s' => s.lexer.Bounded source → s'.lexer.Bounded source)
      (fun _ => id) (fun _ _ _ h₁ h₂ => h₂ ∘ h₁) (fun _ _ _ _ h => step_bounded h)
      hv hstep h).1 (setCode_bounded source)
  refine Lexer.idle_of_not_stuck hbounded.current fun hstuck => ?_
  rw [ParserState.Next, t.next_stuck lexType hstuck] at hn
  cases hn

/-- **Which invalid tokens leave through `returnError`**: every one that is no identifier.  An
identifier is invalid because of an escape in it, and does not set the flag. -/
theorem invalid_token {tree : Option Node} {s' t t' : ParserState} {lexType : LexType}
    (h : runParser source = .done tree s') (hv : Occurs source (.op (.next lexType)) t)
    (hn : t.Next lexType t') (ht : t'.token.type = .errorTok) :
    Invalid lexType t.lexer t'.lexer :=
  lex_invalid (next_idle h hv hn) hn.eq.1 ht

/-! ### The report -/

/-- The line of a report. -/
theorem line_pos {tree : Option Node} {s' : ParserState}
    (h : runParser source = .done tree s') : 1 ≤ s'.lexer.lineNumber := by
  have hmarks : Marks (initialState source) s' :=
    run_relates (M := parser) Marks.refl Marks.trans
      (fun o s a s' h => (step_marks o s a s' h).1) (callDepth source) .createSyntaxTree h
  exact hmarks.line

/-- A tree is returned only where the lexer has come upon nothing invalid. -/
theorem not_error_of_tree {tree : Node} {s' : ParserState}
    (h : runParser source = .done (some tree) s') : s'.lexer.error = false := by
  obtain ⟨-, -, -, hends⟩ := createSyntaxTree_parsed h
  have hpost : Post Production.createSyntaxTree (initialState source) (some tree) s' :=
    Returns.post safety_neverDead parser_safe.correct (initialState_pre source) ⟨_, h⟩
  refine (hpost.kept.sound.idle fun htoken => ?_).error
  rw [htoken] at hends
  cases hends

theorem createSyntaxTree_run {tree : Option Node} {report : ErrorReport}
    (h : Parser.createSyntaxTree source = some (tree, report)) :
    ∃ s', runParser source = .done tree s' ∧ report = s'.lexer.report := by
  unfold Parser.createSyntaxTree at h
  cases hrun : runParser source with
  | fault e => rw [hrun] at h; cases h
  | timeout => rw [hrun] at h; cases h
  | done r s' =>
      rw [hrun] at h
      cases h
      exact ⟨s', rfl, rfl⟩

/-- **A failure is reported exactly if the lexer has seen it**: the report agrees with the
result in a parse in which nothing fails, and in one in which a call of `lex` leaves through
`returnError`, and in no other. -/
theorem report_agrees_iff {tree : Option Node} {report : ErrorReport}
    (h : Parser.createSyntaxTree source = some (tree, report)) :
    ReportAgrees tree report ↔
      (∀ t, ¬ Occurs source (.op .setError) t) ∨ LexError source := by
  obtain ⟨s', hrun, rfl⟩ := createSyntaxTree_run h
  have hfailed : tree = none ↔ ∃ t, Occurs source (.op .setError) t :=
    createSyntaxTree_none_iff_failed hrun
  have hline := line_pos hrun
  rw [← not_exists, ← hfailed, ← lexError_iff hrun]
  unfold Lexer.report
  cases herror : s'.lexer.error with
  | true =>
      have hnone : tree = none := by
        cases tree with
        | none => rfl
        | some tree =>
            rw [not_error_of_tree hrun] at herror
            cases herror
      refine ⟨fun _ => Or.inr rfl, fun _ => ⟨⟨fun _ => ⟨?_, by simp⟩, fun _ => hnone⟩, ?_⟩⟩
      · simpa using hline
      · exact fun hne => absurd hnone hne
  | false =>
      simp only [Bool.false_eq_true, if_false, or_false]
      constructor
      · rintro ⟨hnull, -⟩ hnone
        have hpos : (1 : Int) ≤ -1 := (hnull.mp hnone).1
        omega
      · refine fun hsome => ⟨⟨fun hnone => absurd hnone hsome, fun ⟨hpos, _⟩ => ?_⟩,
          fun _ => ⟨rfl, rfl⟩⟩
        change (1 : Int) ≤ -1 at hpos
        omega

/-! ### By the grammar -/

/-- A program of the grammar has its tree, and no error is reported. -/
theorem createSyntaxTree_derived {body : Phrase .stmts} {stop : Stream}
    (h : Derived source body stop) : Parser.createSyntaxTree source =
      some (some (Builder.createSourceElements.appendAll body.build), ⟨-1, ""⟩) := by
  obtain ⟨_, s', hreturns, rfl, -⟩ := h.answers
  have hrun := runParser_of_returns hreturns
  have herror := not_error_of_tree hrun
  simp [Parser.createSyntaxTree, hrun, Lexer.report, herror]

/-- Where the grammar has no program for the source, the report agrees with the result exactly
if the lexer has seen something invalid. -/
theorem report_agrees_iff_of_unread {tree : Option Node} {report : ErrorReport}
    (h : Parser.createSyntaxTree source = some (tree, report))
    (hunread : ∀ body start stop, Accepted source body start stop → ¬ body.Legal true) :
    ReportAgrees tree report ↔ LexError source := by
  refine (report_agrees_iff h).trans (or_iff_right fun hnever => ?_)
  obtain ⟨s', hrun, -⟩ := createSyntaxTree_run h
  cases tree with
  | none =>
      obtain ⟨t, hv⟩ := (createSyntaxTree_none_iff_failed hrun).mp rfl
      exact hnever t hv
  | some tree =>
      obtain ⟨s₁, hnext, ⟨body, -, hread, hlegal⟩, hends⟩ := createSyntaxTree_parsed hrun
      exact hunread body _ _ ⟨hnext.eq.1, hread.reads, hends⟩ hlegal

end Flags

/-! ## Two sources -/

/-- Whether the source has no tree, and a certain report. -/
def rejectedWith [Platform] (source : List UChar) (report : ErrorReport) : Bool :=
  match Parser.createSyntaxTree source with
  | some (none, r) => r = report
  | _ => false

theorem createSyntaxTree_of_rejectedWith [Platform] {source : List UChar} {report : ErrorReport}
    (h : rejectedWith source report = true) :
    Parser.createSyntaxTree source = some (none, report) := by
  unfold rejectedWith at h
  split at h
  · rename_i hr
    rw [hr, of_decide_eq_true h]
  · cases h

/-- A source with a character on its second line that no token starts with. -/
def strayCharacterSource : List UChar := identifierOfChars ['a', '\n', '#']

/-- The lexer sees the failure. -/
theorem report_agrees_line_two :
    letI : Platform := exactPlatform
    Parser.createSyntaxTree strayCharacterSource = some (none, ⟨2, "Parse error"⟩) ∧
      (ReportAgrees none ⟨2, "Parse error"⟩ ↔
        (∀ t, ¬ Occurs strayCharacterSource (.op .setError) t) ∨
          LexError strayCharacterSource) := by
  let _ : Platform := exactPlatform
  have hrun : rejectedWith strayCharacterSource ⟨2, "Parse error"⟩ = true := by decide +kernel
  exact ⟨createSyntaxTree_of_rejectedWith hrun,
    report_agrees_iff (createSyntaxTree_of_rejectedWith hrun)⟩

/-- Of `(` there is no tree, and no report. -/
theorem report_agrees_unclosed :
    letI : Platform := exactPlatform
    ∃ tree report, Parser.createSyntaxTree (identifierOfChars ['(']) = some (tree, report) ∧
      ¬ ReportAgrees tree report := by
  let _ : Platform := exactPlatform
  have hrun : rejectedWith (identifierOfChars ['(']) ⟨-1, ""⟩ = true := by decide +kernel
  refine ⟨none, ⟨-1, ""⟩, createSyntaxTree_of_rejectedWith hrun, fun h => ?_⟩
  have hpos : (1 : Int) ≤ -1 := (h.null.mp rfl).1
  omega

end HammerJS
