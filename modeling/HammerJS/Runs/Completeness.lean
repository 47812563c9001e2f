import HammerJS.Reflect.Exact
import HammerJS.Syntax.Accepted
import HammerJS.Syntax.Conversion

/-!
# Programs that are accepted

`reflectParse_tree` says what `Reflect.parse` has read when it returns a tree.  The converse:
what the grammar derives is accepted, and what comes of it is decided by the tokens.

* `reflectParse_program` — `Reflect.parse` returns the value of every program of the grammar.
* `programs_agree` — two derivations of the same source have the same tree.
-/

namespace HammerJS

open Procs Machine Lexer Parse

variable [Platform]

/-! ## Programs -/

/-- A call that returns does so within the depth that the parser allows. -/
theorem runParser_of_returns {source : List UChar} {r : Option Node} {s' : ParserState}
    (h : parser.Returns .createSyntaxTree (initialState source) r s') :
    runParser source = .done r s' := by
  obtain ⟨n, hn⟩ := h
  have hends := runParser_ends source
  unfold runParser at hends ⊢
  rw [← hn]
  refine parser.run_agree ?_ (by simp [hn])
  intro htimeout
  rw [htimeout] at hends
  exact hends

/-- The program stands in the source, behind the first `next()`. -/
structure Derived (source : List UChar) (body : Phrase .stmts) (stop : Stream) : Prop where
  legal : body.Legal true
  spans : ∃ start, (initialState source).stream.Next .identifyReservedWords start ∧
    body.Spans start stop

theorem Derived.answers {source : List UChar} {body : Phrase .stmts} {stop : Stream}
    (h : Derived source body stop) :
    parser.Answers .createSyntaxTree (initialState source) fun tree s' =>
      tree = Builder.createSourceElements.appendAll body.build ∧ s'.stream = stop := by
  obtain ⟨start, hn, hspans⟩ := h.spans
  refine answers_production.mpr (accepts_next (next_of_stream hn) (accepts_last.mpr ?_))
  have hbody : body.TakenAsStatements := body.taken
  refine (hbody.sourceElements hspans rfl rfl h.legal rfl).mono ?_
  rintro _ s' ⟨rfl, h'⟩
  exact ⟨rfl, h'.stream⟩

/-- **Every program of the grammar is accepted**, and the tree is the one of its statements. -/
theorem reflectParse_program {source : List UChar} {body : Phrase .stmts} {stop : Stream}
    (h : Derived source body stop) : reflectParse source = .tree (programValue body.value) := by
  obtain ⟨_, s', hreturns, rfl, -⟩ := h.answers
  unfold reflectParse
  rw [runParser_of_returns hreturns]
  exact convertOutcome_program body s'

/-- **The grammar is not ambiguous**: however the same source is derived, it is derived up to
the same token, and the tree is the same. -/
theorem programs_agree {source : List UChar} {body body' : Phrase .stmts} {stop stop' : Stream}
    (h : Derived source body stop) (h' : Derived source body' stop') :
    body.build = body'.build ∧ stop = stop' := by
  obtain ⟨tree, s, hreturns, htree, hstop⟩ := h.answers
  obtain ⟨tree', s', hreturns', htree', hstop'⟩ := h'.answers
  obtain ⟨heq, rfl⟩ := Machine.Returns.unique parser hreturns hreturns'
  have htrees : tree = tree' := Option.some_inj.mp heq
  rw [htree, htree'] at htrees
  have hnodes : body.build.map some = body'.build.map some := congrArg Node.children htrees
  exact ⟨(List.map_inj_right fun _ _ => Option.some_inj.mp).mp hnodes, hstop.symm.trans hstop'⟩

/-! ## A source -/

/-- The stream behind the current token. -/
def Stream.rest (a : Stream) : Stream :=
  match Lexer.lex .identifyReservedWords a.token a.lexer with
  | .ok (token, lexer) => ⟨lexer, token⟩
  | .error _ => a

/-- The current token can be read on from. -/
def Stream.readable (a : Stream) : Bool :=
  (Lexer.lex .identifyReservedWords a.token a.lexer).isOk

theorem Stream.next_rest {a : Stream} (h : a.readable = true) :
    a.Next .identifyReservedWords a.rest := by
  unfold Stream.readable at h
  unfold Stream.Next Stream.rest
  cases hlex : Lexer.lex .identifyReservedWords a.token a.lexer with
  | error e => rw [hlex] at h; cases h
  | ok r => rfl

/-- The stream before the first token of a source. -/
def Stream.before (source : List UChar) : Stream := (initialState source).stream

omit [Platform] in
/-- The source `a;` is derived. -/
theorem derived_name :
    @Derived exactPlatform (identifierOfChars "a;".toList)
      (.moreStmts (.exprStmt (.resolve (identifierOfChars ['a'])) true) .noStmts)
      (@Stream.rest exactPlatform (@Stream.rest exactPlatform (@Stream.rest exactPlatform
        (Stream.before (identifierOfChars "a;".toList))))) := by
  let _ : Platform := exactPlatform
  let start := (Stream.before (identifierOfChars "a;".toList)).rest
  have h₀ : (Stream.before (identifierOfChars "a;".toList)).readable = true := by decide +kernel
  have h₁ : start.readable = true := by decide +kernel
  have h₂ : start.rest.readable = true := by decide +kernel
  have hname : start.token.type = .ident := by decide +kernel
  have htext : start.token.data.getIdent = identifierOfChars ['a'] := by decide +kernel
  have hsemi : start.rest.token.type = .semicolon := by decide +kernel
  have hends : endsStatements start.rest.rest.token.type = true := by decide +kernel
  have hne : start.token.type ≠ .openBrace ∧ start.token.type ≠ .function := by
    rw [hname]
    decide
  refine ⟨⟨trivial, trivial⟩, start, Stream.next_rest h₀, ?_⟩
  refine .intro (.sub (.intro (.sub (.intro (.token ⟨hname, htext, Stream.next_rest h₁⟩ .nil)
    trivial) (.token ⟨hsemi, Stream.next_rest h₂⟩ .nil)) ⟨hne, nofun, nofun⟩)
    (.sub (.intro .nil hends) .nil)) trivial

omit [Platform] in
/-- The source `a;`. -/
theorem reflectParse_program_name :
    @reflectParse exactPlatform (identifierOfChars "a;".toList) =
      .tree (programValue [.object .expressionStatement
        [(.expression, identifierObject (identifierOfChars ['a']))]]) := by
  let _ : Platform := exactPlatform
  exact reflectParse_program derived_name

end HammerJS
