import HammerJS.Reflect.Exact
import HammerJS.Reflect.Outcomes
import HammerJS.Runs.Assignments
import HammerJS.Runs.Termination

/-!
# The headers of `for` statements

What `parseForStatement` accepts between `for` and the statement.

* `ReadsExpression`, `ReadsDeclarations` — what the productions called for a header read.
* `ForHeader` — the headers of ES5.
* `SkipsToken` — two declarations or more, and behind them a token other than a semicolon.
* `forHeader_iff` — a header that is accepted is one of ES5, unless such a token was skipped.
-/

namespace HammerJS

open Procs Machine Parse

variable [Platform]

/-! ## Headers -/

/-- The current token is `t`, and behind it is what `s'` reads on with. -/
structure ParserState.Takes (t : JSTokenType) (s s' : ParserState) : Prop where
  type : s.token.type = t
  next : s.Next .identifyReservedWords s'

/-- With `m_allowsIn` set to `b`. -/
def ParserState.allowingIn (b : Bool) (s : ParserState) : ParserState :=
  { s with regs := { s.regs with allowsIn := b } }

/-- From `s` to `s'`, `parseExpression` reads the expression `e`; `in` is an operator of it,
outside of brackets, only if `allowsIn`. -/
structure ReadsExpression (allowsIn : Bool) (s : ParserState) (e : Phrase .expr)
    (s' : ParserState) : Prop where
  returns : ∃ t, parser.Returns .expression (s.allowingIn allowsIn) (some e.build) t ∧
    s' = t.allowingIn true
  reads : Reads e.lexemes s.stream s'.stream
  legal : e.Legal allowsIn

/-- An expression, unless the token `behind` stands there already. -/
inductive ReadsOptional (allowsIn : Bool) (behind : JSTokenType) (s : ParserState) :
    ParserState → Prop
  | absent (h : s.token.type = behind) : ReadsOptional allowsIn behind s s
  | present {e : Phrase .expr} {s' : ParserState} (h : s.token.type ≠ behind)
      (he : ReadsExpression allowsIn s e s') : ReadsOptional allowsIn behind s s'

/-- From `s` to `s'`, `var` and its declarations are read: the first, and those in `rest`. -/
structure ReadsDeclarations (s : ParserState) (name : Identifier) (init : Phrase .init)
    (rest : Phrase .decls) (s' : ParserState) : Prop where
  type : s.token.type = .var
  returns : ∃ decls t, parser.Returns .varDeclarationList (s.allowingIn false) (some decls) t ∧
    decls.declarations = 1 + (rest.build : List Node).length ∧ t.error = false ∧
      s' = t.allowingIn true
  reads : Reads (.mark .var :: .ident name :: init.lexemes ++ rest.lexemes) s.stream s'.stream
  legal : init.Legal false ∧ rest.Legal false

/-- `for (`. -/
def ForStart (s s' : ParserState) : Prop := ∃ t, s.Takes .for t ∧ t.Takes .openParen s'

/-- `; test? ; update? )`. -/
def ForClauses (s s' : ParserState) : Prop :=
  ∃ s₁ s₂ s₃ s₄, s.Takes .semicolon s₁ ∧ ReadsOptional true .semicolon s₁ s₂ ∧
    s₂.Takes .semicolon s₃ ∧ ReadsOptional true .closeParen s₃ s₄ ∧ s₄.Takes .closeParen s'

/-- `in e )`. -/
def ForInClause (s s' : ParserState) : Prop :=
  ∃ s₁ e s₂, s.Takes .inToken s₁ ∧ ReadsExpression true s₁ e s₂ ∧ s₂.Takes .closeParen s'

/-- From `s`, at `for`, to `s'`, at the statement: one of the headers of ES5. -/
inductive ForHeader (s s' : ParserState) : Prop
  /-- `for (init?; test?; update?)`. -/
  | standard {t u : ParserState} (start : ForStart s t) (type : t.token.type ≠ .var)
      (init : ReadsOptional false .semicolon t u) (clauses : ForClauses u s')
  /-- `for (var id init?, ...; test?; update?)`. -/
  | declarations {t u : ParserState} {name : Identifier} {init : Phrase .init}
      {rest : Phrase .decls} (start : ForStart s t) (decls : ReadsDeclarations t name init rest u)
      (clauses : ForClauses u s')
  /-- `for (LHS in e)`. -/
  | forIn {t u : ParserState} {left : Phrase .expr} (start : ForStart s t)
      (type : t.token.type ≠ .var) (target : ReadsExpression false t left u)
      (leftHandSide : left.LeftHandSide) (clause : ForInClause u s')
  /-- `for (var id init? in e)`. -/
  | forInVar {t u : ParserState} {name : Identifier} {init : Phrase .init} (start : ForStart s t)
      (decls : ReadsDeclarations t name init .noDecls u) (clause : ForInClause u s')

/-- The header declares two variables at least, and another token than a semicolon follows. -/
def SkipsToken (s : ParserState) : Prop :=
  ∃ t name init rest u, ForStart s t ∧ ReadsDeclarations t name init rest u ∧ rest ≠ .noDecls ∧
    u.token.type ≠ .semicolon

/-! ## What is skipped is no header -/

section Unique

variable {s t t' u u' : ParserState}

theorem ParserState.Takes.unique {a b : JSTokenType} (h : s.Takes a t) (h' : s.Takes b t') :
    t = t' := by
  have hn : parserStep (.next .identifyReservedWords) s = .ok ((), t) := h.next
  have hn' : parserStep (.next .identifyReservedWords) s = .ok ((), t') := h'.next
  cases hn.symm.trans hn'
  rfl

theorem ForStart.unique (h : ForStart s t) (h' : ForStart s t') : t = t' := by
  obtain ⟨m, hfor, hparen⟩ := h
  obtain ⟨m', hfor', hparen'⟩ := h'
  obtain rfl := hfor.unique hfor'
  exact hparen.unique hparen'

theorem ReadsDeclarations.unique {name name' : Identifier} {init init' : Phrase .init}
    {rest rest' : Phrase .decls} (h : ReadsDeclarations s name init rest u)
    (h' : ReadsDeclarations s name' init' rest' u') :
    u = u' ∧ (rest.build : List Node).length = (rest'.build : List Node).length := by
  obtain ⟨decls, t, hreturns, hcount, -, rfl⟩ := h.returns
  obtain ⟨decls', t', hreturns', hcount', -, rfl⟩ := h'.returns
  obtain ⟨hdecls, rfl⟩ := Returns.unique parser hreturns hreturns'
  cases hdecls
  exact ⟨rfl, by omega⟩

/-- A header that skips a token is none of ES5. -/
theorem SkipsToken.not_forHeader (h : SkipsToken s) : ¬ ForHeader s u := by
  obtain ⟨t, name, init, rest, v, hstart, hdecls, hrest, htype⟩ := h
  intro hheader
  cases hheader with
  | standard start type init clauses =>
      obtain rfl := hstart.unique start
      exact type hdecls.type
  | forIn start type target leftHandSide clause =>
      obtain rfl := hstart.unique start
      exact type hdecls.type
  | declarations start decls clauses =>
      obtain rfl := hstart.unique start
      obtain ⟨rfl, -⟩ := hdecls.unique decls
      obtain ⟨_, _, _, _, hsemicolon, -⟩ := clauses
      exact htype hsemicolon.type
  | forInVar start decls clause =>
      obtain rfl := hstart.unique start
      obtain ⟨-, hlength⟩ := hdecls.unique decls
      cases rest with
      | noDecls => exact hrest rfl
      | moreDecls name init rest => cases hlength

end Unique

/-! ## What is accepted -/

section Accepted

variable {s s' t : ParserState} {β : Type} {b : β}

/-- No part of the code of a production clears `m_error`. -/
theorem Gives.error {x : Parse β} (h : Gives parser.Returns x s b s') (herror : s'.error = false) :
    s.error = false := by
  have hkept : ErrorKept s s' := Reaches.relates ErrorKept.refl ErrorKept.trans step_errorKept
    (fun p s r s' ⟨n, hn⟩ => run_relates (M := parser) ErrorKept.refl ErrorKept.trans
      step_errorKept n p hn) h
  cases hs : s.error with
  | false => rfl
  | true =>
      rw [hkept hs] at herror
      cases herror

/-- Between two parts of a header. -/
structure Settled (s : ParserState) : Prop where
  sound : Sound s
  allowsIn : s.regs.allowsIn = true

theorem Settled.next (h : Settled s) {lexType : Lexer.LexType} (hn : s.Next lexType s') : Settled s' :=
  ⟨(h.sound.next (h.sound.idle_of_next hn) hn).1, hn.regs_error.1 ▸ h.allowsIn⟩

omit [Platform] in
theorem Settled.allowingIn (h : Settled s) : s.allowingIn true = s := by
  unfold ParserState.allowingIn
  rw [← h.allowsIn]

omit [Platform] in
theorem Sound.allowingIn (h : Sound s) (b : Bool) : Sound (s.allowingIn b) :=
  ⟨h.valid, h.idle, h.unary, h.operators⟩

/-- What `parseExpression` reads where it does not fail, and whether it counts. -/
theorem Settled.expression (h : Settled s) {allowsIn : Bool} {node : Node}
    (hr : parser.Returns .expression (s.allowingIn allowsIn) (some node) t)
    (herror : t.error = false) : ∃ e : Phrase .expr, node = e.build ∧
      ReadsExpression allowsIn s e (t.allowingIn true) ∧ Settled (t.allowingIn true) ∧
        (t.regs.nonLHSCount = s.regs.nonLHSCount ↔ e.Calm) := by
  have hpre : Pre Production.expression (s.allowingIn allowsIn) :=
    ⟨h.sound.allowingIn allowsIn, nofun, trivial⟩
  have hstarts : Production.expression.Starts (s.allowingIn allowsIn) ∧
      Pre Production.expression (s.allowingIn allowsIn) := ⟨trivial, hpre⟩
  obtain ⟨e, rfl, hread, hlegal, -⟩ := grammar_post hstarts (returnsWithout_of_error hr herror)
  have hpost : Post Production.expression (s.allowingIn allowsIn) (some e.build) t :=
    Returns.post safety_neverDead parser_safe.correct hpre hr
  exact ⟨e, rfl, ⟨⟨t, hr, rfl⟩, hread.reads, hlegal⟩, ⟨hpost.kept.sound.allowingIn true, rfl⟩,
    hread.eq_iff⟩

theorem Settled.expression_in (h : Settled s) {node : Node}
    (hr : parser.Returns .expression s (some node) t) (herror : t.error = false) :
    ∃ e : Phrase .expr, ReadsExpression true s e t ∧ Settled t := by
  have hr' : parser.Returns .expression (s.allowingIn true) (some node) t := by
    rw [h.allowingIn]
    exact hr
  obtain ⟨e, -, hreads, hsettled, -⟩ := h.expression hr' herror
  have hpost : Post Production.expression s (some node) t :=
    Returns.post safety_neverDead parser_safe.correct ⟨h.sound, nofun, trivial⟩ hr
  have ht : Settled t := ⟨hpost.kept.sound, hpost.kept.allowsIn.trans h.allowsIn⟩
  rw [ht.allowingIn] at hreads
  exact ⟨e, hreads, ht⟩

/-- What `parseVarDeclarationList` reads where it does not fail. -/
theorem Settled.declarations (h : Settled s) (htype : s.token.type = .var)
    {decls : VarDeclarations}
    (hr : parser.Returns .varDeclarationList (s.allowingIn false) (some decls) t)
    (herror : t.error = false) : ∃ name init rest,
      ReadsDeclarations s name init rest (t.allowingIn true) ∧ Settled (t.allowingIn true) ∧
        decls.declarations = 1 + (rest.build : List Node).length := by
  have hreal : (s.allowingIn false).token.type.isReal = true := by
    show s.token.type.isReal = true
    rw [htype]
    rfl
  have hpre : Pre Production.varDeclarationList (s.allowingIn false) :=
    ⟨h.sound.allowingIn false, nofun, hreal⟩
  have hstarts : Production.varDeclarationList.Starts (s.allowingIn false) ∧
      Pre Production.varDeclarationList (s.allowingIn false) := ⟨trivial, hpre⟩
  obtain ⟨name, init, rest, -, hcount, -, hread, hinit, hrest⟩ :=
    grammar_post hstarts (returnsWithout_of_error hr herror)
  have hpost : Post Production.varDeclarationList (s.allowingIn false) (some decls) t :=
    Returns.post safety_neverDead parser_safe.correct hpre hr
  have hreads := hread.reads
  rw [show (s.allowingIn false).token.type = .var from htype] at hreads
  rw [Nat.zero_add] at hcount
  exact ⟨name, init, rest, ⟨htype, ⟨decls, t, hr, hcount, herror, rfl⟩, hreads, hinit, hrest⟩,
    ⟨hpost.kept.sound.allowingIn true, rfl⟩, hcount⟩

/-- The code in front of an optional expression. -/
theorem Settled.optional (h : Settled s) {behind : JSTokenType} {f : Option Node → Parse β}
    (hg : Gives parser.Returns (parseExpressionUnless behind >>= f) s b s')
    (herror : s'.error = false) : ∃ r u, ReadsOptional true behind s u ∧ Settled u ∧
      Gives parser.Returns (f r) u b s' := by
  obtain ⟨r, u, hx, hf⟩ := gives_bind.mp hg
  replace hx := gives_ifToken.mp hx
  by_cases ht : s.token.type = behind
  · rw [if_pos ht] at hx
    obtain ⟨rfl, rfl⟩ := gives_pure.mp hx
    exact ⟨none, u, .absent ht, h, hf⟩
  · rw [if_neg ht] at hx
    obtain ⟨_, v, hr, hx⟩ := gives_parse.mp hx
    obtain ⟨node, rfl, hx⟩ := gives_failIfNull.mp hx
    obtain ⟨rfl, rfl⟩ := gives_pure.mp hx
    obtain ⟨e, hreads, hu⟩ := h.expression_in hr (hf.error herror)
    exact ⟨some node, u, .present ht hreads, hu, hf⟩

/-- The code at the label `standardForLoop`, at a semicolon. -/
theorem Settled.clauses (h : Settled s) (htype : s.token.type = .semicolon)
    {decls : Option Node} {node : Node}
    (hg : Gives parser.Returns (parseStandardForLoop decls) s node s')
    (herror : s'.error = false) :
    ∃ m body, ForClauses s m ∧ parser.Returns .statement m (some body) s' := by
  unfold parseStandardForLoop at hg
  obtain ⟨s₁, hn₁, hg⟩ := gives_next.mp hg
  obtain ⟨_, s₂, htest, hs₂, hg⟩ := (h.next hn₁).optional hg herror
  obtain ⟨ht₂, s₃, hn₃, hg⟩ := gives_consumeOrFail.mp hg
  obtain ⟨_, s₄, hupdate, hs₄, hg⟩ := (hs₂.next hn₃).optional hg herror
  obtain ⟨ht₄, s₅, hn₅, hg⟩ := gives_consumeOrFail.mp hg
  obtain ⟨_, s₆, hbody, hg⟩ := gives_parse.mp hg
  obtain ⟨body, rfl, hg⟩ := gives_failIfNull.mp hg
  obtain ⟨-, rfl⟩ := gives_pure.mp hg
  exact ⟨s₅, body, ⟨s₁, s₂, s₃, s₄, ⟨htype, hn₁⟩, htest, ⟨ht₂, hn₃⟩, hupdate, ht₄, hn₅⟩, hbody⟩

/-- The code behind the target of a `for`-`in` statement, once the `in` is read. -/
theorem Settled.inClause (h : Settled s) {f : Node → Node → Parse Node} {node : Node}
    (hg : Gives parser.Returns (do
      let expr ← failIfNull (← parse .expression)
      consumeOrFail .closeParen
      let statement ← failIfNull (← parse .statement)
      f expr statement) s node s')
    (herror : s'.error = false) : ∃ e u m body, ReadsExpression true s e u ∧
      u.Takes .closeParen m ∧ ∃ v expr, parser.Returns .statement m (some body) v ∧
        Gives parser.Returns (f expr body) v node s' := by
  obtain ⟨_, s₁, hexpr, hg⟩ := gives_parse.mp hg
  obtain ⟨expr, rfl, hg⟩ := gives_failIfNull.mp hg
  obtain ⟨e, hreads, -⟩ := h.expression_in hexpr (hg.error herror)
  obtain ⟨ht₁, s₂, hn₂, hg⟩ := gives_consumeOrFail.mp hg
  obtain ⟨_, s₃, hbody, hg⟩ := gives_parse.mp hg
  obtain ⟨body, rfl, hg⟩ := gives_failIfNull.mp hg
  exact ⟨e, s₁, s₂, body, hreads, ⟨ht₁, hn₂⟩, s₃, expr, hbody, hg⟩

/-- The code of a header that starts with `var`. -/
theorem Settled.forVar (h : Settled t) (hstart : ForStart s t) (htype : t.token.type = .var)
    {node : Node} (hg : Gives parser.Returns parseForVar t node s') (herror : s'.error = false) :
    (∃ m body, ForHeader s m ∧ parser.Returns .statement m (some body) s') ∨ SkipsToken s := by
  unfold parseForVar at hg
  obtain ⟨_, u, hdecls, hg⟩ := gives_parse.mp (gives_setAllowsIn.mp hg)
  replace hg := gives_hasError.mp (gives_setAllowsIn.mp hg)
  by_cases hu : u.error = true
  · rw [if_pos hu] at hg
    exact absurd hg gives_fail
  rw [if_neg hu] at hg
  obtain ⟨decls, rfl, hg⟩ := gives_orReturnNull.mp hg
  obtain ⟨name, init, rest, hreads, hsettled, hcount⟩ :=
    h.declarations htype hdecls (Bool.eq_false_of_not_eq_true hu)
  replace hg : Gives parser.Returns _ (u.allowingIn true) node s' := gives_isToken.mp hg
  by_cases hstandard : 1 < decls.declarations ∨
      decide ((u.allowingIn true).token.type = .semicolon) = true
  · rw [if_pos hstandard] at hg
    by_cases hsemicolon : (u.allowingIn true).token.type = .semicolon
    · obtain ⟨m, body, hclauses, hbody⟩ := hsettled.clauses hsemicolon hg herror
      exact Or.inl ⟨m, body, .declarations hstart hreads hclauses, hbody⟩
    · -- the token is skipped: there is more than one declaration
      refine Or.inr ⟨t, name, init, rest, _, hstart, hreads, ?_, hsemicolon⟩
      rintro rfl
      have hmany : 1 < decls.declarations := by simpa [hsemicolon] using hstandard
      rw [hcount] at hmany
      exact absurd hmany (by simp [Phrase.build])
  · rw [if_neg hstandard] at hg
    obtain ⟨hin, v, hn, hg⟩ := gives_consume.mp hg
    obtain ⟨e, w, m, body, hright, hparen, x, expr, hbody, hg⟩ :=
      (hsettled.next hn).inClause hg herror
    obtain ⟨-, rfl⟩ := gives_pure.mp hg
    have hone : (rest.build : List Node).length = 0 := by
      have hfew : ¬ 1 < decls.declarations := fun hmany => hstandard (Or.inl hmany)
      omega
    obtain rfl : rest = .noDecls := by
      cases rest with
      | noDecls => rfl
      | moreDecls name init rest => cases hone
    exact Or.inl ⟨m, body, .forInVar hstart hreads ⟨v, e, w, ⟨hin, hn⟩, hright, hparen⟩, hbody⟩

/-- The init part of a header that does not start with `var`. -/
theorem Settled.forInit (h : Settled t) {f : Option Node → Parse β}
    (hg : Gives parser.Returns (parseForInit >>= f) t b s') (herror : s'.error = false) :
    ∃ r u, Settled u ∧ Gives parser.Returns (f r) u b s' ∧
      (t.token.type = .semicolon ∧ u = t ∨ t.token.type ≠ .semicolon ∧ ∃ e : Phrase .expr,
        ReadsExpression false t e u ∧ (u.regs.nonLHSCount = t.regs.nonLHSCount ↔ e.Calm)) := by
  obtain ⟨r, u, hx, hf⟩ := gives_bind.mp hg
  replace hx := gives_ifToken.mp hx
  by_cases ht : t.token.type = .semicolon
  · rw [if_pos ht] at hx
    obtain ⟨rfl, rfl⟩ := gives_pure.mp hx
    exact ⟨none, u, h, hf, Or.inl ⟨ht, rfl⟩⟩
  · rw [if_neg ht] at hx
    obtain ⟨_, v, hr, hx⟩ := gives_parse.mp (gives_setAllowsIn.mp hx)
    obtain ⟨node, rfl, hsome⟩ := gives_failIfNull.mp (gives_setAllowsIn.mp hx)
    obtain ⟨rfl, rfl⟩ := gives_pure.mp hsome
    have hv : v.error = false := hf.error herror
    obtain ⟨e, -, hreads, hsettled, hcalm⟩ := h.expression hr hv
    exact ⟨some node, _, hsettled, hf, Or.inr ⟨ht, e, hreads, hcalm⟩⟩

/-- **The two ways through a header.** -/
theorem forStatement_cases {node : Node} (hpre : Pre Production.forStatement s)
    (h : parser.Returns .forStatement s (some node) s') (herror : s'.error = false) :
    (∃ m body, ForHeader s m ∧ parser.Returns .statement m (some body) s') ∨ SkipsToken s := by
  replace h : Gives parser.Returns parseForStatement s node s' := parser_returns_iff.mp h
  unfold parseForStatement at h
  obtain ⟨hfor, h⟩ := gives_assertToken.mp h
  obtain ⟨s₁, hn₁, h⟩ := gives_next.mp h
  obtain ⟨hparen, t, hn₂, h⟩ := gives_consumeOrFail.mp h
  have hstart : ForStart s t := ⟨s₁, ⟨hfor, hn₁⟩, hparen, hn₂⟩
  have ht : Settled t := (Settled.next ⟨hpre.sound, hpre.allowsIn rfl⟩ hn₁).next hn₂
  replace h := gives_ifToken.mp (gives_nonLHSCount.mp h)
  by_cases hvar : t.token.type = .var
  · rw [if_pos hvar] at h
    exact ht.forVar hstart hvar h herror
  rw [if_neg hvar] at h
  refine Or.inl ?_
  obtain ⟨r, u, hu, h, hinit⟩ := ht.forInit h herror
  replace h := gives_ifToken.mp h
  by_cases hsemicolon : u.token.type = .semicolon
  · rw [if_pos hsemicolon] at h
    obtain ⟨m, body, hclauses, hbody⟩ := hu.clauses hsemicolon h herror
    refine ⟨m, body, .standard hstart hvar ?_ hclauses, hbody⟩
    rcases hinit with ⟨htype, rfl⟩ | ⟨htype, e, hreads, -⟩
    · exact .absent htype
    · exact .present htype hreads
  · rw [if_neg hsemicolon] at h
    obtain ⟨hcount, h⟩ := gives_failIfFalse.mp (gives_nonLHSCount.mp h)
    obtain ⟨hin, v, hn, h⟩ := gives_consumeOrFail.mp h
    obtain ⟨e, w, m, body, hright, hclose, x, expr, hbody, h⟩ := (hu.next hn).inClause h herror
    obtain ⟨_, -, h⟩ := gives_orReturnNull.mp h
    obtain ⟨-, rfl⟩ := gives_pure.mp h
    rcases hinit with ⟨htype, rfl⟩ | ⟨htype, left, hreads, hcalm⟩
    · exact absurd htype hsemicolon
    · have hleft : left.LeftHandSide := by
        have hquiet : left.Calm := hcalm.mp (of_decide_eq_true hcount).symm
        exact hreads.legal.leftHandSide hquiet.rank_ge
      exact ⟨m, body, .forIn hstart hvar hreads hleft ⟨v, e, w, ⟨hin, hn⟩, hright, hclose⟩, hbody⟩

/-- **Which headers are sound.**  A `for` statement that is accepted has one of the headers of
ES5 in front of its body, exactly if it is none that declares two variables or more without a
semicolon behind them. -/
theorem forHeader_iff {source : List UChar} {node : Node}
    (hs : Occurs source (.call .forStatement) s)
    (h : parser.Returns .forStatement s (some node) s') (herror : s'.error = false) :
    (∃ m body, ForHeader s m ∧ parser.Returns .statement m (some body) s') ↔ ¬ SkipsToken s := by
  constructor
  · rintro ⟨m, body, hheader, -⟩ hskips
    exact hskips.not_forHeader hheader
  · exact fun hskips => (forStatement_cases hs.pre h herror).resolve_right hskips

end Accepted

/-! ## Two sources -/

/-- The call of `parseForStatement` succeeds. -/
def acceptsFor (n : Nat) : Event parserInterface → ParserState → Bool
  | .call .forStatement, s => succeeded (parser.run n .forStatement s)
  | _, _ => false

theorem acceptsFor_iff {n : Nat} {ev : Event parserInterface} {s : ParserState}
    (h : acceptsFor n ev s = true) : ev = .call .forStatement ∧ ∃ node s',
      parser.Returns .forStatement s (some node) s' ∧ s'.error = false := by
  unfold acceptsFor at h
  split at h
  · refine ⟨rfl, ?_⟩
    cases hrun : parser.run n .forStatement _ with
    | done r s' =>
        rw [hrun] at h
        cases r with
        | none => cases h
        | some node => exact ⟨node, s', ⟨n, hrun⟩, by simpa [succeeded] using h⟩
    | fault e => rw [hrun] at h; cases h
    | timeout => rw [hrun] at h; cases h
  · cases h

omit [Platform] in
/-- The header of `for(var a in b);`. -/
theorem forHeader_iff_forIn : ∃ s node s',
    @Occurs exactPlatform (identifierOfChars "for(var a in b);".toList) (.call .forStatement) s ∧
    (@parser exactPlatform).Returns .forStatement s (some node) s' ∧ s'.error = false ∧
    ((∃ m body, @ForHeader exactPlatform s m ∧
      (@parser exactPlatform).Returns .statement m (some body) s') ↔
        ¬ @SkipsToken exactPlatform s) := by
  let _ : Platform := exactPlatform
  obtain ⟨ev, s, hv, h⟩ := parser.visits_of_any (acceptsFor 20)
    (callDepth (identifierOfChars "for(var a in b);".toList)) .createSyntaxTree
    (initialState (identifierOfChars "for(var a in b);".toList)) (by decide +kernel)
  obtain ⟨rfl, node, s', hreturns, herror⟩ := acceptsFor_iff h
  exact ⟨s, node, s', hv, hreturns, herror, forHeader_iff hv hreturns herror⟩

/-- The header declares more than one variable, and no semicolon follows. -/
def skipsToken (n : Nat) (s : ParserState) : Bool :=
  match parserStep (.next .identifyReservedWords) s with
  | .error _ => false
  | .ok (_, s₁) =>
      match parserStep (.next .identifyReservedWords) s₁ with
      | .error _ => false
      | .ok (_, t) =>
          match parser.run n .varDeclarationList (t.allowingIn false) with
          | .done (some decls) u =>
              s.token.type == .for && s₁.token.type == .openParen && t.token.type == .var &&
                !u.error && decide (1 < decls.declarations) && u.token.type != .semicolon
          | _ => false

theorem SkipsToken.of_run {n : Nat} {s : ParserState} (hpre : Pre Production.forStatement s)
    (h : skipsToken n s = true) : SkipsToken s := by
  unfold skipsToken at h
  split at h
  · cases h
  rename_i s₁ hn₁
  split at h
  · cases h
  rename_i t hn₂
  split at h
  · rename_i decls u hrun
    simp only [Bool.and_eq_true, beq_iff_eq, Bool.not_eq_true', bne_iff_ne, ne_eq,
      decide_eq_true_eq] at h
    obtain ⟨⟨⟨⟨⟨hfor, hparen⟩, hvar⟩, herror⟩, hmany⟩, htype⟩ := h
    have ht : Settled t := (Settled.next ⟨hpre.sound, hpre.allowsIn rfl⟩ hn₁).next hn₂
    obtain ⟨name, init, rest, hreads, -, hcount⟩ := ht.declarations hvar ⟨n, hrun⟩ herror
    refine ⟨t, name, init, rest, _, ⟨s₁, ⟨hfor, hn₁⟩, hparen, hn₂⟩, hreads, ?_, htype⟩
    rintro rfl
    rw [hcount] at hmany
    exact absurd hmany (by simp [Phrase.build])
  · cases h

omit [Platform] in
/-- `for(var a,b c;);` is accepted: the token `c` is skipped, and there is one semicolon. -/
theorem forHeader_skipped : ∃ s node s',
    @Occurs exactPlatform (identifierOfChars "for(var a,b c;);".toList) (.call .forStatement) s ∧
    (@parser exactPlatform).Returns .forStatement s (some node) s' ∧ s'.error = false ∧
    ¬ ∃ m, @ForHeader exactPlatform s m := by
  let _ : Platform := exactPlatform
  obtain ⟨ev, s, hv, h⟩ := parser.visits_of_any (fun ev s => acceptsFor 20 ev s && skipsToken 20 s)
    (callDepth (identifierOfChars "for(var a,b c;);".toList)) .createSyntaxTree
    (initialState (identifierOfChars "for(var a,b c;);".toList)) (by decide +kernel)
  obtain ⟨haccepts, hskips⟩ := Bool.and_eq_true_iff.mp h
  obtain ⟨rfl, node, s', hreturns, herror⟩ := acceptsFor_iff haccepts
  have hs : SkipsToken s := .of_run (Occurs.pre hv) hskips
  exact ⟨s, node, s', hv, hreturns, herror, fun ⟨m, hm⟩ => hs.not_forHeader hm⟩

end HammerJS
