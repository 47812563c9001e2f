import HammerJS.Procs.Calls
import HammerJS.Runs.ForHeaders
import HammerJS.Runs.LexProtocol

/-!
# Where `in` is an operator

The productions of ECMAScript 5.1 that have `NoIn` in their names, and the flag `m_allowsIn`
that stands for them.

* `Position` — whether a call stands where the grammar has a `NoIn` production.
* `Positioned` — the positions of the calls of a parse.
* `Positioned.allowsIn` — the flag is set exactly in one of them.
* `in_operator_iff` — an `in` is an operator exactly where the grammar has it, unless it stands
  in the middle operand of a conditional expression in a `for` header.
-/

namespace HammerJS

open Procs Machine Parse

variable [Platform]

/-! ## Positions -/

/-- Whether the production that a call stands for is one without `in`. -/
inductive Position where
  /-- `in` is an operator. -/
  | allowed
  /-- `in` is none: the production has `NoIn` in its name. -/
  | excluded
  /-- `in` is an operator again: the middle operand of a `ConditionalExpressionNoIn`. -/
  | middle
  deriving DecidableEq

/-- The state `t` is the one right behind `for (`, but for the flags. -/
def InitPart (s t : ParserState) : Prop :=
  ∃ u, ForStart s u ∧ t.stream = u.stream ∧ t.tokenCount = u.tokenCount

/-- The state `t` is the one right behind the question mark, but for the flags. -/
def MiddleOperand (s t : ParserState) : Prop :=
  ∃ cond u v, parser.Returns .binaryExpression s (some cond) u ∧ u.Takes .question v ∧
    t.stream = v.stream ∧ t.tokenCount = v.tokenCount

/-- The position of a call of the parse of a source.  It is the one of the calling production,
but for the init part of a `for` statement, the middle operand of a conditional expression,
and what a unary expression consists of. -/
inductive Positioned (source : List UChar) : Production → ParserState → Position → Prop
  | start : Positioned source .createSyntaxTree (initialState source) .allowed
  | unary {s t : ParserState} {m : Position} {q : Production}
      (h : Positioned source .unaryExpression s m)
      (hq : Production.unaryExpression.Issues s (.call q) t) : Positioned source q t .allowed
  | init {s t : ParserState} {m : Position} {q : Production}
      (h : Positioned source .forStatement s m)
      (hq : Production.forStatement.Issues s (.call q) t) (hinit : InitPart s t) :
      Positioned source q t .excluded
  | middle {s t : ParserState} {q : Production}
      (h : Positioned source .conditionalExpression s .excluded)
      (hq : Production.conditionalExpression.Issues s (.call q) t) (hmiddle : MiddleOperand s t) :
      Positioned source q t .middle
  | inherits {p q : Production} {s t : ParserState} {m : Position}
      (h : Positioned source p s m) (hq : p.Issues s (.call q) t) (hunary : p ≠ .unaryExpression)
      (hinit : p = .forStatement → ¬ InitPart s t)
      (hmiddle : p = .conditionalExpression → m = .excluded → ¬ MiddleOperand s t) :
      Positioned source q t m

/-! ## The calls of a header -/

section Header

variable {α β : Type} {s t u : ParserState} {q : Production}

/-- The code only reads tokens, and calls no other production than `parseExpression` and
`parseStatement`. -/
def Plain : Parse α → Prop
  | .pure _ => True
  | .quit => True
  | .op o k => (∀ s a s', parserStep o s = .ok (a, s') → Settled s → Settled s') ∧ ∀ a, Plain (k a)
  | .call p k => (p = .expression ∨ p = .statement) ∧ ∀ r, Plain (k r)

theorem Plain.bind {x : Parse α} {f : α → Parse β} (hx : Plain x) (hf : ∀ a, Plain (f a)) :
    Plain (x >>= f) := by
  change Plain (x.bind f)
  induction x with
  | pure a => exact hf a
  | quit => trivial
  | op o k ih => exact ⟨hx.1, fun a => ih a (hx.2 a)⟩
  | call p k ih => exact ⟨hx.1, fun r => ih r (hx.2 r)⟩

theorem plain_perform {o : ParserOp}
    (ho : ∀ s a s', parserStep o s = .ok (a, s') → Settled s → Settled s') :
    Plain (Program.perform (S := parserInterface) o) := ⟨ho, fun _ => trivial⟩

theorem plain_next {lexType : Lexer.LexType} : Plain (next lexType) := by
  apply plain_perform
  intro s _ s' h hs
  exact hs.next (show s.Next lexType s' from h)

theorem plain_isToken {x : JSTokenType} : Plain (isToken x) := by
  refine Plain.bind (plain_perform fun s a s' h hs => ?_) fun _ => trivial
  cases h
  exact hs

theorem plain_setError : Plain setError := by
  apply plain_perform
  intro s a s' h hs
  cases h
  exact ⟨⟨hs.sound.valid, hs.sound.idle, hs.sound.unary, hs.sound.operators⟩, hs.allowsIn⟩

theorem plain_fail : Plain (fail : Parse α) := plain_setError.bind fun _ => trivial

theorem plain_failIfNull {o : Option α} : Plain (failIfNull o) := by
  cases o with
  | none => exact plain_fail
  | some a => trivial

theorem plain_consume {x : JSTokenType} : Plain (consume x) := by
  apply plain_isToken.bind
  intro b
  cases b with
  | false => exact plain_setError.bind fun _ => trivial
  | true => exact plain_next.bind fun _ => trivial

theorem plain_consumeOrFail {x : JSTokenType} : Plain (consumeOrFail x) := by
  apply plain_consume.bind
  intro b
  cases b with
  | false => exact plain_fail
  | true => trivial

theorem plain_parse {p : Production} (hp : p = .expression ∨ p = .statement) : Plain (parse p) :=
  ⟨hp, fun _ => trivial⟩

/-- No production takes a token back. -/
theorem returns_tokenCount {p : Production} {r : Option p.Ret} (h : parser.Returns p s r t) :
    s.tokenCount ≤ t.tokenCount := by
  obtain ⟨n, hn⟩ := h
  exact run_relates (M := parser) (R := fun s s' => s.tokenCount ≤ s'.tokenCount)
    (fun _ => le_rfl) (fun _ _ _ => le_trans) step_tokenCount n p hn

/-- What such code calls is called between two parts of the header, after what came before. -/
theorem Plain.calls {x : Parse α} (hx : Plain x) (hs : Settled s) (h : parser.Calls x s q t) :
    Settled t ∧ s.tokenCount ≤ t.tokenCount := by
  induction x generalizing s with
  | pure a => exact h.elim
  | quit => exact h.elim
  | op o k ih =>
      rcases h with ⟨h, -⟩ | ⟨-, a, s', ho, h⟩
      · cases h
      · obtain ⟨ht, hle⟩ := ih a (hx.2 a) (hx.1 s a s' ho hs) h
        exact ⟨ht, (step_tokenCount o s a s' ho).trans hle⟩
  | call p k ih =>
      rcases h with ⟨h, rfl⟩ | ⟨r, s', hr, h⟩
      · exact ⟨hs, le_rfl⟩
      · have hpost : Post p s r s' := by
          refine Returns.post safety_neverDead parser_safe.correct ?_ hr.returns
          rcases hx.1 with rfl | rfl
          · exact ⟨hs.sound, fun _ => hs.allowsIn, trivial⟩
          · exact ⟨hs.sound, fun _ => hs.allowsIn, trivial⟩
        have hs' : Settled s' := ⟨hpost.kept.sound, hpost.kept.allowsIn.trans hs.allowsIn⟩
        obtain ⟨ht, hle⟩ := ih r (hx.2 r) hs' h
        exact ⟨ht, (returns_tokenCount hr.returns).trans hle⟩

omit [Platform] in
theorem silent_isToken {x : JSTokenType} : (isToken x).Silent :=
  Program.Silent.bind (Program.silent_perform _) fun _ => trivial

omit [Platform] in
theorem silent_fail : (fail : Parse α).Silent :=
  Program.Silent.bind (Program.silent_perform _) fun _ => trivial

omit [Platform] in
theorem silent_consume {x : JSTokenType} : (consume x).Silent := by
  apply silent_isToken.bind
  intro b
  cases b with
  | false => exact Program.Silent.bind (x := setError) (Program.silent_perform _) fun _ => trivial
  | true => exact Program.Silent.bind (x := next) (Program.silent_perform _) fun _ => trivial

omit [Platform] in
theorem silent_setAllowsIn {b : Bool} : (setAllowsIn b).Silent :=
  Program.Silent.bind (x := getRegs) (Program.silent_perform _) fun _ => Program.silent_perform _

omit [Platform] in
theorem silent_nonLHSCount : nonLHSCount.Silent :=
  Program.Silent.bind (Program.silent_perform _) fun _ => trivial

/-- The calls behind a part that makes none, where the rules for what is given say more. -/
theorem calls_behind {x : Parse β} {f : β → Parse α} (hx : x.Silent)
    (h : parser.Calls (x >>= f) s q t) :
    ∃ b u, Gives parser.Returns (x >>= pure) s b u ∧ parser.Calls (f b) u q t := by
  obtain ⟨b, u, hx, h⟩ := calls_of_silent hx h
  exact ⟨b, u, gives_bind.mpr ⟨b, u, hx, gives_pure.mpr ⟨rfl, rfl⟩⟩, h⟩

theorem calls_next {lexType : Lexer.LexType} {f : Unit → Parse α}
    (h : parser.Calls (next lexType >>= f) s q t) :
    ∃ u, s.Next lexType u ∧ parser.Calls (f ()) u q t := by
  obtain ⟨_, u, hx, hcall⟩ := calls_behind (Program.silent_perform _) h
  obtain ⟨v, hn, hv⟩ := gives_next.mp hx
  obtain ⟨-, rfl⟩ := gives_pure.mp hv
  exact ⟨u, hn, hcall⟩

theorem calls_isToken {x : JSTokenType} {f : Bool → Parse α}
    (h : parser.Calls (isToken x >>= f) s q t) :
    parser.Calls (f (decide (s.token.type = x))) s q t := by
  obtain ⟨b, u, hx, hcall⟩ := calls_behind silent_isToken h
  obtain ⟨rfl, rfl⟩ := gives_pure.mp (gives_isToken.mp hx)
  exact hcall

theorem calls_assertToken {x : JSTokenType} {f : Unit → Parse α}
    (h : parser.Calls (assertToken x >>= f) s q t) : parser.Calls (f ()) s q t := by
  have hsilent : (assertToken x).Silent := by
    apply silent_isToken.bind
    intro b
    cases b with
    | false => exact fun e => e.elim
    | true => trivial
  obtain ⟨_, u, hx, hcall⟩ := calls_behind hsilent h
  obtain ⟨-, rfl⟩ := gives_pure.mp (gives_assertToken.mp hx).2
  exact hcall

theorem calls_hasError {f : Bool → Parse α} (h : parser.Calls (hasError >>= f) s q t) :
    parser.Calls (f s.error) s q t := by
  obtain ⟨b, u, hx, hcall⟩ := calls_behind (Program.silent_perform _) h
  obtain ⟨rfl, rfl⟩ := gives_pure.mp (gives_hasError.mp hx)
  exact hcall

theorem calls_nonLHSCount {f : Nat → Parse α} (h : parser.Calls (nonLHSCount >>= f) s q t) :
    parser.Calls (f s.regs.nonLHSCount) s q t := by
  obtain ⟨n, u, hx, hcall⟩ := calls_behind silent_nonLHSCount h
  obtain ⟨rfl, rfl⟩ := gives_pure.mp (gives_nonLHSCount.mp hx)
  exact hcall

theorem calls_setAllowsIn {b : Bool} {f : Unit → Parse α}
    (h : parser.Calls (setAllowsIn b >>= f) s q t) : parser.Calls (f ()) (s.allowingIn b) q t := by
  obtain ⟨_, u, hx, hcall⟩ := calls_behind silent_setAllowsIn h
  obtain ⟨-, rfl⟩ := gives_pure.mp (gives_setAllowsIn.mp hx)
  exact hcall

theorem calls_failIfFalse {c : Bool} {f : Unit → Parse α}
    (h : parser.Calls (failIfFalse c >>= f) s q t) : parser.Calls (f ()) s q t := by
  cases c with
  | false => exact absurd h (not_calls_of_silent (Program.Silent.bind (x := setError)
      (Program.silent_perform _) fun _ => trivial))
  | true => exact h

/-- A token that is required, and what is called behind it. -/
theorem calls_consume {x : JSTokenType} {y : Parse α}
    (h : parser.Calls (consume x >>= fun c => if c = true then y else fail) s q t) :
    s.token.type = x ∧ ∃ u, s.Next .identifyReservedWords u ∧ parser.Calls y u q t := by
  obtain ⟨c, u, hx, h⟩ := calls_of_silent silent_consume h
  cases c with
  | false => exact absurd h (not_calls_of_silent silent_fail)
  | true =>
      have hx : Gives parser.Returns (consume x >>= fun c => if c = true then pure () else fail) s
          () u := gives_bind.mpr ⟨true, u, hx, gives_pure.mpr ⟨rfl, rfl⟩⟩
      obtain ⟨ht, v, hn, hv⟩ := gives_consume.mp hx
      obtain ⟨-, rfl⟩ := gives_pure.mp hv
      exact ⟨ht, u, hn, h⟩

theorem calls_consumeOrFail {x : JSTokenType} {f : Unit → Parse α}
    (h : parser.Calls (consumeOrFail x >>= f) s q t) :
    s.token.type = x ∧ ∃ u, s.Next .identifyReservedWords u ∧ parser.Calls (f ()) u q t := by
  have hsilent : (consumeOrFail x).Silent := by
    apply silent_consume.bind
    intro c
    cases c with
    | false => exact silent_fail
    | true => trivial
  obtain ⟨_, u, hx, h⟩ := calls_behind hsilent h
  obtain ⟨ht, v, hn, hv⟩ := gives_consumeOrFail.mp hx
  obtain ⟨-, rfl⟩ := gives_pure.mp hv
  exact ⟨ht, u, hn, h⟩

/-- Behind a token that is read. -/
theorem Plain.calls_next {lexType : Lexer.LexType} {f : Unit → Parse α} (hf : Plain (f ()))
    (hs : Settled s) (h : parser.Calls (next lexType >>= f) s q t) :
    Settled t ∧ s.tokenCount < t.tokenCount := by
  obtain ⟨u, hn, h⟩ := HammerJS.calls_next h
  obtain ⟨ht, hle⟩ := hf.calls (hs.next hn) h
  have hcount := hn.tokenCount
  exact ⟨ht, by omega⟩

/-- Behind a token that is required. -/
theorem Plain.calls_consume {x : JSTokenType} {y : Parse α} (hy : Plain y) (hs : Settled s)
    (h : parser.Calls (consume x >>= fun c => if c = true then y else fail) s q t) :
    Settled t ∧ s.tokenCount < t.tokenCount := by
  obtain ⟨-, u, hn, h⟩ := HammerJS.calls_consume h
  obtain ⟨ht, hle⟩ := hy.calls (hs.next hn) h
  have hcount := hn.tokenCount
  exact ⟨ht, by omega⟩

theorem plain_expressionUnless {x : JSTokenType} : Plain (parseExpressionUnless x) := by
  apply plain_isToken.bind
  intro b
  cases b with
  | false => exact (plain_parse (Or.inl rfl)).bind fun _ => plain_failIfNull.bind fun _ => trivial
  | true => trivial

/-- The code at the label `standardForLoop` moves on first. -/
theorem standardForLoop_calls {decls : Option Node} (hs : Settled s)
    (h : parser.Calls (parseStandardForLoop decls) s q t) :
    Settled t ∧ s.tokenCount < t.tokenCount := by
  refine Plain.calls_next ?_ hs h
  apply plain_expressionUnless.bind
  intro condition
  apply plain_consumeOrFail.bind
  intro _
  apply plain_expressionUnless.bind
  intro increment
  apply plain_consumeOrFail.bind
  intro _
  apply (plain_parse (Or.inr rfl)).bind
  intro statement
  exact plain_failIfNull.bind fun _ => trivial

/-- The code behind the `in` of a header. -/
theorem plain_inClause {f : Node → Node → Parse Node}
    (hf : ∀ expr statement, Plain (f expr statement)) :
    Plain (do
      let expr ← failIfNull (← parse .expression)
      consumeOrFail .closeParen
      let statement ← failIfNull (← parse .statement)
      f expr statement) := by
  apply (plain_parse (Or.inl rfl)).bind
  intro r
  apply plain_failIfNull.bind
  intro expr
  apply plain_consumeOrFail.bind
  intro _
  apply (plain_parse (Or.inr rfl)).bind
  intro r
  exact plain_failIfNull.bind fun statement => hf expr statement

/-- What is called behind `for (`: the init part, without `in`, and what comes later. -/
def HeaderCall (u t : ParserState) : Prop :=
  t = u.allowingIn false ∨ Settled t ∧ u.tokenCount < t.tokenCount

/-- The init part is called without `in`, and what follows is called later. -/
theorem initPart_calls {p : Production} {f : Option p.Ret → Parse α} (hu : Settled u)
    (hstart : p.Start (u.allowingIn false)) (hin : p.needsIn = false)
    (hf : ∀ r v, parser.Returns p (u.allowingIn false) r v → Settled (v.allowingIn true) →
      parser.Calls (f r) (v.allowingIn true) q t →
        Settled t ∧ (v.allowingIn true).tokenCount < t.tokenCount)
    (h : parser.Calls (do
      setAllowsIn false
      let r ← parse p
      setAllowsIn true
      f r) u q t) : HeaderCall u t := by
  rcases issues_bind (calls_setAllowsIn h) with h | ⟨r, v, ⟨r', v', hr, hr', rfl⟩, h⟩
  · exact Or.inl (calls_invoke.mp h).2
  cases hr'
  replace h := calls_setAllowsIn h
  have hpre : Pre p (u.allowingIn false) :=
    ⟨hu.sound.allowingIn false, fun h => (by rw [hin] at h; cases h), hstart⟩
  have hpost : Post p (u.allowingIn false) r v :=
    Returns.post safety_neverDead parser_safe.correct hpre hr
  obtain ⟨ht, hlt⟩ := hf r v hr ⟨hpost.kept.sound.allowingIn true, rfl⟩ h
  have hcount : (u.allowingIn false).tokenCount ≤ v.tokenCount := returns_tokenCount hr
  exact Or.inr ⟨ht, lt_of_le_of_lt hcount hlt⟩

/-- The header with `var`. -/
theorem forVar_calls (hu : Settled u) (htype : u.token.type = .var)
    (h : parser.Calls parseForVar u q t) : HeaderCall u t := by
  have hreal : (u.allowingIn false).token.type.isReal = true := by
    show u.token.type.isReal = true
    rw [htype]
    rfl
  refine initPart_calls (p := .varDeclarationList) hu hreal rfl (fun r v _ hv h => ?_) h
  replace h := calls_hasError h
  by_cases herror : (v.allowingIn true).error = true
  · rw [if_pos herror] at h
    exact absurd h (not_calls_of_silent silent_fail)
  rw [if_neg herror] at h
  cases r with
  | none => exact h.elim
  | some decls =>
      replace h := calls_isToken h
      split at h
      · exact standardForLoop_calls hv h
      · refine Plain.calls_consume (plain_inClause ?_) hv h
        exact fun _ _ => trivial

/-- **The calls of `parseForStatement`.** -/
theorem forStatement_calls (hp : Pre .forStatement s)
    (h : Production.forStatement.Issues s (.call q) t) : ∃ u, ForStart s u ∧ HeaderCall u t := by
  change parser.Calls parseForStatement s q t at h
  unfold parseForStatement at h
  obtain ⟨s₁, hn₁, h⟩ := calls_next (calls_assertToken h)
  obtain ⟨hparen, u, hn₂, h⟩ := calls_consumeOrFail h
  replace h := calls_isToken (calls_nonLHSCount h)
  have hu : Settled u := (Settled.next ⟨hp.sound, hp.allowsIn rfl⟩ hn₁).next hn₂
  refine ⟨u, ⟨s₁, ⟨hp.start, hn₁⟩, hparen, hn₂⟩, ?_⟩
  by_cases hvar : u.token.type = .var
  · rw [decide_eq_true hvar, if_pos rfl] at h
    exact forVar_calls hu hvar h
  rw [decide_eq_false hvar, if_neg Bool.false_ne_true] at h
  -- the part behind the init part, which may be empty
  have htail : ∀ decls v, Settled v → parser.Calls (do
      if ← isToken .semicolon then parseStandardForLoop decls
      else
        failIfFalse (u.regs.nonLHSCount = (← nonLHSCount))
        consumeOrFail .inToken
        let expr ← failIfNull (← parse .expression)
        consumeOrFail .closeParen
        let statement ← failIfNull (← parse .statement)
        let decls ← orReturnNull decls
        return Builder.createForIn decls expr statement) v q t →
      Settled t ∧ v.tokenCount < t.tokenCount := by
    intro decls v hv h
    replace h := calls_isToken h
    by_cases hsemicolon : v.token.type = .semicolon
    · rw [decide_eq_true hsemicolon, if_pos rfl] at h
      exact standardForLoop_calls hv h
    rw [decide_eq_false hsemicolon, if_neg Bool.false_ne_true] at h
    obtain ⟨-, w, hn, h⟩ := calls_consumeOrFail (calls_failIfFalse (calls_nonLHSCount h))
    have hplain : ∀ expr statement, Plain (do
        let decls ← orReturnNull decls
        return Builder.createForIn decls expr statement) := by
      intro expr statement
      cases decls <;> trivial
    obtain ⟨ht, hle⟩ := (plain_inClause hplain).calls (hv.next hn) h
    have hcount := hn.tokenCount
    exact ⟨ht, by omega⟩
  rcases issues_bind h with h | ⟨decls, v, hx, h⟩
  · replace h := calls_isToken h
    by_cases hsemicolon : u.token.type = .semicolon
    · rw [decide_eq_true hsemicolon, if_pos rfl] at h
      exact h.elim
    rw [decide_eq_false hsemicolon, if_neg Bool.false_ne_true] at h
    refine initPart_calls (p := .expression) hu trivial rfl (fun r v _ _ h => ?_) h
    cases r with
    | none => exact absurd h (not_calls_of_silent silent_fail)
    | some decls => exact h.elim
  · replace hx := gives_ifToken.mp hx
    by_cases hsemicolon : u.token.type = .semicolon
    · rw [if_pos hsemicolon] at hx
      obtain ⟨-, rfl⟩ := gives_pure.mp hx
      exact Or.inr (htail decls _ hu h)
    rw [if_neg hsemicolon] at hx
    obtain ⟨r, w, hr, hx⟩ := gives_parse.mp (gives_setAllowsIn.mp hx)
    obtain ⟨node, rfl, hdecls⟩ := gives_failIfNull.mp (gives_setAllowsIn.mp hx)
    obtain ⟨-, rfl⟩ := gives_pure.mp hdecls
    have hpost : Post .expression (u.allowingIn false) (some node) w :=
      Returns.post safety_neverDead parser_safe.correct
        ⟨hu.sound.allowingIn false, nofun, trivial⟩ hr
    obtain ⟨ht, hlt⟩ := htail decls _ ⟨hpost.kept.sound.allowingIn true, rfl⟩ h
    have hcount : (u.allowingIn false).tokenCount ≤ w.tokenCount := returns_tokenCount hr
    exact Or.inr ⟨ht, lt_of_le_of_lt hcount hlt⟩

/-- What a unary expression consists of is called by one production. -/
theorem unaryExpression_calls (h : Production.unaryExpression.Issues s (.call q) t) :
    q = .unaryExpressionBody := by
  change parser.Calls parseUnaryExpression s q t at h
  unfold parseUnaryExpression at h
  have hread : (Parse.allowsIn).Silent :=
    Program.Silent.bind (Program.silent_perform _) fun _ => trivial
  obtain ⟨b, v, -, h⟩ := calls_of_silent hread h
  rcases issues_bind (calls_setAllowsIn h) with h | ⟨r, w, -, h⟩
  · exact (calls_invoke.mp h).1
  · replace h := calls_setAllowsIn h
    cases r <;> exact h.elim

end Header

/-! ## Positions and the flag -/

section Flag

variable {source : List UChar} {s t : ParserState} {p q : Production} {m : Position}

/-- Whether `in` is allowed in what is called in a header. -/
theorem initPart_iff {u : ParserState} (hu : ForStart s u) (h : HeaderCall u t) :
    t.regs.allowsIn = true ↔ ¬ InitPart s t := by
  rcases h with rfl | ⟨ht, hlt⟩
  · exact iff_of_false Bool.false_ne_true fun hinit => hinit ⟨u, hu, rfl, rfl⟩
  · refine iff_of_true ht.allowsIn ?_
    rintro ⟨v, hv, -, hcount⟩
    obtain rfl := hu.unique hv
    omega

/-- **The flag is set exactly where `in` is allowed**, but for the middle operands. -/
theorem Positioned.allowsIn (h : Positioned source p s m) :
    Pre p s ∧ (s.regs.allowsIn = true ↔ m = .allowed) := by
  have hcalls : ∀ {p s q t}, Pre p s → p.Issues s (.call q) t → Pre q t ∧ MayCall p s q t :=
    fun hp hq => parser_safe.issues (fun _ _ hd => hd) hp hq
  induction h with
  | start => exact ⟨initialState_pre source, iff_of_true rfl rfl⟩
  | unary h hq ih =>
      have hpre := (hcalls ih.1 hq).1
      obtain rfl := unaryExpression_calls hq
      exact ⟨hpre, iff_of_true (hpre.allowsIn rfl) rfl⟩
  | init h hq hinit ih =>
      obtain ⟨u, hu, hcall⟩ := forStatement_calls ih.1 hq
      refine ⟨(hcalls ih.1 hq).1, iff_of_false (fun hin => ?_) nofun⟩
      exact (initPart_iff hu hcall).mp hin hinit
  | middle h hq hmiddle ih =>
      obtain ⟨hpre, hcall⟩ := hcalls ih.1 hq
      have hkept := hcall.allowsIn nofun nofun
      refine ⟨hpre, iff_of_false (fun hin => ?_) nofun⟩
      cases ih.2.mp (hkept ▸ hin)
  | @inherits p q s t m h hq hunary hinit hmiddle ih =>
      obtain ⟨hpre, hcall⟩ := hcalls ih.1 hq
      refine ⟨hpre, ?_⟩
      by_cases hfor : p = .forStatement
      · subst hfor
        obtain ⟨u, hu, hheader⟩ := forStatement_calls ih.1 hq
        have hallowed : m = .allowed := ih.2.mp (ih.1.allowsIn rfl)
        exact iff_of_true ((initPart_iff hu hheader).mpr (hinit rfl)) hallowed
      · rw [hcall.allowsIn hunary hfor]
        exact ih.2

/-- Every call has a position. -/
theorem positioned_of_occurs (h : Occurs source (.call q) t) : ∃ m, Positioned source q t m := by
  refine visits_induct (P := fun p s => ∃ m, Positioned source p s m) ?_ ⟨_, .start⟩ h
  rintro p s q t ⟨m, hm⟩ hq
  by_cases hunary : p = .unaryExpression
  · subst hunary
    exact ⟨_, .unary hm hq⟩
  by_cases hinit : p = .forStatement ∧ InitPart s t
  · obtain ⟨rfl, hinit⟩ := hinit
    exact ⟨_, .init hm hq hinit⟩
  by_cases hmiddle : p = .conditionalExpression ∧ m = .excluded ∧ MiddleOperand s t
  · obtain ⟨rfl, rfl, hmiddle⟩ := hmiddle
    exact ⟨_, .middle hm hq hmiddle⟩
  · exact ⟨m, .inherits hm hq hunary (fun h h' => hinit ⟨h, h'⟩)
      fun h h' h'' => hmiddle ⟨h, h', h''⟩⟩

end Flag

/-! ## The loop over the operators -/

section Loop

variable {source : List UChar} {s t : ParserState} {a b : Nat} {m : Position} {node : Node}

/-- The loop of `parseBinaryExpression`, called in `s`, moves over the token that it finds in
`t`: it is an operator. -/
def MovesOver (a b : Nat) (s t : ParserState) : Prop :=
  ∃ u, (Production.binaryLoop a b).Issues s (.op (.next .identifyReservedWords)) u ∧
    u.stream = t.stream

/-- The loop ends at the token that it finds in `t`, and leaves it to its callers. -/
def Leaves (a b : Nat) (s t : ParserState) : Prop :=
  ∃ u, parser.Returns (.binaryLoop a b) s (some (a + 1, b)) u ∧ u.stream = t.stream

/-- Behind the operand that the loop reads there is an `in`. -/
structure MeetsIn (s t : ParserState) : Prop where
  operand : ∃ node, parser.Returns .unaryExpression s (some node) t
  type : t.token.type = .inToken

/-- An `in` behind the operand is an operator unless the position excludes it. -/
def ReadsIn (m : Position) (a b : Nat) (s : ParserState) : Prop :=
  ∀ t, MeetsIn s t → (m ≠ .excluded → MovesOver a b s t) ∧ (m = .excluded → Leaves a b s t)

theorem MeetsIn.allowsIn (h : MeetsIn s t) (hs : Pre (.binaryLoop a b) s) :
    t.regs.allowsIn = s.regs.allowsIn := by
  obtain ⟨node, hr⟩ := h.operand
  have hpre : Pre .unaryExpression s := ⟨hs.sound, nofun, trivial⟩
  exact (Returns.post safety_neverDead parser_safe.correct hpre hr).kept.allowsIn

/-- The state in which the loop has put its operand on the stack. -/
def ParserState.withOperand (node : Node) (t : ParserState) : ParserState :=
  { t with regs := { t.regs with context :=
      { t.regs.context with binaryOperand := node :: t.regs.context.binaryOperand } } }

theorem finishes_pushOperand : parser.Finishes (fun _ => False) (pushOperand node) t (some ())
    (t.withOperand node) := finishes_modifyRegs fun _ h => h

theorem finishes_binaryPrecedence : parser.Finishes (fun _ => False) binaryPrecedence t
    (some (t.token.type.isBinaryOperator t.regs.allowsIn)) t := by
  have hallows : parser.Finishes (fun _ => False) Parse.allowsIn t (some t.regs.allowsIn) t :=
    .bind (a := t.regs) (finishes_perform (o := .getRegs) id rfl) ⟨rfl, rfl⟩
  exact .bind (finishes_tokenType fun _ h => h) (.bind hallows ⟨rfl, rfl⟩)

/-- With `m_allowsIn` the loop goes on at an `in`. -/
theorem MeetsIn.movesOver (h : MeetsIn s t) (ht : t.regs.allowsIn = true) : MovesOver a b s t := by
  obtain ⟨node, hr⟩ := h.operand
  have hdead : ∀ o : ParserOp, ¬ (fun _ => False) o := fun _ h => h
  let u := t.withOperand node
  have hprecedence : u.token.type.isBinaryOperator u.regs.allowsIn ≠ 0 := by
    rw [show u.token.type = .inToken from h.type, show u.regs.allowsIn = true from ht]
    decide
  refine ⟨{ u with regs := { u.regs with nonLHSCount := u.regs.nonLHSCount + 1 } }, ?_, rfl⟩
  change parser.Issues _ (parseBinaryLoop a b) s _ _
  refine .bind (finishes_parse hdead hr) (.bind (a := node) ⟨rfl, rfl⟩
    (.bind finishes_pushOperand (.bind finishes_binaryPrecedence ?_)))
  rw [if_neg hprecedence]
  exact .bind (finishes_modifyRegs hdead) (.bind (finishes_tokenType hdead) (Or.inl ⟨rfl, rfl⟩))

/-- Without it the loop ends there. -/
theorem MeetsIn.leaves (h : MeetsIn s t) (ht : t.regs.allowsIn = false) :
    Leaves a b s t ∧ ¬ MovesOver a b s t := by
  obtain ⟨node, hr⟩ := h.operand
  have hprecedence : t.token.type.isBinaryOperator t.regs.allowsIn = 0 := by
    rw [h.type, ht]
    decide
  constructor
  · refine ⟨t.withOperand node, parser_returns_iff.mpr ?_, rfl⟩
    change Gives parser.Returns (parseBinaryLoop a b) s _ _
    unfold parseBinaryLoop
    refine gives_parse.mpr ⟨_, t, hr, gives_failIfNull.mpr ⟨node, rfl, ?_⟩⟩
    refine gives_modifyRegs.mpr (gives_bind.mpr
      ⟨_, t.withOperand node, finishes_binaryPrecedence.reaches, ?_⟩)
    change Gives parser.Returns (if t.token.type.isBinaryOperator t.regs.allowsIn = 0 then _ else _)
      _ _ _
    rw [if_pos hprecedence]
    exact gives_pure.mpr ⟨rfl, rfl⟩
  · rintro ⟨u, hissues, -⟩
    change parser.Issues _ (parseBinaryLoop a b) s _ _ at hissues
    unfold parseBinaryLoop at hissues
    rcases issues_bind hissues with h | ⟨r, v, ⟨r', v', hr', hpure, rfl⟩, hissues⟩
    · rcases h with ⟨h, -⟩ | ⟨_, _, _, h⟩
      · cases h
      · exact h
    cases hpure
    obtain ⟨rfl, rfl⟩ := Returns.unique parser hr hr'
    -- the operand is pushed, and the precedence is read
    rcases hissues with ⟨h, -⟩ | ⟨-, _, _, hstep, hissues⟩
    · cases h
    cases hstep
    rcases hissues with ⟨h, -⟩ | ⟨-, _, _, hstep, hissues⟩
    · cases h
    cases hstep
    rcases hissues with ⟨h, -⟩ | ⟨-, _, _, hstep, hissues⟩
    · cases h
    cases hstep
    rcases hissues with ⟨h, -⟩ | ⟨-, _, _, hstep, hissues⟩
    · cases h
    cases hstep
    change parser.Issues _ (if t.token.type.isBinaryOperator t.regs.allowsIn = 0 then _ else _)
      _ _ _ at hissues
    rw [if_pos hprecedence] at hissues
    exact hissues

/-- Where `in` is not allowed, it is not when the operand is read. -/
theorem MeetsIn.excluded (h : MeetsIn s t) (hs : Positioned source (.binaryLoop a b) s m)
    (hm : m ≠ .allowed) : t.regs.allowsIn = false := by
  obtain ⟨hpre, hallows⟩ := hs.allowsIn
  rw [h.allowsIn hpre, ← Bool.not_eq_true]
  exact fun hset => hm (hallows.mp hset)

end Loop

/-- **Where `in` is an operator.**  Every call of a parse has a position, and in all calls of
the loop over binary operators an `in` is an operator exactly if the position does not exclude
it, if and only if no middle operand of a conditional expression in the init part of a `for`
statement has an `in` of its own, outside of brackets. -/
theorem in_operator_iff (source : List UChar) :
    (∀ p s, Occurs source (.call p) s → ∃ m, Positioned source p s m) ∧
    ((∀ m a b s, Positioned source (.binaryLoop a b) s m → ReadsIn m a b s) ↔
      ∀ a b s t, Positioned source (.binaryLoop a b) s .middle → ¬ MeetsIn s t) := by
  refine ⟨fun p s => positioned_of_occurs, fun h a b s t hs hin => ?_,
    fun h m a b s hs t hin => ?_⟩
  · have ht := hin.excluded hs nofun
    exact (hin.leaves ht).2 ((h .middle a b s hs t hin).1 nofun)
  · cases m with
    | middle => exact absurd hin (h a b s t hs)
    | allowed =>
        obtain ⟨hpre, hallows⟩ := hs.allowsIn
        have ht : t.regs.allowsIn = true := (hin.allowsIn hpre).trans (hallows.mpr rfl)
        exact ⟨fun _ => hin.movesOver ht, nofun⟩
    | excluded =>
        exact ⟨fun hne => absurd rfl hne, fun _ => (hin.leaves (hin.excluded hs nofun)).1⟩

/-! ## A middle operand -/

section Middle

variable {source : List UChar} {s s₁ u w v t : ParserState} {m : Position} {cond node : Node}

/-- The header of `s` starts with a conditional expression, and the first operand of the middle
one is followed by an `in`. -/
structure MiddleIn (s u w v t : ParserState) : Prop where
  start : ForStart s u
  type : u.token.type ≠ .var ∧ u.token.type ≠ .semicolon
  test : ∃ cond, parser.Returns .binaryExpression (u.allowingIn false) (some cond) w
  question : w.token.type = .question ∧
    ({ w with regs := { w.regs with nonLHSCount := w.regs.nonLHSCount + 1 } } : ParserState).Next
      .identifyReservedWords v
  meets : MeetsIn v t

/-- The `in` is met in a middle operand. -/
theorem MiddleIn.positioned (h : MiddleIn s u w v t) (hs : Positioned source .forStatement s m) :
    Positioned source (.binaryLoop 0 0) v .middle := by
  obtain ⟨⟨s₁, hfor, hparen⟩, ⟨hvar, hsemicolon⟩, ⟨cond, htest⟩, ⟨hquestion, hn⟩, hmeets⟩ := h
  have hdead : ∀ o : ParserOp, ¬ (fun _ => False) o := fun _ h => h
  have hinit : InitPart s (u.allowingIn false) := ⟨u, ⟨s₁, hfor, hparen⟩, rfl, rfl⟩
  have hexpression : Positioned source .expression (u.allowingIn false) .excluded := by
    refine .init hs ?_ hinit
    change parser.Issues _ parseForStatement s _ _
    refine .bind (finishes_assertToken hdead hfor.type) (.bind (finishes_next hdead hfor.next)
      (.bind (finishes_consumeOrFail hdead hparen.type hparen.next)
        (.bind (finishes_nonLHSCount hdead)
          (.bind (finishes_isToken hdead (decide_eq_false hvar)) ?_))))
    rw [if_neg Bool.false_ne_true]
    refine .left (.bind (finishes_isToken hdead (decide_eq_false hsemicolon)) ?_)
    rw [if_neg Bool.false_ne_true]
    exact .bind (finishes_modifyRegs hdead) (Or.inl ⟨rfl, rfl⟩)
  have hassignment : Positioned source .assignmentExpression (u.allowingIn false) .excluded :=
    .inherits hexpression (Or.inl ⟨rfl, rfl⟩) (by rintro ⟨⟩) (by rintro ⟨⟩)
      (by rintro ⟨⟩)
  have hconditional : Positioned source .conditionalExpression (u.allowingIn false) .excluded :=
    .inherits hassignment (.bind (finishes_nonLHSCount hdead) (Or.inl ⟨rfl, rfl⟩))
      (by rintro ⟨⟩) (by rintro ⟨⟩) (by rintro ⟨⟩)
  have hmiddle : Positioned source .assignmentExpression v .middle := by
    refine .middle hconditional ?_ ?_
    · change parser.Issues _ parseConditionalExpression (u.allowingIn false) _ _
      refine .bind (finishes_parse hdead htest) (.bind (a := cond) ⟨rfl, rfl⟩
        (.bind (finishes_isToken hdead (decide_eq_true hquestion)) ?_))
      rw [if_pos rfl]
      exact .bind (finishes_modifyRegs hdead) (.bind (finishes_next hdead hn) (Or.inl ⟨rfl, rfl⟩))
    · have hstream := hn.eq.1
      have hnext : w.Next .identifyReservedWords
          { w with lexer := v.lexer, token := v.token, tokenCount := w.tokenCount + 1 } := by
        simp only [ParserState.Next, parserStep,
          show Lexer.lex .identifyReservedWords w.token w.lexer = _ from hstream, Except.map]
        rfl
      exact ⟨cond, w, _, htest, ⟨hquestion, hnext⟩, rfl, hn.tokenCount⟩
  have hconditional : Positioned source .conditionalExpression v .middle :=
    .inherits hmiddle (.bind (finishes_nonLHSCount hdead) (Or.inl ⟨rfl, rfl⟩))
      (by rintro ⟨⟩) (by rintro ⟨⟩) (by rintro ⟨⟩)
  have hbinary : Positioned source .binaryExpression v .middle :=
    .inherits hconditional (Or.inl ⟨rfl, rfl⟩) (by rintro ⟨⟩) (by rintro ⟨⟩) (by rintro - ⟨⟩)
  exact .inherits hbinary (Or.inl ⟨rfl, rfl⟩) (by rintro ⟨⟩) (by rintro ⟨⟩) (by rintro ⟨⟩)

end Middle

/-- The `in` of a middle operand, as a computation. -/
def middleIn (n : Nat) (s : ParserState) : Bool :=
  match parserStep (.next .identifyReservedWords) s with
  | .error _ => false
  | .ok (_, s₁) =>
      match parserStep (.next .identifyReservedWords) s₁ with
      | .error _ => false
      | .ok (_, u) =>
          match parser.run n .binaryExpression (u.allowingIn false) with
          | .done (some _) w =>
              match parserStep (.next .identifyReservedWords)
                { w with regs := { w.regs with nonLHSCount := w.regs.nonLHSCount + 1 } } with
              | .error _ => false
              | .ok (_, v) =>
                  match parser.run n .unaryExpression v with
                  | .done (some _) t =>
                      s.token.type == .for && s₁.token.type == .openParen &&
                        u.token.type != .var && u.token.type != .semicolon &&
                        w.token.type == .question && t.token.type == .inToken
                  | _ => false
          | _ => false

theorem MiddleIn.of_run {n : Nat} {s : ParserState} (h : middleIn n s = true) :
    ∃ u w v t, MiddleIn s u w v t := by
  unfold middleIn at h
  split at h
  · cases h
  rename_i s₁ hn₁
  split at h
  · cases h
  rename_i u hn₂
  split at h
  · rename_i cond w htest
    split at h
    · cases h
    rename_i v hn
    split at h
    · rename_i node t hoperand
      simp only [Bool.and_eq_true, beq_iff_eq, bne_iff_ne, ne_eq] at h
      obtain ⟨⟨⟨⟨⟨hfor, hparen⟩, hvar⟩, hsemicolon⟩, hquestion⟩, hin⟩ := h
      exact ⟨u, w, v, t, ⟨s₁, ⟨hfor, hn₁⟩, hparen, hn₂⟩, ⟨hvar, hsemicolon⟩, ⟨cond, n, htest⟩,
        ⟨hquestion, hn⟩, ⟨node, n, hoperand⟩, hin⟩
    · cases h
  · cases h

/-- A call of `parseForStatement` that meets such an `in`. -/
def middleInFor (ev : Event parserInterface) (s : ParserState) : Bool :=
  match ev with
  | .call .forStatement => middleIn 20 s
  | _ => false

omit [Platform] in
/-- `for(a?b in c:d;;);` is a statement of ES5, and its `in` is none of an operator. -/
theorem in_operator_middle : ∃ m a b s,
    @Positioned exactPlatform (identifierOfChars "for(a?b in c:d;;);".toList) (.binaryLoop a b) s m ∧
      ¬ @ReadsIn exactPlatform m a b s := by
  let _ : Platform := exactPlatform
  obtain ⟨ev, s, hv, h⟩ := parser.visits_of_any
    middleInFor
    (callDepth (identifierOfChars "for(a?b in c:d;;);".toList)) .createSyntaxTree
    (initialState (identifierOfChars "for(a?b in c:d;;);".toList)) (by decide +kernel)
  unfold middleInFor at h
  split at h
  · obtain ⟨u, w, v, t, hin⟩ := MiddleIn.of_run h
    obtain ⟨m, hm⟩ := positioned_of_occurs hv
    have hs := hin.positioned hm
    refine ⟨.middle, 0, 0, v, hs, fun hreads => ?_⟩
    exact (hin.meets.leaves (hin.meets.excluded hs (by rintro ⟨⟩))).2
      ((hreads t hin.meets).1 (by rintro ⟨⟩))
  · cases h

end HammerJS
