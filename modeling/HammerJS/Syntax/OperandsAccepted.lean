import HammerJS.Syntax.Arrives
import HammerJS.Syntax.ExpressionsParsed

/-!
# The productions accept operands

`parseUnaryExpression` and what it calls, over the phrases that it should accept.

* `memberFrom`, `Phrase.TakenAsMember` — `parseMemberExpression` from any number of `new` tokens.
* `unaryFrom`, `Phrase.TakenAsUnary` — `parseUnaryExpression` from any number of operators.
-/

namespace HammerJS

open Procs Machine Lexer Parse

variable [Platform]

/-! ## Member expressions -/

/-- The rest of `parseMemberExpression`, behind the first expression. -/
def memberRest (base : Node) (newCount : Nat) : Parse Node := do
  let (base, newCount) ← orReturnNull (← parse (.memberLoop base newCount))
  return createNewExprs base newCount

/-- `parseMemberExpression`, behind some `new` tokens. -/
def memberFrom (newCount : Nat) : Parse Node := do
  let newCount ← orReturnNull (← parse (.newLoop newCount))
  memberRest (← parseMemberBase) newCount

section Member

variable {s : ParserState} {a m b : Stream} {newCount : Nat} {Q : Node → ParserState → Prop}
  {base : Node}

/-- One more `new`. -/
theorem accepts_new (hs : s.stream = a) (hx : (Lexeme.mark .new).Step a m)
    (hf : ∀ s', Arrives s [.mark .new] True m s' → Accepts (memberFrom (newCount + 1)) s' Q) :
    Accepts (memberFrom newCount) s Q := by
  refine accepts_orNull.mpr (answers_production.mpr ?_)
  refine accepts_match hs hx.1 ?_
  exact accepts_skip hs hx fun s' h => accepts_last.mpr (accepts_orNull.mp (hf s' h))

/-- The first expression. -/
theorem accepts_memberBase (hs : s.stream = a) (ht : a.token.type ≠ .new)
    (hf : Accepts parseMemberBase s fun base s' => Accepts (memberRest base newCount) s' Q) :
    Accepts (memberFrom newCount) s Q := by
  refine accepts_orNull.mpr (answers_production.mpr ?_)
  exact accepts_noMatch hs ht (accepts_pure (accepts_bind.mpr hf))

/-- A token that is no suffix ends the loop. -/
theorem accepts_memberEnd (hs : s.stream = a)
    (ht : a.token.type ≠ .openBracket ∧ a.token.type ≠ .openParen ∧ a.token.type ≠ .dot)
    (hQ : Q (createNewExprs base newCount) s) : Accepts (memberRest base newCount) s Q := by
  refine accepts_orNull.mpr (answers_production.mpr (accepts_tokenType ?_))
  rw [token_eq hs]
  split
  case h_1 h => exact absurd h ht.1
  case h_2 h => exact absurd h ht.2.1
  case h_3 h => exact absurd h ht.2.2
  case h_4 => exact accepts_pure (accepts_pure hQ)

theorem accepts_dot {name : Identifier} {n : Stream} (hs : s.stream = a)
    (hx : Lexeme.dot.Step a n) (hname : (Lexeme.ident name).Step n b)
    (hf : ∀ s', Arrives s [.dot, .ident name] True b s' →
      Accepts (memberRest (Builder.createDotAccess base name) newCount) s' Q) :
    Accepts (memberRest base newCount) s Q := by
  refine accepts_orNull.mpr (answers_production.mpr (accepts_tokenType ?_))
  rw [token_eq hs, hx.1]
  refine accepts_read hs hx hx.2 fun s₁ h₁ => ?_
  have htoken := token_eq h₁.stream
  refine accepts_matchOrFail (htoken ▸ hname.1) (accepts_tokenData ?_)
  refine accepts_read h₁.stream hname hname.2.2 fun s₂ h₂ => ?_
  rw [htoken, hname.2.1]
  exact accepts_last.mpr (accepts_orNull.mp (hf s₂ ((h₁.trans h₂).cast rfl (by simp))))

theorem accepts_bracket {property : Phrase .expr} {n₁ n₂ : Stream}
    (hproperty : property.TakenAsExpression) (hs : s.stream = a) (herror : s.error = false)
    (hin : s.regs.allowsIn = true) (hlegal : property.Legal true)
    (hopen : (Lexeme.mark .openBracket).Step a n₁) (hspans : property.Spans n₁ n₂)
    (hclose : (Lexeme.mark .closeBracket).Step n₂ b)
    (hf : ∀ s', Arrives s (.mark .openBracket :: property.lexemes ++ [.mark .closeBracket]) True
      b s' → Accepts (memberRest (Builder.createBracketAccess base property.build) newCount) s' Q) :
    Accepts (memberRest base newCount) s Q := by
  refine accepts_orNull.mpr (answers_production.mpr (accepts_tokenType ?_))
  rw [token_eq hs, hopen.1]
  refine accepts_skip hs hopen fun s₁ h₁ => accepts_nonLHSCount (accepts_orFail ?_)
  have hin₁ : s₁.regs.allowsIn = true := h₁.allowsIn.trans hin
  have hends : Ends 0 s₁.regs.allowsIn n₂.token.type := by
    rw [hclose.1, hin₁]
    exact ends_of_none rfl
  refine (hproperty hspans h₁.stream (h₁.error.trans herror) (hin₁ ▸ hlegal) hends).mono ?_
  rintro _ s₂ ⟨rfl, h₂⟩
  obtain ⟨s₃, hnext, h₃⟩ := arrives_next h₂.stream hclose hclose.2
  refine accepts_consume (token_eq h₂.stream ▸ hclose.1) hnext ?_
  refine accepts_setNonLHSCount (accepts_last.mpr (accepts_orNull.mp (hf _ ?_)))
  exact (h₁.trans (h₂.trans h₃).restore).cast (by simp) (by simp)

theorem accepts_arguments {args : Phrase .args}
    (hargs : args.TakenAsArguments) (hs : s.stream = a) (herror : s.error = false)
    (hin : s.regs.allowsIn = true) (hlegal : args.Legal true) (hspans : args.Spans a b)
    (hcall : newCount = 0 → ∀ s', Arrives s args.lexemes True b s' →
      Accepts (memberRest (Builder.makeFunctionCallNode base args.build) 0) s' Q)
    (hnew : ∀ n, newCount = n + 1 → ∀ s', Arrives s args.lexemes args.Calm b s' →
      Accepts (memberRest (Builder.createNewExpr base args.build) n) s' Q) :
    Accepts (memberRest base newCount) s Q := by
  have hparen : a.token.type = .openParen := by
    cases args with
    | noArgs => exact hspans.first rfl
    | arguments first rest => exact hspans.first rfl
  have htaken := hargs hspans hs herror (hin ▸ hlegal) hin
  refine accepts_orNull.mpr (answers_production.mpr (accepts_tokenType ?_))
  rw [token_eq hs, hparen]
  cases newCount with
  | zero =>
      refine accepts_nonLHSCount (accepts_orFail (htaken.mono ?_))
      rintro _ s₁ ⟨rfl, h₁⟩
      refine accepts_setNonLHSCount ?_
      exact accepts_last.mpr (accepts_orNull.mp (hcall rfl _ h₁.restore))
  | succ n =>
      refine accepts_match hs hparen (accepts_orFail (htaken.mono ?_))
      rintro _ s₁ ⟨rfl, h₁⟩
      exact accepts_last.mpr (accepts_orNull.mp (hnew n rfl s₁ h₁))

end Member

namespace Phrase

/-- Behind some `new` tokens, `parseMemberExpression` reads the expression before its loop comes
to what follows; behind a `new` it takes no call for its operand. -/
def TakenAsMember (e : Phrase .expr) : Prop :=
  ∀ {a b : Stream} {s : ParserState} {newCount : Nat} {Q : Node → ParserState → Prop},
    e.Spans a b → s.stream = a → s.error = false → s.regs.allowsIn = true → e.Legal true →
      16 ≤ e.rank → (newCount ≠ 0 → e.rank = 17) →
        (∀ s', Arrives s e.lexemes e.Calm b s' → Accepts (memberRest e.build newCount) s' Q) →
          Accepts (memberFrom newCount) s Q

section Member

variable {e base property callee : Phrase .expr} {args : Phrase .args}

theorem takenAsMember_base (hhead : e.head ≠ .new)
    (h : e.TakenBy (fun allowsIn _ => allowsIn = true) e.build (Accepts parseMemberBase)) :
    e.TakenAsMember := by
  intro a b s newCount Q hspans hs herror hin hlegal _ _ hf
  refine accepts_memberBase hs (hspans.head ▸ hhead) ?_
  refine (h hspans hs herror (hin ▸ hlegal) hin).mono ?_
  rintro _ s' ⟨rfl, h'⟩
  exact hf s' h'

theorem takenAsMember_dot {name : Identifier} (h : base.TakenAsMember) :
    (dot base name).TakenAsMember := by
  intro a b s newCount Q hspans hs herror hin hlegal hrank hnew hf
  obtain ⟨hparts, -⟩ := spans_iff.mp hspans
  obtain ⟨m, hbase, n, hx, hname⟩ := by simpa [parts] using hparts
  refine h hbase hs herror hin hlegal.1 hrank hnew fun s₁ h₁ => ?_
  refine accepts_dot h₁.stream hx hname fun s₂ h₂ => hf s₂ ?_
  exact (h₁.trans h₂).cast rfl (by simp [Calm])

theorem takenAsMember_bracket (h : base.TakenAsMember)
    (hproperty : property.TakenAsExpression) : (bracket base property).TakenAsMember := by
  intro a b s newCount Q hspans hs herror hin hlegal hrank hnew hf
  obtain ⟨hparts, -⟩ := spans_iff.mp hspans
  obtain ⟨m, hbase, n₁, hopen, n₂, hinner, hclose⟩ := by simpa [parts] using hparts
  refine h hbase hs herror hin hlegal.1 hrank hnew fun s₁ h₁ => ?_
  refine accepts_bracket hproperty h₁.stream (h₁.error.trans herror) (h₁.allowsIn.trans hin)
    hlegal.2.2 hopen hinner hclose fun s₂ h₂ => hf s₂ ?_
  exact (h₁.trans h₂).cast (by simp [lexemes]) (by simp [Calm])

theorem takenAsMember_call (h : callee.TakenAsMember)
    (hargs : args.TakenAsArguments) : (call callee args).TakenAsMember := by
  intro a b s newCount Q hspans hs herror hin hlegal _ hnew hf
  obtain ⟨hparts, -⟩ := spans_iff.mp hspans
  obtain ⟨m, hcallee, hspans⟩ := by simpa [parts] using hparts
  -- behind a `new` the arguments would be those of the `new`
  have hzero : newCount = 0 := by
    by_contra hne
    exact absurd (hnew hne) (by simp [rank])
  subst hzero
  refine h hcallee hs herror hin hlegal.1 hlegal.2.1 (absurd rfl) fun s₁ h₁ => ?_
  refine accepts_arguments hargs h₁.stream (h₁.error.trans herror) (h₁.allowsIn.trans hin)
    hlegal.2.2 hspans (fun _ s₂ h₂ => hf s₂ ?_) (fun n hn => by cases hn)
  exact (h₁.trans h₂).cast rfl (by simp [Calm])

theorem takenAsMember_new (h : callee.TakenAsMember)
    (hargs : args.TakenAsArguments) : (newArgs callee args).TakenAsMember := by
  intro a b s newCount Q hspans hs herror hin hlegal _ _ hf
  obtain ⟨hparts, -⟩ := spans_iff.mp hspans
  obtain ⟨n, hx, m, hcallee, hspans⟩ := by simpa [parts] using hparts
  refine accepts_new hs hx fun s₁ h₁ => ?_
  refine h hcallee h₁.stream (h₁.error.trans herror) (h₁.allowsIn.trans hin) hlegal.1
    (by rw [hlegal.2.1]; omega) (fun _ => hlegal.2.1) fun s₂ h₂ => ?_
  have h₁₂ := h₁.trans h₂
  refine accepts_arguments hargs h₂.stream (h₁₂.error.trans herror) (h₁₂.allowsIn.trans hin)
    hlegal.2.2 hspans (fun hn => by cases hn) (fun k hk s₃ h₃ => ?_)
  cases hk
  exact hf s₃ ((h₁₂.trans h₃).cast (by simp [lexemes]) (by simp [Calm]))

/-- `parseMemberExpression` reads the expression behind some `new` tokens, which it takes for
ones without arguments. -/
def TakenBehindNew (e : Phrase .expr) : Prop :=
  ∀ newCount, e.TakenBy
    (fun allowsIn t => allowsIn = true ∧ (15 ≤ e.rank ∧ (newCount ≠ 0 → e.rank ≠ 16)) ∧
      Ends 15 allowsIn t)
    (createNewExprs e.build newCount) (Accepts (memberFrom newCount))

theorem TakenAsMember.behindNew (h : e.TakenAsMember) (hrank : 16 ≤ e.rank) :
    e.TakenBehindNew := by
  rintro newCount a b s hspans hs herror hlegal ⟨hin, ⟨-, hnew⟩, hends⟩
  have hle := e.rank_le
  refine h hspans hs herror hin (hin ▸ hlegal) hrank (fun hne => ?_) fun s' h' => ?_
  · have := hnew hne
    omega
  · exact accepts_memberEnd h'.stream hends.suffix ⟨rfl, h'⟩

theorem takenBehindNew_new (h : callee.TakenBehindNew) : (newNoArgs callee).TakenBehindNew := by
  rintro newCount a b s hspans hs herror hlegal ⟨hin, -, hends⟩
  obtain ⟨hparts, -⟩ := spans_iff.mp hspans
  obtain ⟨n, hx, hcallee⟩ := by simpa [parts] using hparts
  refine accepts_new hs hx fun s₁ h₁ => ?_
  have hin₁ := h₁.allowsIn
  have hrank : 15 ≤ callee.rank ∧ (newCount + 1 ≠ 0 → callee.rank ≠ 16) := by
    have := hlegal.2
    omega
  refine (h (newCount + 1) hcallee h₁.stream (h₁.error.trans herror) ?_ ?_).mono ?_
  · rw [hin₁, hin]
    exact hlegal.1
  · rw [hin₁]
    exact ⟨hin, hrank, hends⟩
  · rintro _ s₂ ⟨rfl, h₂⟩
    exact ⟨rfl, (h₁.trans h₂).cast (by simp [lexemes]) (by simp [Calm])⟩

theorem TakenBehindNew.member (h : e.TakenBehindNew) : e.TakenBy
    (fun allowsIn t => allowsIn = true ∧ 15 ≤ e.rank ∧ Ends 15 allowsIn t) e.build
      (parser.Answers .memberExpression) := by
  rintro a b s hspans hs herror hlegal ⟨hin, hrank, hends⟩
  exact answers_production.mpr (h 0 hspans hs herror hlegal ⟨hin, ⟨hrank, absurd rfl⟩, hends⟩)

end Member

end Phrase

/-! ## Unary expressions -/

/-- The body of `parseUnaryExpression`, behind some prefix operators. -/
def unaryFrom (tokenStackDepth : Nat) : Parse Node := do
  let tokenStackDepth ← orReturnNull (← parse (.unaryTokensLoop tokenStackDepth))
  let expr ← failIfNull (← parse .memberExpression)
  let expr ← parsePostfix expr
  makeUnaryNodes expr tokenStackDepth

section Unary

variable {s : ParserState} {a m b : Stream} {tokenStackDepth : Nat} {Q : Node → ParserState → Prop}

/-- The state behind a prefix operator that was put on its stack. -/
def ParserState.withUnary (s : ParserState) (op : UnaryToken) : ParserState :=
  { s with regs := { s.regs with
    nonLHSCount := s.regs.nonLHSCount + 1
    context := { s.regs.context with unaryToken := op.1 :: s.regs.context.unaryToken } } }

/-- One more prefix operator. -/
theorem accepts_unaryToken {op : UnaryToken} (hs : s.stream = a)
    (hx : (Lexeme.mark op.1).Step a m)
    (hf : ∀ s', Arrives (s.withUnary op) [.mark op.1] True m s' →
      Accepts (unaryFrom (tokenStackDepth + 1)) s' Q) : Accepts (unaryFrom tokenStackDepth) s Q := by
  refine accepts_orNull.mpr (answers_production.mpr (accepts_tokenType ?_))
  rw [token_eq hs, hx.1, if_pos op.2]
  refine accepts_bumpNonLHSCount (accepts_modifyStacks ?_)
  exact accepts_skip (s := s.withUnary op) hs hx
    fun s' h => accepts_last.mpr (accepts_orNull.mp (hf s' h))

/-- The operators are behind, the expression in front. -/
theorem accepts_operand (hs : s.stream = a) (ht : a.token.type.isUnaryOp = false)
    (hf : parser.Answers .memberExpression s fun expr s' =>
      Accepts (parsePostfix expr) s' fun expr s' =>
        Accepts (makeUnaryNodes expr tokenStackDepth) s' Q) :
    Accepts (unaryFrom tokenStackDepth) s Q := by
  refine accepts_orNull.mpr (answers_production.mpr (accepts_tokenType ?_))
  rw [token_eq hs, ht]
  exact accepts_pure (accepts_orFail (hf.mono fun _ _ h => accepts_bind.mpr h))

/-- No postfix operator follows. -/
theorem accepts_noPostfix {expr : Node} (hs : s.stream = a)
    (ht : a.token.type ≠ .plusPlus ∧ a.token.type ≠ .minusMinus) (hQ : Q expr s) :
    Accepts (parsePostfix expr) s Q := by
  refine accepts_tokenType ?_
  rw [token_eq hs]
  split
  case h_1 h => exact absurd h ht.1
  case h_2 h => exact absurd h ht.2
  case h_3 => exact accepts_pure hQ

/-- A postfix operator does. -/
theorem accepts_postfix {expr : Node} {increment : Bool} (hs : s.stream = a)
    (hx : (Lexeme.mark (if increment then .plusPlus else .minusMinus)).Step a b)
    (hQ : ∀ s', Arrives s [.mark (if increment then .plusPlus else .minusMinus)] False b s' →
      Q (Builder.makePostfixNode expr (if increment then .opPlusPlus else .opMinusMinus)) s') :
    Accepts (parsePostfix expr) s Q := by
  have hbump : Arrives s [] False a
      { s with regs := { s.regs with nonLHSCount := s.regs.nonLHSCount + 1 } } :=
    (Arrives.refl hs).bump
  refine accepts_tokenType ?_
  rw [token_eq hs, hx.1]
  cases increment with
  | true =>
      refine accepts_bumpNonLHSCount (accepts_skip hbump.stream hx fun s' h => accepts_pure ?_)
      exact hQ s' ((hbump.trans h).cast rfl (by simp))
  | false =>
      refine accepts_bumpNonLHSCount (accepts_skip hbump.stream hx fun s' h => accepts_pure ?_)
      exact hQ s' ((hbump.trans h).cast rfl (by simp))

end Unary

namespace Phrase

/-- Behind some prefix operators, `parseUnaryExpression` reads the expression before it takes the
operators off their stack. -/
def TakenAsUnary (e : Phrase .expr) : Prop :=
  ∀ {a b : Stream} {s : ParserState} {tokenStackDepth : Nat} {Q : Node → ParserState → Prop},
    e.Spans a b → s.stream = a → s.error = false → s.regs.allowsIn = true → e.Legal true →
      13 ≤ e.rank → Ends 13 true b.token.type →
        (∀ s', Arrives s e.lexemes e.Calm b s' →
          Accepts (makeUnaryNodes e.build tokenStackDepth) s' Q) →
            Accepts (unaryFrom tokenStackDepth) s Q

section Unary

variable {e : Phrase .expr}

theorem takenAsUnary_member (hrank : 15 ≤ e.rank) (h : e.TakenBehindNew) : e.TakenAsUnary := by
  intro a b s tokenStackDepth Q hspans hs herror hin hlegal _ hends hf
  have hunary := head_not_unary hlegal (by omega)
  have hends' : Ends 15 true b.token.type := hends.mono (by omega)
  refine accepts_operand hs (hspans.head ▸ hunary) ?_
  refine (h.member hspans hs herror (hin ▸ hlegal) ⟨hin, hrank, hin ▸ hends'⟩).mono ?_
  rintro _ s' ⟨rfl, h'⟩
  exact accepts_noPostfix h'.stream hends.postOp (hf s' h')

theorem takenAsUnary_postOp {increment : Bool} (h : e.TakenBehindNew) :
    (postOp increment e).TakenAsUnary := by
  intro a b s tokenStackDepth Q hspans hs herror hin hlegal hrank hends hf
  have hunary := head_not_unary (e := postOp increment e) hlegal (by simp [rank])
  obtain ⟨hparts, -⟩ := spans_iff.mp hspans
  obtain ⟨m, he, hx⟩ := by simpa [parts] using hparts
  refine accepts_operand hs (hspans.head ▸ hunary) ?_
  have hends' : Ends 15 s.regs.allowsIn m.token.type := by
    rw [hx.1]
    cases increment with
    | true => exact ends_of_some rfl (by omega)
    | false => exact ends_of_some rfl (by omega)
  refine (h.member he hs herror (hin ▸ hlegal.1) ⟨hin, hlegal.2, hends'⟩).mono ?_
  rintro _ s₁ ⟨rfl, h₁⟩
  refine accepts_postfix h₁.stream hx fun s₂ h₂ => hf s₂ ?_
  exact (h₁.trans h₂).cast rfl (by simp [Calm])

/-- The operator on top of the stack is the one that was read last. -/
theorem accepts_makeUnaryNodes {op : UnaryToken} {s s₁ s₂ : ParserState} {m b : Stream}
    {tokenStackDepth : Nat} {Q : Node → ParserState → Prop}
    (h₁ : Arrives (s.withUnary op) [.mark op.1] True m s₁)
    (h₂ : Arrives s₁ e.lexemes e.Calm b s₂)
    (hf : ∀ s', Arrives s (unary op e).lexemes False b s' →
      Accepts (makeUnaryNodes (unaryNode op.1 e.build) tokenStackDepth) s' Q) :
    Accepts (makeUnaryNodes e.build (tokenStackDepth + 1)) s₂ Q := by
  have h := h₁.trans h₂
  have hcontext : s₂.regs.context =
      { s.regs.context with unaryToken := op.1 :: s.regs.context.unaryToken } := h.context
  have hle : s.regs.nonLHSCount + 1 ≤ s₂.regs.nonLHSCount := h.le
  unfold makeUnaryNodes popUnaryToken
  refine accepts_bind.mpr (accepts_getStacks ?_)
  rw [hcontext]
  refine accepts_modifyStacks (accepts_pure ?_)
  rw [makeUnaryNode_eq]
  refine hf _ ⟨⟨⟨h.reads, h.tokenCount, ?_, ?_, h.allowsIn⟩, ?_⟩, h.stream, h.error⟩
  · exact (Nat.le_succ _).trans hle
  · refine iff_of_false (fun heq => ?_) id
    have heq : s₂.regs.nonLHSCount = s.regs.nonLHSCount := heq
    omega
  · show { s₂.regs.context with unaryToken := s.regs.context.unaryToken } = s.regs.context
    rw [hcontext]

theorem takenAsUnary_unary {op : UnaryToken} (h : e.TakenAsUnary) :
    (unary op e).TakenAsUnary := by
  intro a b s tokenStackDepth Q hspans hs herror hin hlegal _ hends hf
  obtain ⟨hparts, -⟩ := spans_iff.mp hspans
  obtain ⟨m, hx, he⟩ := by simpa [parts] using hparts
  refine accepts_unaryToken hs hx fun s₁ h₁ => ?_
  refine h he h₁.stream (h₁.error.trans herror) (h₁.allowsIn.trans hin) hlegal.1 hlegal.2 hends
    fun s₂ h₂ => ?_
  exact accepts_makeUnaryNodes h₁ h₂ hf

/-- `parseUnaryExpression` reads the expression, whatever `m_allowsIn` is. -/
theorem TakenAsUnary.unary (h : e.TakenAsUnary) :
    e.TakenBy (fun allowsIn t => 13 ≤ e.rank ∧ Ends 13 allowsIn t) e.build
      (parser.Answers .unaryExpression) := by
  rintro a b s hspans hs herror hlegal ⟨hrank, hends⟩
  have hends' : Ends 13 true b.token.type := by
    cases hin : s.regs.allowsIn with
    | true => exact hin ▸ hends
    | false =>
        by_cases ht : b.token.type = .inToken
        · rw [ht]
          exact ends_of_some rfl (by omega)
        · exact (hin ▸ hends).with_in ht
  refine answers_production.mpr (accepts_allowsIn (accepts_setAllowsIn ?_))
  have hbody : parser.Answers .unaryExpressionBody
      { s with regs := { s.regs with allowsIn := true } } fun node s' => node = e.build ∧
        Arrives { s with regs := { s.regs with allowsIn := true } } e.lexemes e.Calm b s' :=
    answers_production.mpr (@h a b _ 0 _ hspans hs herror rfl hlegal.mono hrank hends'
      fun s' h' => accepts_pure ⟨rfl, h'⟩)
  obtain ⟨node, s', hreturns, rfl, h'⟩ := hbody
  refine accepts_parse hreturns (accepts_setAllowsIn (accepts_pure ⟨rfl, ?_⟩))
  exact h'.withAllowsIn rfl

end Unary

end Phrase

end HammerJS
