import HammerJS.Syntax.OperandsAccepted
import HammerJS.Syntax.PrimariesAccepted

/-!
# The productions accept expressions

From `parseBinaryExpression` up to `parseExpression`, over the phrases that they should accept,
where `parseUnaryExpression` does so of the operands.

* `Phrase.TakenAsBinary` — an expression is read and reduced before the operator behind it is.
* `Phrase.TakenAsChain` — a chain of assignments is read and built from its end.
-/

namespace HammerJS

open Procs Machine Lexer Parse

variable [Platform]

/-! ## Binary expressions -/

omit [Platform] in
/-- Where `in` may be an operator, every binary operator is one. -/
theorem BinaryToken.isBinaryOperator_ne_zero (op : BinaryToken) {allowsIn : Bool}
    (h : op.1 = .inToken → allowsIn = true) : op.1.isBinaryOperator allowsIn ≠ 0 := by
  obtain ⟨t, ht⟩ := op
  revert ht h
  cases allowsIn <;> cases t <;> decide

/-- The rest of the loop of `parseBinaryExpression`, behind an operand. -/
def binaryLoopRest (operandStackDepth operatorStackDepth : Nat) : Parse (Nat × Nat) := do
  let precedence ← binaryPrecedence
  if precedence = 0 then return (operandStackDepth + 1, operatorStackDepth)
  else
    bumpNonLHSCount
    let operatorToken ← tokenType
    next
    let (operandStackDepth, operatorStackDepth) ←
      reduceHigher precedence (operandStackDepth + 1) operatorStackDepth
    operatorStackAppend operatorToken precedence
    orReturnNull (← parse (.binaryLoop operandStackDepth (operatorStackDepth + 1)))

/-- What `parseBinaryExpression` does behind its loop. -/
def binaryEnd (depths : Nat × Nat) : Parse Node := do
  reduceAll depths.1 depths.2
  popOperandStack

/-- The rest of `parseBinaryExpression`, behind an operand with `depth` operators before it. -/
def binaryRest (depth : Nat) : Parse Node := binaryLoopRest depth depth >>= binaryEnd

/-- The rest of the loop behind an operator and the reductions that it asks for. -/
def pushOperator (operatorToken : JSTokenType) (precedence : Nat) (depths : Nat × Nat) :
    Parse (Nat × Nat) := do
  operatorStackAppend operatorToken precedence
  orReturnNull (← parse (.binaryLoop depths.1 (depths.2 + 1)))

/-- The rest of `parseBinaryExpression` behind an operator. -/
def binaryOperatorRest (operatorToken : JSTokenType) (precedence operandStackDepth
    operatorStackDepth : Nat) : Parse Node :=
  (reduceHigher precedence operandStackDepth operatorStackDepth >>=
    pushOperator operatorToken precedence) >>= binaryEnd

/-- `parseBinaryExpression`, behind `depth` operators. -/
def binaryFrom (depth : Nat) : Parse Node := do
  binaryEnd (← orReturnNull (← parse (.binaryLoop depth depth)))

/-- The node for a binary operator. -/
def binaryNode (op : BinaryToken) (left right : Node) : Node :=
  ((Node.ofOperator .binaryExpression op.operator).append (some left)).append (some right)

/-- The state with one operand more on its stack. -/
def ParserState.pushed (s : ParserState) (node : Node) : ParserState :=
  { s with regs := { s.regs with context := { s.regs.context with
    binaryOperand := node :: s.regs.context.binaryOperand } } }

/-- The state with one more counted in `m_nonLHSCount`. -/
def ParserState.bumped (s : ParserState) : ParserState :=
  { s with regs := { s.regs with nonLHSCount := s.regs.nonLHSCount + 1 } }

/-- The state behind a reduction. -/
def ParserState.reduced (s : ParserState) (node : Node) (operands : List Node)
    (operators : List (JSTokenType × Nat)) : ParserState :=
  { s with regs := { s.regs with context := { s.regs.context with
    binaryOperand := node :: operands
    binaryOperator := operators } } }

section Binary

variable {s : ParserState} {a m b : Stream} {depth : Nat} {Q : Node → ParserState → Prop}

/-- The next operand. -/
theorem accepts_binaryOperand
    (hf : parser.Answers .unaryExpression s fun node s' =>
      Accepts (binaryRest depth) (s'.pushed node) Q) : Accepts (binaryFrom depth) s Q := by
  refine accepts_orNull.mpr (answers_production.mpr (accepts_orFail (hf.mono fun node s' h => ?_)))
  exact accepts_modifyStacks (accepts_bind.mp h)

/-- One reduction joins the last two operands. -/
theorem accepts_reduceOperands {op : BinaryToken} {left right : Node} {operands : List Node}
    {precedence : Nat} {operators : List (JSTokenType × Nat)} {β : Type} {f : Unit → Parse β}
    {Q : β → ParserState → Prop}
    (hoperand : s.regs.context.binaryOperand = right :: left :: operands)
    (hoperator : s.regs.context.binaryOperator = (op.1, precedence) :: operators)
    (hf : Accepts (f ()) (s.reduced (binaryNode op left right) operands operators) Q) :
    Accepts (reduceOperands >>= f) s Q := by
  have hconv : convertToken op.1 = some op.operator := (Option.some_get _).symm
  refine accepts_bind.mpr (accepts_getStacks ?_)
  simp only [hoperand, hoperator, Builder.makeBinaryNode, hconv, Option.map_some]
  exact accepts_bind.mp (accepts_modifyStacks hf)

/-- Behind an operand, an operator may follow. -/
theorem accepts_binaryRest {precedence : Nat}
    (hprecedence : s.token.type.isBinaryOperator s.regs.allowsIn = precedence) :
    Accepts (binaryRest depth) s Q ↔ if precedence = 0 then
      Accepts (binaryEnd (depth + 1, depth)) s Q
    else ∃ t, s.bumped.Next .identifyReservedWords t ∧
      Accepts (binaryOperatorRest s.token.type precedence (depth + 1) depth) t Q := by
  subst hprecedence
  refine accepts_bind.trans ((accepts_command_iff (o := .token) rfl).trans
    ((accepts_command_iff (o := .getRegs) rfl).trans ?_))
  dsimp only
  split
  · exact attains_pure
  · refine accepts_modifyRegs_iff.trans ((accepts_command_iff (o := .token) rfl).trans ?_)
    refine accepts_next_iff.trans (exists_congr fun t => and_congr_right fun _ => ?_)
    exact accepts_bind.symm

/-- **Before an operator that does not bind more tightly than the last one**, and at the end, the
last two operands are joined. -/
theorem accepts_reduce {op : BinaryToken} {left right : Node} {operands : List Node}
    {precedence : Nat} {operators : List (JSTokenType × Nat)}
    (hoperand : s.regs.context.binaryOperand = right :: left :: operands)
    (hoperator : s.regs.context.binaryOperator = (op.1, precedence) :: operators)
    (hnext : s.token.type.isBinaryOperator s.regs.allowsIn ≤ precedence)
    (hf : Accepts (binaryRest depth) (s.reduced (binaryNode op left right) operands operators) Q) :
    Accepts (binaryRest (depth + 1)) s Q := by
  have hdepth : decide (1 < depth + 1 + 1) = true := decide_eq_true (by omega)
  generalize hp : s.token.type.isBinaryOperator s.regs.allowsIn = next at hnext
  refine (accepts_binaryRest hp).mpr ?_
  replace hf := (accepts_binaryRest (s := s.reduced _ _ _) hp).mp hf
  split
  case isTrue h =>
    rw [if_pos h] at hf
    refine accepts_bind.mpr (accepts_assert hdepth (accepts_reduceOperands hoperand hoperator ?_))
    exact accepts_bind.mp hf
  case isFalse h =>
    rw [if_neg h] at hf
    obtain ⟨_, hnext', hf⟩ := hf
    obtain ⟨t, hn, rfl, hregs⟩ := next_withRegs (s := s.bumped) hnext'
    have hcontext : t.regs.context = s.regs.context := by rw [hregs]; rfl
    have hhigher : Accepts (operatorStackHasHigherPrecedence next) t fun c s' =>
        c = true ∧ s' = t := by
      refine accepts_getStacks ?_
      rw [hcontext, hoperator]
      exact accepts_pure ⟨decide_eq_true hnext, rfl⟩
    have hstep : Accepts (reduceHigher next (depth + 2) (depth + 1)) t fun r s' =>
        Accepts (pushOperator s.token.type next r) s' fun depths s' =>
          Accepts (binaryEnd depths) s' Q := by
      refine accepts_bind.mpr (hhigher.mono ?_)
      rintro _ _ ⟨rfl, hsame⟩
      rw [hsame]
      refine accepts_assert hdepth
        (accepts_reduceOperands (hcontext ▸ hoperand) (hcontext ▸ hoperator) ?_)
      have hregs' : t.reduced (binaryNode op left right) operands operators =
          { t with regs := (s.reduced (binaryNode op left right) operands operators).bumped.regs } := by
        unfold ParserState.reduced
        rw [hregs]
        rfl
      rw [hregs']
      exact accepts_bind.mp (accepts_bind.mp hf)
    exact ⟨t, hn, accepts_bind.mpr (accepts_bind.mpr hstep)⟩

/-- The state with one operator more on its stack. -/
def ParserState.withOperator (s : ParserState) (operator : JSTokenType) (precedence : Nat) :
    ParserState :=
  { s with regs := { s.regs with context := { s.regs.context with
    binaryOperator := (operator, precedence) :: s.regs.context.binaryOperator } } }

/-- Behind `depth` operators, the last one binds less tightly than the rank. -/
def ParserState.TopBelow (s : ParserState) (depth rank : Nat) : Prop :=
  depth ≠ 0 → ∃ (op : BinaryToken) (operators : List (JSTokenType × Nat)),
    s.regs.context.binaryOperator = (op.1, op.1.isBinaryOperator s.regs.allowsIn) :: operators ∧
      op.1.isBinaryOperator s.regs.allowsIn ≠ 0 ∧ 2 + op.precedence < rank

/-- Nothing is joined before an operator that binds more tightly than the last one. -/
theorem accepts_notHigher {op : BinaryToken} {Q : Nat × Nat → ParserState → Prop}
    (hop : op.1.isBinaryOperator s.regs.allowsIn ≠ 0)
    (htop : s.TopBelow depth (2 + op.precedence)) (hQ : Q (depth + 1, depth) s) :
    Accepts (reduceHigher (op.1.isBinaryOperator s.regs.allowsIn) (depth + 1) depth) s Q := by
  cases depth with
  | zero => exact accepts_pure hQ
  | succ depth =>
      obtain ⟨top, operators, hoperators, hne, hlt⟩ := htop (Nat.succ_ne_zero depth)
      have hlower : ¬ op.1.isBinaryOperator s.regs.allowsIn ≤
          top.1.isBinaryOperator s.regs.allowsIn := by
        rw [isBinaryOperator_le_iff hop hne]
        omega
      refine accepts_bind.mpr (accepts_getStacks ?_)
      rw [hoperators]
      refine accepts_pure ?_
      rw [decide_eq_false hlower]
      exact accepts_pure hQ

/-- An operator that binds more tightly than the last one. -/
theorem accepts_binaryOperator {op : BinaryToken} (hs : s.stream = a)
    (hx : (Lexeme.mark op.1).Step a m) (hop : op.1.isBinaryOperator s.regs.allowsIn ≠ 0)
    (htop : s.TopBelow depth (2 + op.precedence))
    (hf : ∀ s', Arrives s [.mark op.1] False m s' → Accepts (binaryFrom (depth + 1))
      (s'.withOperator op.1 (op.1.isBinaryOperator s.regs.allowsIn)) Q) :
    Accepts (binaryRest depth) s Q := by
  have ht : s.token.type = op.1 := token_eq hs ▸ hx.1
  have hbumped : Arrives s [] False a s.bumped := (Arrives.refl hs).bump
  obtain ⟨t, hn, h⟩ := arrives_next hbumped.stream hx hx.2
  refine (accepts_binaryRest rfl).mpr ?_
  rw [ht, if_neg hop]
  refine ⟨t, hn, accepts_bind.mpr (accepts_bind.mpr ?_)⟩
  have hregs := congrArg ParserState.regs hn.eq.2
  have hin : t.regs.allowsIn = s.regs.allowsIn := by rw [hregs]; rfl
  have hcontext : t.regs.context = s.regs.context := by rw [hregs]; rfl
  have htop' : t.TopBelow depth (2 + op.precedence) := by
    unfold ParserState.TopBelow
    rw [hin, hcontext]
    exact htop
  rw [← hin] at hop ⊢
  refine accepts_notHigher hop htop' (accepts_modifyStacks ?_)
  have harrives : Arrives s [.mark op.1] False m t := (hbumped.trans h).cast rfl (by simp)
  have := hf t harrives
  rw [← hin] at this
  exact accepts_last.mpr (accepts_orNull.mp this)

end Binary

namespace Phrase

/-- Behind `depth` operators, `parseBinaryExpression` reads the expression and joins its operands,
where the last of these operators binds less tightly than it and none more tightly follows. -/
def TakenAsBinary (e : Phrase .expr) : Prop :=
  ∀ {a b : Stream} {s : ParserState} {depth : Nat} {Q : Node → ParserState → Prop},
    e.Spans a b → s.stream = a → s.error = false → e.Legal s.regs.allowsIn → 3 ≤ e.rank →
      Ends 13 s.regs.allowsIn b.token.type → s.TopBelow depth e.rank →
        (∀ op : BinaryToken, b.token.type = op.1 → op.1.isBinaryOperator s.regs.allowsIn ≠ 0 →
          2 + op.precedence ≤ e.rank) →
          (∀ s', Arrives s e.lexemes e.Calm b s' →
            Accepts (binaryRest depth) (s'.pushed e.build) Q) → Accepts (binaryFrom depth) s Q

section Binary

variable {e left right : Phrase .expr} {op : BinaryToken}

theorem takenAsBinary_operand (hrank : 13 ≤ e.rank) (h : e.TakenAsUnary) : e.TakenAsBinary := by
  intro a b s depth Q hspans hs herror hlegal _ hends _ _ hf
  refine accepts_binaryOperand ((h.unary hspans hs herror hlegal ⟨hrank, hends⟩).mono ?_)
  rintro _ s' ⟨rfl, h'⟩
  exact hf s' h'

theorem takenAsBinary_binary (hleft : left.TakenAsBinary) (hright : right.TakenAsBinary) :
    (binary left op right).TakenAsBinary := by
  intro a b s depth Q hspans hs herror hlegal _ hends htop hnext hf
  obtain ⟨hparts, -⟩ := spans_iff.mp hspans
  obtain ⟨m, hspans₁, n, hx, hspans₂⟩ := by simpa [parts] using hparts
  obtain ⟨⟨hlegal₁, hrank₁⟩, ⟨hlegal₂, hrank₂⟩, hin⟩ := hlegal
  have hrange := op.precedence_range
  simp only [rank] at htop hnext
  have hop := op.isBinaryOperator_ne_zero hin
  refine hleft hspans₁ hs herror hlegal₁ (by omega) (hx.1 ▸ ends_operand op) ?_ ?_ ?_
  · intro hdepth
    obtain ⟨top, operators, hoperators, hne, hlt⟩ := htop hdepth
    exact ⟨top, operators, hoperators, hne, by omega⟩
  · intro op' hop' _
    have heq : op = op' := Subtype.ext (hx.1.symm.trans hop')
    exact heq ▸ hrank₁
  intro s₁ h₁
  have hin₁ : (s₁.pushed left.build).regs.allowsIn = s.regs.allowsIn := h₁.allowsIn
  refine accepts_binaryOperator (s := s₁.pushed left.build) h₁.stream hx (hin₁ ▸ hop) ?_ ?_
  · intro hdepth
    obtain ⟨top, operators, hoperators, hne, hlt⟩ := htop hdepth
    refine ⟨top, operators, ?_, hin₁ ▸ hne, hlt⟩
    rw [hin₁, ← hoperators]
    show s₁.regs.context.binaryOperator = s.regs.context.binaryOperator
    rw [h₁.context]
  intro s₂ h₂
  rw [hin₁]
  have hin₂ : (s₂.withOperator op.1 (op.1.isBinaryOperator s.regs.allowsIn)).regs.allowsIn =
      s.regs.allowsIn := h₂.allowsIn.trans hin₁
  have herror₂ : s₂.error = false := (h₂.error.trans h₁.error).trans herror
  refine hright (s := s₂.withOperator op.1 _) hspans₂ h₂.stream herror₂ (hin₂ ▸ hlegal₂) (by omega)
    (hin₂ ▸ hends) ?_ ?_ ?_
  · intro _
    exact ⟨op, _, by rw [hin₂]; rfl, hin₂ ▸ hop, hrank₂⟩
  · intro op' hop' hne
    have := hnext op' hop' (hin₂ ▸ hne)
    omega
  intro s₃ h₃
  have hcontext₂ : s₂.regs.context = { s.regs.context with
      binaryOperand := left.build :: s.regs.context.binaryOperand } := by
    rw [h₂.context, ← h₁.context]
    rfl
  have hcontext₃ : s₃.regs.context = { s.regs.context with
      binaryOperand := left.build :: s.regs.context.binaryOperand
      binaryOperator := (op.1, op.1.isBinaryOperator s.regs.allowsIn) ::
        s.regs.context.binaryOperator } := by
    rw [h₃.context]
    simp only [ParserState.withOperator, hcontext₂]
  have hoperands : (s₃.pushed right.build).regs.context.binaryOperand =
      right.build :: left.build :: s.regs.context.binaryOperand := by
    simp only [ParserState.pushed, hcontext₃]
  have hoperators : (s₃.pushed right.build).regs.context.binaryOperator =
      (op.1, op.1.isBinaryOperator s.regs.allowsIn) :: s.regs.context.binaryOperator := by
    simp only [ParserState.pushed, hcontext₃]
  refine accepts_reduce hoperands hoperators ?_ ?_
  · show s₃.token.type.isBinaryOperator s₃.regs.allowsIn ≤ _
    rw [token_eq h₃.stream, h₃.allowsIn.trans hin₂]
    by_cases hne : b.token.type.isBinaryOperator s.regs.allowsIn = 0
    · omega
    · have hle := hnext ⟨_, isBinaryOperator_true hne⟩ rfl hne
      exact (@isBinaryOperator_le_iff ⟨_, isBinaryOperator_true hne⟩ op _ hne hop).mpr
        (by omega)
  · have harrives : Arrives s (binary left op right).lexemes False b
        { s₃ with regs := { s₃.regs with context := s.regs.context } } := by
      have hc₂ : Consumed s₁ [.mark op.1] False s₂ :=
        h₂.toConsumed.congr rfl rfl rfl rfl rfl rfl rfl rfl
      have hc₃ : Consumed s₂ right.lexemes right.Calm s₃ :=
        h₃.toConsumed.congr rfl rfl rfl rfl rfl rfl rfl rfl
      refine ⟨(((h₁.toConsumed.trans hc₂).trans hc₃).cast ?_ (by simp)).read rfl, h₃.stream,
        h₃.error.trans (h₂.error.trans h₁.error)⟩
      simp [lexemes]
    have hstate : (s₃.pushed right.build).reduced (binaryNode op left.build right.build)
        s.regs.context.binaryOperand s.regs.context.binaryOperator =
          ParserState.pushed { s₃ with regs := { s₃.regs with context := s.regs.context } }
            (binary left op right).build := by
      simp only [ParserState.pushed, ParserState.reduced, hcontext₃]
      rfl
    rw [hstate]
    exact hf _ (harrives.cast rfl (by simp [Calm]))

/-- **`parseBinaryExpression` reads an expression of binary operators.** -/
theorem TakenAsBinary.expression (h : e.TakenAsBinary) :
    e.TakenBy (fun allowsIn t => 3 ≤ e.rank ∧ Ends 3 allowsIn t) e.build
      (parser.Answers .binaryExpression) := by
  rintro a b s hspans hs herror hlegal ⟨hrank, hends⟩
  refine answers_production.mpr (@h a b s 0 _ hspans hs herror hlegal hrank
    (hends.mono (by omega)) (absurd rfl) ?_ ?_)
  · rintro op hop hne
    exact absurd (hop ▸ hends).binary hne
  intro s' h'
  have hlast : s'.token.type.isBinaryOperator s'.regs.allowsIn = 0 := by
    rw [token_eq h'.stream, h'.allowsIn]
    exact hends.binary
  refine (accepts_binaryRest (s := s'.pushed e.build) hlast).mpr ?_
  rw [if_pos rfl]
  refine accepts_pure_bind (accepts_getStacks (accepts_modifyStacks (accepts_pure ⟨rfl, ?_⟩)))
  exact h'

end Binary

/-! ## Conditional expressions -/

section Conditional

variable {e test left right : Phrase .expr}

/-- `parseConditionalExpression` reads the expression, where no `?` follows one that is not
conditional, and no assignment one that is. -/
abbrev TakenAsConditional (e : Phrase .expr) : Prop :=
  e.TakenBy (fun allowsIn t => (3 ≤ e.rank ∧ Ends 2 allowsIn t) ∨ (2 ≤ e.rank ∧ Ends 1 allowsIn t))
    e.build (parser.Answers .conditionalExpression)

theorem TakenAsBinary.conditional (hrank : 3 ≤ e.rank) (h : e.TakenAsBinary) :
    e.TakenAsConditional := by
  intro a b s hspans hs herror hlegal hpre
  have hends : Ends 2 s.regs.allowsIn b.token.type := by
    rcases hpre with ⟨-, h⟩ | ⟨-, h⟩
    · exact h
    · exact h.mono (by omega)
  refine answers_production.mpr (accepts_orFail ?_)
  refine (h.expression hspans hs herror hlegal ⟨hrank, hends.mono (by omega)⟩).mono ?_
  rintro _ s' ⟨rfl, h'⟩
  exact accepts_noMatch h'.stream hends.question (accepts_pure ⟨rfl, h'⟩)

theorem takenAsConditional_cond (htest : test.TakenAsBinary) (hleft : left.TakenAsAssignment)
    (hright : right.TakenAsAssignment) : (cond test left right).TakenAsConditional := by
  intro a b s hspans hs herror hlegal hpre
  obtain ⟨hparts, -⟩ := spans_iff.mp hspans
  obtain ⟨n₁, hspans₁, n₂, hquestion, n₃, hspans₂, n₄, hcolon, hspans₃⟩ := by
    simpa [parts] using hparts
  obtain ⟨⟨hlegal₁, hrank₁⟩, ⟨hlegal₂, hrank₂⟩, hlegal₃, hrank₃⟩ := hlegal
  have hends : Ends 1 s.regs.allowsIn b.token.type := by
    rcases hpre with ⟨h, -⟩ | ⟨-, h⟩
    · exact absurd h (by simp [rank])
    · exact h
  refine answers_production.mpr (accepts_orFail ?_)
  have hends₁ : Ends 3 s.regs.allowsIn n₁.token.type := by
    rw [hquestion.1]
    exact ends_of_some rfl (by omega)
  refine (htest.expression hspans₁ hs herror hlegal₁ ⟨hrank₁, hends₁⟩).mono ?_
  rintro _ s₁ ⟨rfl, h₁⟩
  refine accepts_match h₁.stream hquestion.1 (accepts_bumpNonLHSCount ?_)
  refine accepts_skip h₁.bump.stream hquestion fun s₂ h₂ => ?_
  have h₁₂ := h₁.bump.trans h₂
  have hin₂ := h₁₂.allowsIn
  have hends₂ : Ends 1 s₂.regs.allowsIn n₃.token.type := by
    rw [hcolon.1]
    exact ends_other rfl
  obtain ⟨node, s₃, hreturns, rfl, h₃⟩ := hleft hspans₂ h₂.stream (h₁₂.error.trans herror)
    (hin₂ ▸ hlegal₂) ⟨hrank₂, hends₂⟩
  refine accepts_parse hreturns ?_
  have h₁₃ := h₁₂.trans h₃
  refine accepts_consumeMark h₃.stream hcolon fun s₄ h₄ => accepts_orFail ?_
  have h₁₄ := h₁₃.trans h₄
  have hin₄ := h₁₄.allowsIn
  refine (hright hspans₃ h₄.stream (h₁₄.error.trans herror) (hin₄ ▸ hlegal₃)
    ⟨hrank₃, hin₄ ▸ hends⟩).mono ?_
  rintro _ s₅ ⟨rfl, h₅⟩
  exact accepts_pure ⟨rfl, (h₁₄.trans h₅).cast (by simp [lexemes]) (by simp [Calm])⟩

end Conditional

end Phrase

/-! ## Assignments -/

/-- What `parseAssignmentExpression` does behind an operand: the loop, unless there is no left-hand
side, and its assignments. -/
def assignmentRest (lhs : Node) (assignmentStack initialNonLHSCount : Nat) : Parse Node := do
  if initialNonLHSCount ≠ (← nonLHSCount) then assignmentEnd (lhs, assignmentStack)
  else
    let r ← orReturnNull (← parse (.assignmentLoop lhs assignmentStack initialNonLHSCount))
    assignmentEnd r
where
  /-- The end of the production. -/
  assignmentEnd (r : Node × Nat) : Parse Node := do
    if r.2 ≠ 0 then bumpNonLHSCount
    createAssignments r.1 r.2

section Assignments

variable {s : ParserState} {a m b : Stream} {n : Nat} {Q : Node → ParserState → Prop}

/-- The state with one assignment more on its stack. -/
def ParserState.withAssignment (s : ParserState) (node : Node) (op : Operator) : ParserState :=
  { s with regs := { s.regs with context := { s.regs.context with
    assignmentInfo := (node, op) :: s.regs.context.assignmentInfo } } }

/-- The first operand. -/
theorem accepts_assignmentExpression (hf : parser.Answers .conditionalExpression s fun lhs s' =>
    Accepts (assignmentRest lhs 0 s.regs.nonLHSCount) s' Q) :
    parser.Answers .assignmentExpression s Q := by
  refine answers_production.mpr (accepts_nonLHSCount (accepts_orFail (hf.mono fun lhs s' h => ?_)))
  replace h := accepts_nonLHSCount_iff.mp h
  refine accepts_nonLHSCount ?_
  split
  case isTrue hne =>
    rw [if_pos hne] at h
    exact h
  case isFalse heq =>
    rw [if_neg heq] at h
    exact h

/-- One more operand. -/
theorem accepts_assignment {lhs : Node} {op : AssignmentToken} (hs : s.stream = a)
    (hx : (Lexeme.mark op.1).Step a m)
    (hf : ∀ s', Arrives (s.withAssignment lhs op.operator) [.mark op.1] True m s' →
      parser.Answers .conditionalExpression s' fun rhs s' =>
        Accepts (assignmentRest rhs (n + 1) s.regs.nonLHSCount) s' Q) :
    Accepts (assignmentRest lhs n s.regs.nonLHSCount) s Q := by
  refine accepts_nonLHSCount ?_
  rw [if_neg (by simp)]
  refine accepts_orNull.mpr (answers_production.mpr ?_)
  refine accepts_tokenType ?_
  have hop : assignmentOperator op.1 = some op.operator := (Option.some_get _).symm
  rw [token_eq hs, hx.1, hop]
  refine accepts_modifyStacks ?_
  refine accepts_skip (s := s.withAssignment lhs op.operator) hs hx fun s' h => ?_
  refine accepts_orFail ((hf s' h).mono fun rhs s' h => ?_)
  replace h := accepts_nonLHSCount_iff.mp h
  refine accepts_nonLHSCount ?_
  split
  case isTrue hne =>
    rw [if_pos hne] at h
    exact accepts_pure h
  case isFalse heq =>
    rw [if_neg heq] at h
    exact accepts_last.mpr (accepts_orNull.mp h)

/-- The last operand, before a token that is no assignment. -/
theorem accepts_assignmentEnd {lhs : Node} {initialNonLHSCount : Nat} (hs : s.stream = a)
    (ht : assignmentOperator a.token.type = none)
    (hf : Accepts (createAssignments lhs n) (if n = 0 then s else s.bumped) Q) :
    Accepts (assignmentRest lhs n initialNonLHSCount) s Q := by
  have hend : Accepts (assignmentRest.assignmentEnd (lhs, n)) s Q := by
    cases n with
    | zero => exact hf
    | succ n => exact accepts_bumpNonLHSCount hf
  refine accepts_nonLHSCount ?_
  split
  case isTrue => exact hend
  case isFalse =>
    refine accepts_orNull.mpr (answers_production.mpr (accepts_tokenType ?_))
    rw [token_eq hs, ht]
    exact accepts_pure hend

end Assignments

namespace Phrase

/-- Behind `n` assignments, `parseAssignmentExpression` reads the expression, and the assignments
in it, before it builds the `n` assignments. -/
def TakenAsChain (e : Phrase .expr) : Prop :=
  ∀ {a b : Stream} {s : ParserState} {n : Nat} {Q : Node → ParserState → Prop},
    e.Spans a b → s.stream = a → s.error = false → e.Legal s.regs.allowsIn → 1 ≤ e.rank →
      Ends 1 s.regs.allowsIn b.token.type →
        (∀ s', Arrives s e.lexemes (n = 0 ∧ e.Calm) b s' →
          Accepts (createAssignments e.build n) s' Q) →
            parser.Answers .conditionalExpression s fun lhs s' =>
              Accepts (assignmentRest lhs n s.regs.nonLHSCount) s' Q

section Assignments

variable {e left right first second : Phrase .expr} {op : AssignmentToken} {rest : Phrase .exprs}

theorem TakenAsConditional.chain (hrank : 2 ≤ e.rank) (h : e.TakenAsConditional) :
    e.TakenAsChain := by
  intro a b s n Q hspans hs herror hlegal _ hends hf
  refine (h hspans hs herror hlegal (Or.inr ⟨hrank, hends⟩)).mono ?_
  rintro _ s' ⟨rfl, h'⟩
  refine accepts_assignmentEnd h'.stream hends.assignment ?_
  cases n with
  | zero => exact hf s' (h'.cast rfl (by simp))
  | succ n => exact hf s'.bumped (h'.bump.cast rfl (by simp))

theorem takenAsChain_assign (hleft : left.TakenAsConditional) (hright : right.TakenAsChain) :
    (assign left op right).TakenAsChain := by
  intro a b s n Q hspans hs herror hlegal _ hends hf
  obtain ⟨hparts, -⟩ := spans_iff.mp hspans
  obtain ⟨n₁, hspans₁, n₂, hx, hspans₂⟩ := by simpa [parts] using hparts
  obtain ⟨⟨hlegal₁, hcalm⟩, hlegal₂, hrank₂⟩ := hlegal
  have hrank₁ := hcalm.rank_ge
  refine (hleft hspans₁ hs herror hlegal₁ (Or.inl ⟨by omega, hx.1 ▸ ends_assigned op⟩)).mono ?_
  rintro _ s₁ ⟨rfl, h₁⟩
  -- the left-hand side did not count
  have hcount : s.regs.nonLHSCount = s₁.regs.nonLHSCount := (h₁.eq_iff.mpr hcalm).symm
  rw [hcount]
  refine accepts_assignment h₁.stream hx fun s₂ h₂ => ?_
  have hin₂ : s₂.regs.allowsIn = s.regs.allowsIn := h₂.allowsIn.trans h₁.allowsIn
  have hcount₂ : s₂.regs.nonLHSCount = s₁.regs.nonLHSCount := h₂.eq_iff.mpr trivial
  have herror₂ : s₂.error = false := (h₂.error.trans h₁.error).trans herror
  rw [← hcount₂]
  refine hright hspans₂ h₂.stream herror₂ (hin₂ ▸ hlegal₂) hrank₂ (hin₂ ▸ hends) fun s₃ h₃ => ?_
  have hcontext : s₃.regs.context = { s.regs.context with
      assignmentInfo := (left.build, op.operator) :: s.regs.context.assignmentInfo } := by
    rw [h₃.context, h₂.context, ← h₁.context]
    rfl
  refine accepts_bind.mpr (accepts_getStacks ?_)
  rw [hcontext]
  refine accepts_modifyStacks (accepts_pure (hf _ ?_))
  have hc₂ : Consumed s₁ [.mark op.1] True s₂ :=
    h₂.toConsumed.congr rfl rfl rfl rfl rfl rfl rfl rfl
  have hconsumed : Consumed s (assign left op right).lexemes
      (n = 0 ∧ (assign left op right).Calm) s₃ :=
    ((h₁.toConsumed.trans hc₂).trans h₃.toConsumed).cast (by simp [lexemes]) (by simp [Calm])
  exact ⟨hconsumed.read (by rw [hcontext]), h₃.stream,
    h₃.error.trans (h₂.error.trans h₁.error)⟩

/-- **`parseAssignmentExpression` reads the expression.** -/
theorem TakenAsChain.assignment (h : e.TakenAsChain) : e.TakenAsAssignment := by
  rintro a b s hspans hs herror hlegal ⟨hrank, hends⟩
  refine accepts_assignmentExpression (h hspans hs herror hlegal hrank hends fun s' h' => ?_)
  exact accepts_pure ⟨rfl, h'.cast rfl (by simp)⟩

/-! ## Sequences -/

theorem TakenAsAssignment.expression (hrank : 1 ≤ e.rank) (h : e.TakenAsAssignment) :
    e.TakenAsExpression := by
  intro a b s hspans hs herror hlegal hends
  refine answers_production.mpr (accepts_orFail ?_)
  refine (h hspans hs herror hlegal ⟨hrank, hends.mono (by omega)⟩).mono ?_
  rintro _ s' ⟨rfl, h'⟩
  exact accepts_noMatch h'.stream hends.comma (accepts_pure ⟨rfl, h'⟩)

theorem takenAsExpression_comma (hfirst : first.TakenAsAssignment)
    (hsecond : second.TakenAsAssignment) (hrest : rest.TakenAsExprs) :
    (comma first second rest).TakenAsExpression := by
  intro a b s hspans hs herror hlegal hends
  obtain ⟨hparts, -⟩ := spans_iff.mp hspans
  obtain ⟨n₁, hspans₁, n₂, hcomma, n₃, hspans₂, hspans₃⟩ := by simpa [parts] using hparts
  obtain ⟨⟨hlegal₁, hrank₁⟩, ⟨hlegal₂, hrank₂⟩, hlegal₃⟩ := hlegal
  have hends₁ : Ends 1 s.regs.allowsIn n₁.token.type := by
    rw [hcomma.1]
    exact ends_of_some rfl (by omega)
  refine answers_production.mpr (accepts_orFail ?_)
  refine (hfirst hspans₁ hs herror hlegal₁ ⟨hrank₁, hends₁⟩).mono ?_
  rintro _ s₁ ⟨rfl, h₁⟩
  refine accepts_match h₁.stream hcomma.1 (accepts_skip h₁.stream hcomma fun s₂ h₂ => ?_)
  have h₁₂ := (h₁.trans h₂).bump
  refine accepts_bumpNonLHSCount (accepts_orFail ?_)
  have hin₂ := h₁₂.allowsIn
  refine (hsecond hspans₂ h₁₂.stream (h₁₂.error.trans herror) (hin₂ ▸ hlegal₂)
    ⟨hrank₂, hin₂ ▸ exprs_end hspans₃ hends⟩).mono ?_
  rintro _ s₃ ⟨rfl, h₃⟩
  have h₁₃ := h₁₂.trans h₃
  have hin₃ := h₁₃.allowsIn
  refine accepts_last.mpr ((hrest.comma _ hspans₃ h₃.stream (h₁₃.error.trans herror)
    (hin₃ ▸ hlegal₃) (hin₃ ▸ hends)).mono ?_)
  rintro _ s₄ ⟨rfl, h₄⟩
  exact ⟨rfl, (h₁₃.trans h₄).cast (by simp [lexemes]) (by simp [Calm])⟩

end Assignments

end Phrase

end HammerJS
