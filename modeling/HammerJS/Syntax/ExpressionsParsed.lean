import HammerJS.Syntax.Grammar

/-!
# The productions for expressions find phrases

One lemma for each production of `Expressions.lean`: its code meets `grammar`.
-/

namespace HammerJS

open Procs Machine Lexer Parse

variable [Platform] {s : ParserState}

/-! ## Adding nodes to a list -/

omit [Platform] in
@[simp] theorem appendAll_nil (n : Node) : n.appendAll [] = n := by
  cases n
  simp [Node.appendAll]

omit [Platform] in
theorem appendAll_append (n child : Node) (rest : List Node) :
    (n.append (some child)).appendAll rest = n.appendAll (child :: rest) := by
  simp [Node.appendAll, Node.append]

/-! ## Comma, assignment and conditional expressions -/

theorem expression_parsed :
    Finds .expression s parseExpression (Production.expression.Parsed s) s := by
  refine finds_parseOrFail trivial trivial fun node s₁ ⟨e, hnode, h₁, hlegal₁, hrank₁⟩ => ?_
  refine finds_ifToken (fun ht => ?_) fun _ => ⟨e, hnode, h₁, hlegal₁, Nat.zero_le _⟩
  refine finds_skip ht fun s₂ h₂ => ?_
  refine finds_bumpNonLHSCount ?_
  refine finds_parseOrFail trivial trivial fun right s₃ ⟨e', hright, h₃, hlegal₃, hrank₃⟩ => ?_
  refine finds_parseLast (fun _ _ h => h) trivial trivial fun r s₄ ⟨rest, hr, h₄, hlegal₄⟩ => ?_
  have hread₂ := (h₁.trans h₂).bump
  refine ⟨.comma e e' rest, ?_, ?_, ?_, Nat.zero_le _⟩
  · rw [hr, hnode, hright]
    rfl
  · refine ((hread₂.trans h₃).trans h₄).cast ?_ ?_
    · dsimp only [Phrase.lexemes]
      simp
    · dsimp only [Phrase.Calm]
      simp
  · exact ⟨⟨hlegal₁, hrank₁⟩, ⟨hread₂.legal hlegal₃, hrank₃⟩, (hread₂.trans h₃).legal hlegal₄⟩

theorem commaLoop_parsed {list : Node} :
    Finds (.commaLoop list) s (parseCommaLoop list) ((Production.commaLoop list).Parsed s) s := by
  refine finds_ifToken (fun ht => ?_) fun _ =>
    ⟨.noExprs, (appendAll_nil list).symm, .refl s, trivial⟩
  refine finds_skip ht fun s₁ h₁ => ?_
  refine finds_parseOrFail trivial trivial fun right s₂ ⟨e, hright, h₂, hlegal₂, hrank₂⟩ => ?_
  refine finds_parseLast (fun _ _ h => h) trivial trivial fun r s₃ ⟨rest, hr, h₃, hlegal₃⟩ => ?_
  refine ⟨.moreExprs e rest, ?_, ?_, ?_⟩
  · rw [hr, hright]
    exact appendAll_append list e.build rest.build
  · refine ((h₁.trans h₂).trans h₃).cast ?_ ?_
    · dsimp only [Phrase.lexemes]
      simp
    · dsimp only [Phrase.Calm]
      simp
  · exact ⟨⟨h₁.legal hlegal₂, hrank₂⟩, (h₁.trans h₂).legal hlegal₃⟩

/-- The assignment that a chain stands for. -/
def AssignmentChain.phrase : Phrase .expr → AssignmentChain → Phrase .expr
  | lhs, [] => lhs
  | lhs, (op, e) :: rest => .assign lhs op (phrase e rest)

omit [Platform] in
theorem AssignmentChain.lexemes_phrase (chain : AssignmentChain) (lhs : Phrase .expr) :
    (AssignmentChain.phrase lhs chain).lexemes = lhs.lexemes ++ chain.lexemes := by
  induction chain generalizing lhs with
  | nil => simp [AssignmentChain.phrase, AssignmentChain.lexemes]
  | cons link rest ih =>
      show lhs.lexemes ++ .mark link.1.1 :: (AssignmentChain.phrase link.2 rest).lexemes = _
      rw [ih]
      simp [AssignmentChain.lexemes]

omit [Platform] in
theorem AssignmentChain.legal_phrase {allowsIn : Bool} {chain : AssignmentChain}
    {lhs : Phrase .expr} (hlhs : lhs.Legal allowsIn) (hcalm : lhs.Calm)
    (h : chain.Legal allowsIn) : (AssignmentChain.phrase lhs chain).Legal allowsIn ∧
      1 ≤ (AssignmentChain.phrase lhs chain).rank := by
  induction chain generalizing lhs with
  | nil =>
      have hrank := hcalm.rank_ge
      exact ⟨hlhs, by simp only [AssignmentChain.phrase]; omega⟩
  | cons link rest ih =>
      obtain ⟨⟨hlegal, hrank⟩, hlink, hrest⟩ := h
      refine ⟨⟨⟨hlhs, hcalm⟩, ?_⟩, le_rfl⟩
      cases rest with
      | nil => exact ⟨hlegal, by simp only [AssignmentChain.phrase]; omega⟩
      | cons next rest => exact ih hlegal (hlink (by simp)) hrest

/-- The assignments of a chain are built from the last one on. -/
theorem createAssignments_parsed {p : Production} {s₀ : ParserState} {Q : Node → ParserState → Prop}
    (chain : AssignmentChain) (lhs : Phrase .expr) (k : Nat)
    (stack : List (Node × Operator))
    (hs : s.regs.context.assignmentInfo = AssignmentChain.push lhs.build chain stack)
    (hf : Finds p s₀ (createAssignments (AssignmentChain.phrase lhs chain).build k) Q
      { s with regs := { s.regs with context :=
        { s.regs.context with assignmentInfo := stack } } }) :
    Finds p s₀ (createAssignments (chain.last lhs.build) (chain.length + k)) Q s := by
  induction chain generalizing lhs k stack with
  | nil =>
      rw [List.length_nil, Nat.zero_add]
      simp only [AssignmentChain.push] at hs
      rw [← hs] at hf
      exact hf
  | cons link rest ih =>
      rw [List.length_cons, Nat.add_assoc, Nat.add_comm 1 k]
      refine ih link.2 (k + 1) ((lhs.build, link.1.operator) :: stack) hs ?_
      unfold createAssignments createAssignment
      rw [finds_bind]
      exact finds_getStacks (finds_modifyStacks hf)

theorem assignmentExpression_parsed :
    Finds .assignmentExpression s parseAssignmentExpression
      (Production.assignmentExpression.Parsed s) s := by
  refine finds_nonLHSCount ?_
  refine finds_parseOrFail trivial trivial fun lhs s₁ ⟨e, hlhs, h₁, hlegal₁, hrank₁⟩ => ?_
  refine finds_nonLHSCount ?_
  split
  · exact ⟨e, hlhs, h₁, hlegal₁, by omega⟩
  rename_i hcount
  have hcalm : e.Calm := h₁.eq_iff.mp (not_not.mp hcount).symm
  have htells : Production.assignmentExpression.Tells s
      (.assignmentLoop lhs 0 s.regs.nonLHSCount) s₁ := by
    simp [Production.Tells, Production.assignmentDepth, h₁.context]
  refine finds_parseOrNull (fun _ _ h => h) (not_not.mp hcount).symm htells
    fun r s₂ ⟨chain, calm, hnil, hr, hcontext, h₂, hlegal₂⟩ => ?_
  subst hr hlhs
  dsimp only
  rw [Nat.zero_add]
  have hstack : s₂.regs.context.assignmentInfo =
      AssignmentChain.push e.build chain s₁.regs.context.assignmentInfo := by rw [hcontext]
  have hlexemes : e.lexemes ++ chain.lexemes = (AssignmentChain.phrase e chain).lexemes :=
    (chain.lexemes_phrase e).symm
  have hlegal := AssignmentChain.legal_phrase hlegal₁ hcalm (h₁.allowsIn ▸ hlegal₂)
  split
  · rename_i hne
    refine finds_bumpNonLHSCount ?_
    refine createAssignments_parsed chain e 0 s₁.regs.context.assignmentInfo hstack ?_
    refine ⟨AssignmentChain.phrase e chain, rfl, ?_, hlegal⟩
    have hfalse : ¬ (AssignmentChain.phrase e chain).Calm := by
      cases chain with
      | nil => exact absurd rfl hne
      | cons link rest => exact id
    have h := (h₁.toConsumed.trans h₂).bump.cast hlexemes (iff_of_false id hfalse)
    refine h.read ?_
    show { s₂.regs.context with assignmentInfo := s₁.regs.context.assignmentInfo } = _
    rw [hcontext]
    exact h₁.context
  · rename_i hlen
    have hchain : chain = [] := List.length_eq_zero_iff.mp (not_not.mp hlen)
    subst hchain
    refine createAssignments_parsed [] e 0 s₁.regs.context.assignmentInfo hstack ?_
    have h := (h₁.toConsumed.trans h₂).cast hlexemes
      (iff_of_true ⟨hcalm, hnil rfl⟩ (show (AssignmentChain.phrase e []).Calm from hcalm))
    refine ⟨e, rfl, h.read ?_, hlegal⟩
    show { s₂.regs.context with assignmentInfo := s₁.regs.context.assignmentInfo } = _
    rw [hcontext]
    exact h₁.context

theorem assignmentLoop_parsed {lhs : Node} {assignmentStack initialNonLHSCount : Nat}
    (hs : (Production.assignmentLoop lhs assignmentStack initialNonLHSCount).Starts s) :
    Finds (.assignmentLoop lhs assignmentStack initialNonLHSCount) s
      (parseAssignmentLoop lhs assignmentStack initialNonLHSCount)
      ((Production.assignmentLoop lhs assignmentStack initialNonLHSCount).Parsed s) s := by
  have hcount : s.regs.nonLHSCount = initialNonLHSCount := hs
  refine finds_tokenType ?_
  cases hop : assignmentOperator s.token.type with
  | none => exact ⟨[], True, fun _ => trivial, rfl, rfl, .refl s, trivial⟩
  | some op =>
      have hsome : (assignmentOperator s.token.type).isSome = true := by rw [hop]; rfl
      have hoperator : AssignmentToken.operator ⟨s.token.type, hsome⟩ = op := by
        simp [AssignmentToken.operator, hop]
      refine finds_modifyStacks ?_
      refine finds_skip rfl fun s₁ h₁ => ?_
      refine finds_parseOrFail trivial trivial fun lhs' s₂ ⟨e, hlhs, h₂, hlegal₂, hrank₂⟩ => ?_
      subst hlhs
      have hcontext₂ := h₂.context.trans h₁.context
      have hlegal₂ := h₁.legal hlegal₂
      have h₂ : Consumed s _ _ s₂ :=
        (h₁.toConsumed.trans h₂.toConsumed).congr rfl rfl rfl rfl rfl rfl rfl rfl
      refine finds_nonLHSCount ?_
      split
      · refine ⟨[(⟨s.token.type, hsome⟩, e)], _, fun h => (by cases h), rfl, ?_,
          h₂.cast ?_ Iff.rfl, ⟨hlegal₂, hrank₂⟩, fun h => absurd rfl h, trivial⟩
        · rw [hcontext₂]
          simp [AssignmentChain.push, hoperator]
        · simp [AssignmentChain.lexemes]
      · have htells : (Production.assignmentLoop lhs assignmentStack initialNonLHSCount).Tells s
            (.assignmentLoop e.build (assignmentStack + 1) initialNonLHSCount) s₂ := by
          simp only [Production.Tells, Production.assignmentDepth, hcontext₂, List.length_cons]
          omega
        rename_i hsame
        have hsame := (not_not.mp hsame).symm
        refine finds_parseLast (fun _ _ h => h) hsame htells
          fun r s₃ ⟨chain, calm, _, hr, hcontext₃, h₃, hlegal₃⟩ => ?_
        have hcalm := (h₂.eq_iff.mp (hsame.trans hcount.symm)).2
        refine ⟨(⟨s.token.type, hsome⟩, e) :: chain, _, fun h => (by cases h), ?_, ?_,
          (h₂.trans h₃).cast ?_ Iff.rfl, ⟨hlegal₂, hrank₂⟩, fun _ => hcalm,
          h₂.allowsIn ▸ hlegal₃⟩
        · rw [hr]
          simp [AssignmentChain.last]
          omega
        · rw [hcontext₃, hcontext₂]
          simp [AssignmentChain.push, hoperator]
        · simp [AssignmentChain.lexemes]

theorem conditionalExpression_parsed :
    Finds .conditionalExpression s parseConditionalExpression
      (Production.conditionalExpression.Parsed s) s := by
  refine finds_parseOrFail trivial trivial fun cond s₁ ⟨e, hcond, h₁, hlegal₁, hrank₁⟩ => ?_
  refine finds_ifToken (fun ht => ?_) fun _ => ⟨e, hcond, h₁, hlegal₁, by omega⟩
  refine finds_bumpNonLHSCount ?_
  refine finds_skip ht fun s₂ h₂ => ?_
  refine finds_parse trivial trivial fun lhs s₃ _ hlhs => ?_
  refine finds_consumeOrFail fun s₄ h₄ => ?_
  refine finds_parseOrFail trivial trivial fun rhs s₅ ⟨e₂, hrhs, h₅, hlegal₅, hrank₅⟩ => ?_
  cases lhs with
  | none => exact hlhs.elim
  | some lhs =>
      obtain ⟨e₁, hlhs, h₃, hlegal₃, hrank₃⟩ := hlhs
      have hread₂ := h₁.bump.trans h₂
      have hread₄ := (hread₂.trans h₃).trans h₄
      refine ⟨.cond e e₁ e₂, ?_, ?_, ?_, le_rfl⟩
      · rw [hcond, hlhs, hrhs]
        rfl
      · refine (hread₄.trans h₅).cast ?_ ?_
        · dsimp only [Phrase.lexemes]
          simp
        · dsimp only [Phrase.Calm]
          simp
      · exact ⟨⟨hlegal₁, hrank₁⟩, ⟨hread₂.legal hlegal₃, hrank₃⟩, hread₄.legal hlegal₅, hrank₅⟩

/-! ## Binary expressions -/

/-- The state `s`, with an operand and the spine before it on the two stacks. -/
def ParserState.withSpine (s : ParserState) (spine : Spine) (current : Phrase .expr)
    (operands : List Node) (operators : List (JSTokenType × Nat)) : ParserState :=
  { s with regs := { s.regs with context := { s.regs.context with
    binaryOperand := current.build :: spine.operands ++ operands
    binaryOperator := spine.operators ++ operators } } }

theorem eq_withSpine {spine : Spine} {current : Phrase .expr} {operands : List Node}
    {operators : List (JSTokenType × Nat)}
    (hoperands : s.regs.context.binaryOperand = current.build :: spine.operands ++ operands)
    (hoperators : s.regs.context.binaryOperator = spine.operators ++ operators) :
    s = s.withSpine spine current operands operators := by
  unfold ParserState.withSpine
  rw [← hoperands, ← hoperators]

omit [Platform] in
/-- What one reduction leaves. -/
theorem Spine.Follows.reduce {allowsIn : Bool} {link : SpineLink} {spine : Spine}
    {current : Phrase .expr} (h : Spine.Follows allowsIn (link :: spine) current) :
    Spine.Follows allowsIn spine (.binary link.left link.op current) := by
  obtain ⟨⟨hlink, hin, -, -, hbelow, hspine⟩, hlegal, -, hcurrent⟩ := h
  have hrange := link.op.precedence_range
  exact ⟨hspine, ⟨hlink, ⟨hlegal, hcurrent link rfl⟩, hin⟩, by simp only [Phrase.rank]; omega,
    hbelow⟩

omit [Platform] in
/-- The precedences of two operators, as `isBinaryOperator` gives them. -/
theorem isBinaryOperator_le_iff {op op' : BinaryToken} {allowsIn : Bool}
    (h : op.1.isBinaryOperator allowsIn ≠ 0) (h' : op'.1.isBinaryOperator allowsIn ≠ 0) :
    op.1.isBinaryOperator allowsIn ≤ op'.1.isBinaryOperator allowsIn ↔
      op.precedence ≤ op'.precedence := by
  rw [op.isBinaryOperator_eq h, op'.isBinaryOperator_eq h']
  cases allowsIn <;> simp only [Bool.false_eq_true, if_true, if_false] <;> omega

section Reduce

variable {p : Production} {s₀ : ParserState} {β : Type} {operands : List Node}
  {operators : List (JSTokenType × Nat)}

/-- One reduction joins the last two operands. -/
theorem reduceOperands_parsed {f : Unit → Parse β} {Q : β → ParserState → Prop} {link : SpineLink}
    {spine : Spine} {current : Phrase .expr}
    (hf : Finds p s₀ (f ()) Q
      (s.withSpine spine (.binary link.left link.op current) operands operators)) :
    Finds p s₀ (reduceOperands >>= f) Q
      (s.withSpine (link :: spine) current operands operators) := by
  unfold reduceOperands
  rw [finds_bind]
  refine finds_getStacks ?_
  have hconv : convertToken link.op.1 = some link.op.operator := (Option.some_get _).symm
  simp only [ParserState.withSpine, Spine.operands, Spine.operators, List.map_cons,
    List.cons_append, Builder.makeBinaryNode, hconv, Option.map_some]
  rw [← finds_bind]
  exact finds_modifyStacks hf

/-- The reductions before an operator is pushed keep the tokens in order. -/
theorem reduceHigher_parsed {op : BinaryToken} {allowsIn : Bool}
    (hop : op.1.isBinaryOperator allowsIn ≠ 0) (spine : Spine) (current : Phrase .expr)
    (hfollows : Spine.Follows allowsIn spine current)
    (hrank : 2 + op.precedence ≤ current.rank) :
    Finds p s₀ (reduceHigher (op.1.isBinaryOperator allowsIn) (spine.length + 1) spine.length)
      (fun r s' => ∃ (spine' : Spine) (current' : Phrase .expr),
        r = (spine'.length + 1, spine'.length) ∧
        s' = s.withSpine spine' current' operands operators ∧
        spine'.lexemes ++ current'.lexemes = spine.lexemes ++ current.lexemes ∧
        Spine.Follows allowsIn spine' current' ∧ 2 + op.precedence ≤ current'.rank ∧
        Spine.Below (2 + op.precedence) spine')
      (s.withSpine spine current operands operators) := by
  induction spine generalizing current with
  | nil => exact ⟨[], current, rfl, rfl, rfl, hfollows, hrank, fun _ h => (by cases h)⟩
  | cons link spine ih =>
      rw [List.length_cons]
      unfold reduceHigher operatorStackHasHigherPrecedence
      rw [finds_bind]
      refine finds_getStacks ?_
      show Finds p s₀ (pure (decide (op.1.isBinaryOperator allowsIn ≤ link.precedence))) _ _
      rw [finds_pure]
      obtain ⟨-, -, hprecedence, hne, -⟩ := hfollows.operands
      rw [hprecedence] at hne ⊢
      have hiff := isBinaryOperator_le_iff hop hne
      split
      · rename_i hle
        replace hle := hiff.mp (of_decide_eq_true hle)
        refine finds_assert fun _ => reduceOperands_parsed ?_
        refine (ih (.binary link.left link.op current) hfollows.reduce
          (Nat.add_le_add_left hle 2)).mono ?_
        rintro r s' ⟨spine', current', hr, hs', hlexemes, hrest⟩
        refine ⟨spine', current', hr, hs', ?_, hrest⟩
        rw [hlexemes]
        dsimp only [Phrase.lexemes, Spine.lexemes]
        simp
      · rename_i hlt
        have hlt : ¬ op.precedence ≤ link.op.precedence :=
          fun h => hlt (decide_eq_true (hiff.mpr h))
        refine ⟨link :: spine, current, rfl, rfl, rfl, hfollows, hrank, ?_⟩
        rintro top ⟨rfl⟩
        omega

/-- In the end one operand is left. -/
theorem reduceAll_parsed {allowsIn : Bool} (spine : Spine) (current : Phrase .expr)
    (hfollows : Spine.Follows allowsIn spine current) :
    Finds p s₀ (reduceAll (spine.length + 1) spine.length)
      (fun _ s' => ∃ current' : Phrase .expr, s' = s.withSpine [] current' operands operators ∧
        current'.lexemes = spine.lexemes ++ current.lexemes ∧
        (current'.Calm ↔ spine = [] ∧ current.Calm) ∧ current'.Legal allowsIn ∧
        3 ≤ current'.rank)
      (s.withSpine spine current operands operators) := by
  induction spine generalizing current with
  | nil => exact ⟨current, rfl, rfl, by simp, hfollows.legal, hfollows.rank⟩
  | cons link spine ih =>
      rw [List.length_cons]
      refine finds_assert fun _ => reduceOperands_parsed ?_
      refine (ih (.binary link.left link.op current) hfollows.reduce).mono ?_
      rintro _ s' ⟨current', hs', hlexemes, hcalm, hlegal⟩
      refine ⟨current', hs', ?_, ?_, hlegal⟩
      · rw [hlexemes]
        dsimp only [Phrase.lexemes, Spine.lexemes]
        simp
      · rw [hcalm]
        dsimp only [Phrase.Calm]
        simp

end Reduce

theorem binaryExpression_parsed :
    Finds .binaryExpression s parseBinaryExpression (Production.binaryExpression.Parsed s) s := by
  have before : SpineAt s 0 0 := ⟨[], s.regs.context.binaryOperand,
    s.regs.context.binaryOperator, rfl, rfl, rfl, rfl, trivial⟩
  refine finds_parseOrNull (fun _ _ h => h) ⟨before⟩ (by trivial) fun r s₁ hr => ?_
  obtain ⟨spine, current, ls, calm, hr, hcontext, hlexemes, hcalm, -, h₁, hfollows⟩ :=
    hr ⟨[], s.regs.context.binaryOperand, s.regs.context.binaryOperator, rfl, rfl, rfl, rfl,
      trivial⟩
  subst hr
  dsimp only
  have heq : s₁ = s₁.withSpine spine current s.regs.context.binaryOperand
      s.regs.context.binaryOperator := eq_withSpine (by rw [hcontext]) (by rw [hcontext])
  rw [heq, finds_bind]
  refine (reduceAll_parsed spine current hfollows).mono ?_
  rintro _ s₂ ⟨e, rfl, hlexemes', hcalm', hlegal⟩
  unfold popOperandStack
  refine finds_getStacks (finds_modifyStacks ?_)
  rw [finds_pure]
  refine ⟨e, rfl, (h₁.cast ?_ ?_).read ?_, hlegal⟩
  · rw [hlexemes', hlexemes]
    rfl
  · rw [hcalm', hcalm rfl]
  · show { s₁.regs.context with
      binaryOperand := s.regs.context.binaryOperand
      binaryOperator := s.regs.context.binaryOperator } = _
    rw [hcontext]

omit [Platform] in
theorem isBinaryOperator_true {t : JSTokenType} {allowsIn : Bool}
    (h : t.isBinaryOperator allowsIn ≠ 0) : t.isBinaryOperator true ≠ 0 := by
  revert h
  cases allowsIn <;> cases t <;> decide

theorem binaryLoop_parsed {operandStackDepth operatorStackDepth : Nat}
    (hs : (Production.binaryLoop operandStackDepth operatorStackDepth).Starts s) :
    Finds (.binaryLoop operandStackDepth operatorStackDepth) s
      (parseBinaryLoop operandStackDepth operatorStackDepth)
      ((Production.binaryLoop operandStackDepth operatorStackDepth).Parsed s) s := by
  refine finds_forall hs
    fun ⟨spine, operands, operators, hd, hd', hoperands, hoperators, hspine⟩ => ?_
  subst hd hd'
  dsimp only
  refine finds_parseOrFail trivial trivial fun node s₁ ⟨e, hnode, h₁, hlegal₁, hrank₁⟩ => ?_
  subst hnode
  refine finds_modifyStacks ?_
  unfold binaryPrecedence
  rw [finds_bind]
  refine finds_tokenType (finds_allowsIn ?_)
  rw [finds_pure]
  have hs₁ : s₁.regs.context = s.regs.context := h₁.context
  have hfollows : Spine.Follows s.regs.allowsIn spine e := by
    refine ⟨hspine, hlegal₁, by omega, fun link _ => ?_⟩
    have := link.op.precedence_range
    omega
  split
  · refine ⟨spine, e, e.lexemes, e.Calm, rfl, ?_, rfl, fun h => by simp [h], id, ?_, hfollows⟩
    · simp [hs₁, hoperands, hoperators]
    · exact h₁.toConsumed.congr rfl rfl rfl rfl rfl rfl rfl rfl
  rename_i hprecedence
  replace hprecedence : s₁.token.type.isBinaryOperator s.regs.allowsIn ≠ 0 :=
    h₁.allowsIn ▸ hprecedence
  have hop := isBinaryOperator_true hprecedence
  refine finds_bumpNonLHSCount (finds_tokenType (finds_skip rfl fun s₃ h₃ => ?_))
  have hs₃ : s₃ = s₃.withSpine spine e operands operators := by
    refine eq_withSpine ?_ ?_
    · rw [h₃.context]
      simp [hs₁, hoperands]
    · rw [h₃.context]
      simp [hs₁, hoperators]
  rw [finds_bind, hs₃]
  have hrange := BinaryToken.precedence_range ⟨_, hop⟩
  have hrank : 2 + BinaryToken.precedence ⟨_, hop⟩ ≤ e.rank := by omega
  rw [show s₁.token.type.isBinaryOperator s₁.regs.allowsIn =
    s₁.token.type.isBinaryOperator s.regs.allowsIn by rw [h₁.allowsIn]]
  refine (reduceHigher_parsed hprecedence spine e hfollows hrank).mono ?_
  rintro _ s₄ ⟨spine₄, e₄, rfl, rfl, hlexemes₄, hfollows₄, hrank₄, hbelow₄⟩
  refine finds_modifyStacks ?_
  have htells : (Production.binaryLoop spine.length spine.length).Tells s
      (.binaryLoop (spine₄.length + 1) (spine₄.length + 1))
      { s₃ with regs := { s₃.regs with context :=
        { (s₃.withSpine spine₄ e₄ operands operators).regs.context with
          binaryOperator := (s₁.token.type, s₁.token.type.isBinaryOperator s.regs.allowsIn) ::
            (s₃.withSpine spine₄ e₄ operands operators).regs.context.binaryOperator } } } := by
    simp only [Production.Tells, Production.slack, ParserState.withSpine, hoperands, hoperators,
      List.length_cons, List.length_append, Spine.operands, Spine.operators, List.length_map]
    omega
  have hallowsIn : s₃.regs.allowsIn = s.regs.allowsIn := h₃.allowsIn.trans h₁.allowsIn
  have hlegal₄ : Spine.Legal s₃.regs.allowsIn
      (⟨e₄, ⟨_, hop⟩, s₁.token.type.isBinaryOperator s.regs.allowsIn⟩ :: spine₄) := by
    rw [hallowsIn]
    exact ⟨⟨hfollows₄.legal, hrank₄⟩, isBinaryOperator_in hprecedence, rfl, hprecedence, hbelow₄,
      hfollows₄.operands⟩
  refine finds_parseLast (fun _ _ h => h) ⟨⟨⟨e₄, ⟨_, hop⟩, _⟩ :: spine₄, operands, operators,
    rfl, rfl, rfl, rfl, hlegal₄⟩⟩ htells fun r s₆ hr => ?_
  obtain ⟨spine₆, e₆, ls, calm, hr, hcontext, hlexemes, -, hne, h₆, hfollows₆⟩ :=
    hr ⟨⟨e₄, ⟨_, hop⟩, _⟩ :: spine₄, operands, operators, rfl, rfl, rfl, rfl, hlegal₄⟩
  have hne : spine₆ ≠ [] := hne (by simp)
  refine ⟨spine₆, e₆, e.lexemes ++ [.mark s₁.token.type] ++ ls, False, hr, ?_, ?_,
    fun _ => by simp [hne], fun _ => hne, ?_, hallowsIn ▸ hfollows₆⟩
  · rw [hcontext]
    simp [ParserState.withSpine, h₃.context, hs₁]
  · rw [hlexemes]
    simp only [Spine.lexemes, hlexemes₄]
    simp
  · have h₂ : Consumed s _ _ { s₁ with regs := { s₁.regs with context :=
        { s₁.regs.context with binaryOperand := e.build :: s₁.regs.context.binaryOperand } } } :=
      h₁.toConsumed.congr rfl rfl rfl rfl rfl rfl rfl rfl
    have h₆ : Consumed s₃ _ _ s₆ := h₆.congr rfl rfl rfl rfl rfl rfl rfl rfl
    have h₅ := (h₂.bump.trans h₃.toConsumed).trans h₆
    exact h₅.cast rfl (by simp)

/-! ## Unary expressions -/

theorem unaryExpression_parsed :
    Finds .unaryExpression s parseUnaryExpression (Production.unaryExpression.Parsed s) s := by
  refine finds_allowsIn (finds_modifyRegs ?_)
  refine finds_parse trivial trivial fun expr s₁ _ hexpr => finds_modifyRegs ?_
  cases expr with
  | none => exact hexpr.elim
  | some expr =>
      obtain ⟨e, he, h₁, hlegal⟩ := hexpr
      exact ⟨e, he, h₁.withAllowsIn rfl, hlegal.1.of_rank hlegal.2, hlegal.2⟩

theorem unaryTokensLoop_parsed {tokenStackDepth : Nat} :
    Finds (.unaryTokensLoop tokenStackDepth) s (parseUnaryTokensLoop tokenStackDepth)
      ((Production.unaryTokensLoop tokenStackDepth).Parsed s) s := by
  refine finds_tokenType ?_
  split
  · rename_i hunary
    refine finds_bumpNonLHSCount (finds_modifyStacks (finds_skip rfl fun s₁ h₁ => ?_))
    have htells : (Production.unaryTokensLoop tokenStackDepth).Tells s
        (.unaryTokensLoop (tokenStackDepth + 1)) s₁ := by
      simp only [Production.Tells, Production.unaryDepth, h₁.context, List.length_cons]
      omega
    refine finds_parseLast (fun _ _ h => h) trivial htells fun r s₂ ⟨ops, hr, hcontext, h₂⟩ => ?_
    refine ⟨⟨_, hunary⟩ :: ops, ?_, ?_, ?_⟩
    · rw [hr, List.length_cons]
      show tokenStackDepth + 1 + ops.length = tokenStackDepth + (ops.length + 1)
      omega
    · rw [hcontext, h₁.context]
      simp
    · have h₁ : Consumed { s with regs := { s.regs with
          nonLHSCount := s.regs.nonLHSCount + 1 } } _ _ s₁ :=
        h₁.toConsumed.congr rfl rfl rfl rfl rfl rfl rfl rfl
      refine (((Consumed.refl s).bump.trans h₁).trans h₂).cast rfl ?_
      simp
  · exact ⟨[], rfl, rfl, (Consumed.refl s).cast rfl (by simp)⟩

/-- The prefix operators of a stack around an expression, the top one innermost. -/
def wrapUnary : List UnaryToken → Phrase .expr → Phrase .expr
  | [], e => e
  | op :: ops, e => wrapUnary ops (.unary op e)

omit [Platform] in
theorem wrapUnary_lexemes (ops : List UnaryToken) (e : Phrase .expr) :
    (wrapUnary ops e).lexemes = (ops.reverse.map fun op => .mark op.1) ++ e.lexemes := by
  induction ops generalizing e with
  | nil => rfl
  | cons op ops ih =>
      show (wrapUnary ops (.unary op e)).lexemes = _
      rw [ih]
      dsimp only [Phrase.lexemes]
      simp

omit [Platform] in
theorem wrapUnary_calm (ops : List UnaryToken) (e : Phrase .expr) :
    (wrapUnary ops e).Calm ↔ ops = [] ∧ e.Calm := by
  induction ops generalizing e with
  | nil => simp [wrapUnary]
  | cons op ops ih =>
      show (wrapUnary ops (.unary op e)).Calm ↔ _
      rw [ih]
      dsimp only [Phrase.Calm]
      simp

omit [Platform] in
theorem wrapUnary_legal (ops : List UnaryToken) {e : Phrase .expr}
    (h : e.Legal true ∧ 13 ≤ e.rank) :
    (wrapUnary ops e).Legal true ∧ 13 ≤ (wrapUnary ops e).rank := by
  induction ops generalizing e with
  | nil => exact h
  | cons op ops ih => exact ih ⟨h, le_rfl⟩

omit [Platform] in
theorem makeUnaryNode_eq (op : UnaryToken) (expr : Node) :
    makeUnaryNode expr op.1 = pure (unaryNode op.1 expr) := by
  obtain ⟨t, ht⟩ := op
  cases t <;> first | rfl | exact absurd ht (by decide)

theorem makeUnaryNodes_parsed {p : Production} {s₀ : ParserState} {Q : Node → ParserState → Prop}
    (ops : List UnaryToken) (e : Phrase .expr) (rest : List JSTokenType)
    (hs : s.regs.context.unaryToken = ops.map Subtype.val ++ rest)
    (hQ : Q (wrapUnary ops e).build { s with regs := { s.regs with context :=
      { s.regs.context with unaryToken := rest } } }) :
    Finds p s₀ (makeUnaryNodes e.build ops.length) Q s := by
  induction ops generalizing e s with
  | nil =>
      rw [List.map_nil, List.nil_append] at hs
      rw [← hs] at hQ
      exact hQ
  | cons op ops ih =>
      rw [List.length_cons]
      unfold makeUnaryNodes popUnaryToken
      rw [finds_bind]
      refine finds_getStacks ?_
      rw [List.map_cons, List.cons_append] at hs
      simp only [hs]
      refine finds_modifyStacks ?_
      rw [finds_pure, makeUnaryNode_eq]
      exact ih (.unary op e) rfl hQ

theorem parsePostfix_parsed {p : Production} {s₀ : ParserState} {β : Type} {f : Node → Parse β}
    {Q : β → ParserState → Prop} {e : Phrase .expr} (hlegal : e.Legal true)
    (hrank : 15 ≤ e.rank)
    (hf : ∀ (e' : Phrase .expr) ls calm s', e'.lexemes = e.lexemes ++ ls →
      (e'.Calm ↔ e.Calm ∧ calm) → Read s ls calm s' → e'.Legal true ∧ 13 ≤ e'.rank →
        Finds p s₀ (f e'.build) Q s') :
    Finds p s₀ (parsePostfix e.build >>= f) Q s := by
  unfold parsePostfix
  rw [finds_bind]
  refine finds_tokenType ?_
  split
  · rename_i ht
    refine finds_bumpNonLHSCount (finds_skip ht fun s₁ h₁ => ?_)
    refine hf (.postOp true e) [.mark .plusPlus] False s₁ rfl ?_ ?_ ?_
    · dsimp only [Phrase.Calm]
      simp
    · exact ((Read.refl s).bump.trans h₁).cast rfl (by simp)
    · exact ⟨⟨hlegal, hrank⟩, Nat.le_succ 13⟩
  · rename_i ht
    refine finds_bumpNonLHSCount (finds_skip ht fun s₁ h₁ => ?_)
    refine hf (.postOp false e) [.mark .minusMinus] False s₁ rfl ?_ ?_ ?_
    · dsimp only [Phrase.Calm]
      simp
    · exact ((Read.refl s).bump.trans h₁).cast rfl (by simp)
    · exact ⟨⟨hlegal, hrank⟩, Nat.le_succ 13⟩
  · exact hf e [] True s (by simp) (by simp) (.refl s) ⟨hlegal, by omega⟩

theorem unaryExpressionBody_parsed :
    Finds .unaryExpressionBody s parseUnaryExpressionBody
      (Production.unaryExpressionBody.Parsed s) s := by
  refine finds_parseOrNull (fun _ _ h => h) trivial rfl
    fun depth s₁ ⟨ops, hdepth, hcontext, h₁⟩ => ?_
  rw [Nat.zero_add] at hdepth
  subst hdepth
  refine finds_parseOrFail trivial trivial fun expr s₂ ⟨e, hexpr, h₂, hlegal₂, hrank₂⟩ => ?_
  subst hexpr
  refine parsePostfix_parsed hlegal₂ hrank₂ fun e' ls calm s₃ hlexemes hcalm h₃ hlegal₃ => ?_
  have hstack : s₃.regs.context.unaryToken =
      ops.reverse.map Subtype.val ++ s.regs.context.unaryToken := by
    rw [h₃.context, h₂.context, hcontext]
    simp
  rw [← List.length_reverse]
  refine makeUnaryNodes_parsed ops.reverse e' s.regs.context.unaryToken hstack ?_
  have h := (h₁.trans h₂.toConsumed).trans h₃.toConsumed
  refine ⟨wrapUnary ops.reverse e', rfl, (h.cast ?_ ?_).read ?_, wrapUnary_legal _ hlegal₃⟩
  · rw [wrapUnary_lexemes, hlexemes]
    simp
  · rw [wrapUnary_calm, hcalm, List.reverse_eq_nil_iff]
    tauto
  · rw [h₃.context, h₂.context, hcontext]

/-! ## Member expressions -/

theorem newLoop_parsed {newCount : Nat} :
    Finds (.newLoop newCount) s (parseNewLoop newCount) ((Production.newLoop newCount).Parsed s)
      s := by
  refine finds_ifToken (fun ht => ?_) fun _ => ⟨0, rfl, .refl s⟩
  refine finds_skip ht fun s₁ h₁ => ?_
  refine finds_parseLast (fun _ _ h => h) trivial trivial fun r s₂ ⟨n, hr, h₂⟩ => ?_
  refine ⟨n + 1, ?_, ?_⟩
  · rw [hr]
    show newCount + 1 + n = newCount + (n + 1)
    omega
  · exact (h₁.trans h₂).cast (by rw [List.replicate_succ]; rfl) (by simp)

/-- The `new` expressions without arguments around an expression. -/
def wrapNew (e : Phrase .expr) : Nat → Phrase .expr
  | 0 => e
  | n + 1 => wrapNew (.newNoArgs e) n

theorem wrapNew_build (e : Phrase .expr) (n : Nat) :
    createNewExprs e.build n = (wrapNew e n).build := by
  induction n generalizing e with
  | zero => rfl
  | succ n ih => exact ih (.newNoArgs e)

omit [Platform] in
theorem wrapNew_lexemes (e : Phrase .expr) (n : Nat) :
    (wrapNew e n).lexemes = List.replicate n (.mark .new) ++ e.lexemes := by
  induction n generalizing e with
  | zero => rfl
  | succ n ih =>
      show (wrapNew (.newNoArgs e) n).lexemes = _
      rw [ih, List.replicate_succ']
      dsimp only [Phrase.lexemes]
      simp

omit [Platform] in
theorem wrapNew_calm (e : Phrase .expr) (n : Nat) : (wrapNew e n).Calm ↔ e.Calm := by
  induction n generalizing e with
  | zero => rfl
  | succ n ih => exact ih (.newNoArgs e)

omit [Platform] in
theorem wrapNew_legal {e : Phrase .expr} (n : Nat) (h : e.Legal true)
    (hrank : n ≠ 0 → e.rank = 15 ∨ e.rank = 17) (hle : 15 ≤ e.rank) :
    (wrapNew e n).Legal true ∧ 15 ≤ (wrapNew e n).rank := by
  induction n generalizing e with
  | zero => exact ⟨h, hle⟩
  | succ n ih => exact ih ⟨h, hrank (by simp)⟩ (fun _ => Or.inl rfl) le_rfl

theorem parseMemberBase_parsed {p : Production} {s₀ : ParserState} {β : Type} {f : Node → Parse β}
    {Q : β → ParserState → Prop}
    (hf : ∀ base s', FoundOperand 17 s base s' → Finds p s₀ (f base) Q s') :
    Finds p s₀ (parseMemberBase >>= f) Q s := by
  unfold parseMemberBase
  rw [finds_bind]
  refine finds_ifToken (fun ht => ?_) fun _ => ?_
  · refine finds_skip ht fun s₁ h₁ => ?_
    refine finds_parseOrFail trivial trivial
      fun info s₂ ⟨params, body, hparams, hbody, h₂, hlegal₂⟩ => ?_
    refine hf _ s₂ ⟨.function info.name params body, ?_, ?_, hlegal₂, le_rfl⟩
    · rw [hparams, hbody]
      rfl
    · exact (h₁.trans h₂).cast rfl (by dsimp only [Phrase.Calm]; simp)
  · refine finds_parse (q := .primaryExpression) trivial trivial fun base s₁ _ hbase => ?_
    cases base with
    | none => exact hbase.elim
    | some base => exact hf base s₁ hbase

theorem memberExpression_parsed :
    Finds .memberExpression s parseMemberExpression (Production.memberExpression.Parsed s) s := by
  refine finds_parseOrNull (fun _ _ h => h) trivial trivial fun newCount s₁ ⟨n, hn, h₁⟩ => ?_
  rw [Nat.zero_add] at hn
  subst hn
  refine parseMemberBase_parsed fun base s₂ ⟨e, hbase, h₂, hlegal₂, hrank₂⟩ => ?_
  have hrank : e.rank = 17 := e.rank_le.antisymm hrank₂
  have before : MemberBase base newCount := ⟨e, hbase, hlegal₂, by omega, fun _ => hrank⟩
  refine finds_parseOrNull (fun _ _ h => h) ⟨before⟩ trivial fun r s₃ hr => ?_
  obtain ⟨⟨e', hbase', hlegal', hrank', hpending⟩, ls, calm, hle, hlexemes, hcalm, h₃⟩ :=
    hr ⟨e, hbase, hlegal₂, by omega, fun _ => hrank⟩
  obtain ⟨base', newCount'⟩ := r
  dsimp only at hbase' hle hlexemes hcalm hpending ⊢
  refine ⟨wrapNew e' newCount', ?_, ((h₁.trans h₂).trans h₃).cast ?_ ?_,
    wrapNew_legal newCount' hlegal' (fun h => Or.inr (hpending h)) (by omega)⟩
  · rw [hbase']
    exact wrapNew_build e' newCount'
  · rw [wrapNew_lexemes, hlexemes, ← List.append_assoc, ← List.append_assoc,
      List.replicate_append_replicate, Nat.add_sub_cancel' hle]
  · rw [wrapNew_calm, hcalm]
    simp

theorem memberLoop_parsed {base : Node} {newCount : Nat}
    (hs : (Production.memberLoop base newCount).Starts s) :
    Finds (.memberLoop base newCount) s (parseMemberLoop base newCount)
      ((Production.memberLoop base newCount).Parsed s) s := by
  refine finds_forall hs fun ⟨e, he, hlegal, hrank, hpending⟩ => ?_
  subst he
  dsimp only
  -- what a suffix adds, and what the rest of the loop adds to that
  have hrest : ∀ (e₁ : Phrase .expr) (ls₁ : List Lexeme) (calm₁ : Prop) (n k : Nat)
      (s₁ s' : ParserState) (r : Node × Nat), n + k = newCount →
      e₁.lexemes = List.replicate k (.mark .new) ++ e.lexemes ++ ls₁ →
      (e₁.Calm ↔ e.Calm ∧ calm₁) → Read s ls₁ calm₁ s₁ →
      (e₁.Legal true ∧ 16 ≤ e₁.rank ∧ (n ≠ 0 → e₁.rank = 17)) →
      (Production.memberLoop e₁.build n).Parsed s₁ r s' →
      ∃ (e' : MemberBase r.1 r.2) (ls : List Lexeme) (calm : Prop), r.2 ≤ newCount ∧
        e'.1.lexemes = List.replicate (newCount - r.2) (.mark .new) ++ e.lexemes ++ ls ∧
        (e'.1.Calm ↔ e.Calm ∧ calm) ∧ Read s ls calm s' := by
    intro e₁ ls₁ calm₁ n k s₁ s' r hk hlexemes₁ hcalm₁ h₁ hlegal₁ hr
    obtain ⟨e', ls, calm, hle, hlexemes, hcalm, h⟩ := hr ⟨e₁, rfl, hlegal₁⟩
    refine ⟨e', ls₁ ++ ls, calm₁ ∧ calm, by omega, ?_, ?_, h₁.trans h⟩
    · rw [hlexemes, hlexemes₁, show newCount - r.2 = (n - r.2) + k by omega,
        ← List.replicate_append_replicate]
      simp only [List.append_assoc]
    · rw [hcalm, hcalm₁, and_assoc]
  refine finds_tokenType ?_
  split
  case h_1 ht =>
    refine finds_skip ht fun s₁ h₁ => finds_nonLHSCount ?_
    refine finds_parseOrFail trivial trivial fun property s₂ ⟨e₂, hproperty, h₂, hlegal₂, _⟩ => ?_
    subst hproperty
    refine finds_consume fun s₃ h₃ => finds_setNonLHSCount ?_
    have hbracket : (Phrase.bracket e e₂).Legal true := ⟨hlegal, hrank, hlegal₂.mono⟩
    refine finds_parseLast (fun _ _ h => h) ⟨⟨.bracket e e₂, rfl, hbracket, hrank, hpending⟩⟩
      trivial fun r s₄ hr => ?_
    refine hrest (.bracket e e₂) (.mark .openBracket :: e₂.lexemes ++ [.mark .closeBracket]) True
      newCount 0 _ s₄ r rfl ?_ ?_ ?_ ⟨hbracket, hrank, hpending⟩ hr
    · dsimp only [Phrase.lexemes]
      simp
    · dsimp only [Phrase.Calm]
      simp
    · exact (h₁.trans (h₂.trans h₃).restore).cast (by simp) (by simp)
  case h_2 ht =>
    cases newCount with
    | succ n =>
        refine finds_ifToken (fun _ => ?_) fun hne => absurd ht hne
        refine finds_parseOrFail trivial trivial fun args s₁ ⟨as, hargs, h₁, hlegal₁⟩ => ?_
        subst hargs
        have hnew : (Phrase.newArgs e as).Legal true := ⟨hlegal, hpending (by simp), hlegal₁⟩
        have hrank : (Phrase.newArgs e as).rank = 17 := rfl
        refine finds_parseLast (fun _ _ h => h) ⟨⟨.newArgs e as, rfl, hnew, by omega,
          fun _ => hrank⟩⟩ trivial fun r s₂ hr => ?_
        refine hrest (.newArgs e as) as.lexemes as.Calm n 1 s₁ s₂ r rfl ?_ ?_ h₁
          ⟨hnew, by omega, fun _ => hrank⟩ hr
        · dsimp only [Phrase.lexemes]
          simp
        · dsimp only [Phrase.Calm]
          exact Iff.rfl
    | zero =>
        refine finds_nonLHSCount ?_
        refine finds_parseOrFail trivial trivial fun args s₁ ⟨as, hargs, h₁, hlegal₁⟩ => ?_
        subst hargs
        refine finds_setNonLHSCount ?_
        have hcall : (Phrase.call e as).Legal true := ⟨hlegal, hrank, hlegal₁⟩
        refine finds_parseLast (fun _ _ h => h) ⟨⟨.call e as, rfl, hcall, le_rfl,
          fun h => absurd rfl h⟩⟩ trivial fun r s₂ hr => ?_
        refine hrest (.call e as) as.lexemes True 0 0 _ s₂ r rfl ?_ ?_ h₁.restore
          ⟨hcall, le_rfl, fun h => absurd rfl h⟩ hr
        · dsimp only [Phrase.lexemes]
          simp
        · dsimp only [Phrase.Calm]
          simp
  case h_3 ht =>
    refine finds_next fun s₁ hn => ?_
    have h₁ : Read s [.dot] True s₁ := .of_step hn ⟨ht, hn.eq.1⟩
    refine finds_matchOrFail fun hident => finds_tokenData ?_
    refine finds_skipIdent hident fun s₂ h₂ => ?_
    refine finds_parseLast (fun _ _ h => h) ⟨⟨.dot e s₁.token.data.getIdent, rfl,
      ⟨hlegal, hrank⟩, hrank, hpending⟩⟩ trivial fun r s₃ hr => ?_
    refine hrest (.dot e s₁.token.data.getIdent) [.dot, .ident s₁.token.data.getIdent] True
      newCount 0 s₂ s₃ r rfl ?_ ?_ ?_ ⟨⟨hlegal, hrank⟩, hrank, hpending⟩ hr
    · dsimp only [Phrase.lexemes]
      simp
    · dsimp only [Phrase.Calm]
      simp
    · exact (h₁.trans h₂).cast rfl (by simp)
  case h_4 =>
    exact ⟨⟨e, rfl, hlegal, hrank, hpending⟩, [], True, le_rfl, by simp, by simp, .refl s⟩

theorem arguments_parsed :
    Finds .arguments s parseArguments (Production.arguments.Parsed s) s := by
  refine finds_consumeOrFail fun s₁ h₁ => ?_
  refine finds_ifToken (fun ht => ?_) fun _ => ?_
  · refine finds_skip ht fun s₂ h₂ => ?_
    exact ⟨.noArgs, rfl, (h₁.trans h₂).cast rfl (by dsimp only [Phrase.Calm]; simp), trivial⟩
  · refine finds_parseOrFail trivial trivial fun firstArg s₂ ⟨e, hfirst, h₂, hlegal₂, hrank₂⟩ => ?_
    refine finds_parseOrNull (fun _ _ h => h) trivial trivial
      fun argList s₃ ⟨rest, hlist, h₃, hlegal₃⟩ => ?_
    refine finds_consumeOrFail fun s₄ h₄ => ?_
    refine ⟨.arguments e rest, ?_, (((h₁.trans h₂).trans h₃).trans h₄).cast ?_ ?_,
      ⟨hlegal₂.mono, hrank₂⟩, hlegal₃.mono⟩
    · rw [hlist, hfirst]
      rfl
    · dsimp only [Phrase.lexemes]
      simp
    · dsimp only [Phrase.Calm]
      simp

theorem argumentsLoop_parsed {argList : Node} :
    Finds (.argumentsLoop argList) s (parseArgumentsLoop argList)
      ((Production.argumentsLoop argList).Parsed s) s := by
  refine finds_ifToken (fun ht => ?_) fun _ =>
    ⟨.noExprs, (appendAll_nil argList).symm, .refl s, trivial⟩
  refine finds_skip ht fun s₁ h₁ => ?_
  refine finds_parseOrFail trivial trivial fun arg s₂ ⟨e, harg, h₂, hlegal₂, hrank₂⟩ => ?_
  refine finds_parseLast (fun _ _ h => h) trivial trivial fun r s₃ ⟨rest, hr, h₃, hlegal₃⟩ => ?_
  refine ⟨.moreExprs e rest, ?_, ((h₁.trans h₂).trans h₃).cast ?_ ?_,
    ⟨h₁.legal hlegal₂, hrank₂⟩, (h₁.trans h₂).legal hlegal₃⟩
  · rw [hr, harg]
    exact appendAll_append argList e.build rest.build
  · dsimp only [Phrase.lexemes]
    simp
  · dsimp only [Phrase.Calm]
    simp

/-! ## Primary expressions -/

theorem parseRegExp_parsed {patternPrefix : Option UChar}
    (ht : s.token.type = if patternPrefix.isSome then .divEqual else .divide)
    (hpre : ∀ c ∈ patternPrefix, c = '='.toNat.toUInt16) :
    Finds .primaryExpression s (parseRegExp patternPrefix)
      (Production.primaryExpression.Parsed s) s := by
  unfold parseRegExp
  rw [finds_bind]
  unfold Finds
  rw [wp_scanRegExp]
  refine ⟨fun r s₁ hscan => ?_, fun _ _ => Or.inl trivial⟩
  cases hregExp : Lexer.scanRegExp patternPrefix s.lexer with
  | error e =>
      simp only [parserStep, hregExp, Except.map] at hscan
      cases hscan
  | ok scanned =>
      obtain ⟨r', lexer⟩ := scanned
      simp only [parserStep, hregExp, Except.map] at hscan
      cases hscan
      refine finds_failIfNull fun a ha => ?_
      subst ha
      obtain ⟨pattern, flags⟩ := a
      refine finds_next fun s₂ hn => ?_
      have hstep : (Lexeme.regExp patternPrefix pattern flags).Step s.stream s₂.stream :=
        ⟨ht, hpre, lexer, hregExp, hn.eq.1⟩
      have hregs := hn.regs_error.1
      refine ⟨.regExp patternPrefix pattern flags, rfl,
        ⟨⟨⟨s₂.stream, hstep, rfl⟩, ?_, ?_, ?_, ?_⟩, ?_⟩, trivial, le_rfl⟩
      · rw [hn.eq.2]
        rfl
      · rw [hregs]
      · rw [hregs]
        exact iff_of_true rfl trivial
      · rw [hregs]
      · rw [hregs]

theorem primaryExpression_parsed :
    Finds .primaryExpression s parsePrimaryExpression
      (Production.primaryExpression.Parsed s) s := by
  refine finds_tokenType ?_
  split
  case h_1 => exact finds_parseLast (fun _ _ h => h) trivial trivial fun a s₁ h₁ => h₁
  case h_2 => exact finds_parseLast (fun _ _ h => h) trivial trivial fun a s₁ h₁ => h₁
  case h_3 ht =>
    refine finds_skip ht fun s₁ h₁ => finds_nonLHSCount ?_
    refine finds_parse trivial trivial fun result s₂ _ hresult => finds_setNonLHSCount ?_
    refine finds_consumeOrFail fun s₃ h₃ => ?_
    cases result with
    | none => exact hresult.elim
    | some result =>
        obtain ⟨e, he, h₂, hlegal₂, -⟩ := hresult
        refine ⟨.paren e, he, ((h₁.trans h₂.restore).trans h₃).cast ?_ ?_, hlegal₂.mono, le_rfl⟩
        · dsimp only [Phrase.lexemes]
          simp
        · dsimp only [Phrase.Calm]
          simp
  case h_4 ht => exact finds_skip ht fun s₁ h₁ => ⟨.this, rfl, h₁, trivial, le_rfl⟩
  case h_5 ht =>
    refine finds_tokenData ?_
    exact finds_skipIdent ht fun s₁ h₁ =>
      ⟨.resolve s.token.data.getIdent, rfl, h₁, trivial, le_rfl⟩
  case h_6 ht =>
    refine finds_tokenData (finds_next fun s₁ hn => ?_)
    exact ⟨.string s.token.data.getIdent, rfl, .of_step hn ⟨ht, rfl, hn.eq.1⟩, trivial, le_rfl⟩
  case h_7 ht =>
    refine finds_tokenData (finds_next fun s₁ hn => ?_)
    exact ⟨.number s.token.data.getDouble, rfl, .of_step hn ⟨ht, rfl, hn.eq.1⟩, trivial, le_rfl⟩
  case h_8 ht => exact finds_skip ht fun s₁ h₁ => ⟨.null, rfl, h₁, trivial, le_rfl⟩
  case h_9 ht => exact finds_skip ht fun s₁ h₁ => ⟨.boolean true, rfl, h₁, trivial, le_rfl⟩
  case h_10 ht => exact finds_skip ht fun s₁ h₁ => ⟨.boolean false, rfl, h₁, trivial, le_rfl⟩
  case h_11 ht => exact parseRegExp_parsed ht (by simp)
  case h_12 ht => exact parseRegExp_parsed ht (by simp)
  case h_13 => exact finds_fail

theorem elisionsLoop_parsed {elisions : Nat} :
    Finds (.elisionsLoop elisions) s (parseElisionsLoop elisions)
      ((Production.elisionsLoop elisions).Parsed s) s := by
  refine finds_ifToken (fun ht => ?_) fun _ => ⟨0, rfl, .refl s⟩
  refine finds_skip ht fun s₁ h₁ => ?_
  refine finds_parseLast (fun _ _ h => h) trivial trivial fun r s₂ ⟨n, hr, h₂⟩ => ⟨n + 1, ?_, ?_⟩
  · rw [hr]
    show elisions + 1 + n = elisions + (n + 1)
    omega
  · exact (h₁.trans h₂).cast rfl (by simp)

theorem arrayLiteral_parsed :
    Finds .arrayLiteral s parseArrayLiteral (Production.arrayLiteral.Parsed s) s := by
  refine finds_consumeOrFail fun s₁ h₁ => ?_
  refine finds_parseOrNull (fun _ _ h => h) trivial trivial fun elisions s₂ ⟨n, _, h₂⟩ => ?_
  refine finds_ifToken (fun ht => ?_) fun _ => ?_
  · refine finds_skip ht fun s₃ h₃ => ?_
    refine ⟨.emptyArray n, rfl, ((h₁.trans h₂).trans h₃).cast ?_ ?_, trivial, le_rfl⟩
    · dsimp only [Phrase.lexemes]
      simp
    · dsimp only [Phrase.Calm]
      simp
  · refine finds_parseOrFail trivial trivial fun elem s₃ ⟨e, helem, h₃, hlegal₃, hrank₃⟩ => ?_
    refine finds_parseLast (fun _ _ h => h) trivial trivial fun r s₄ ⟨rest, hr, h₄, hlegal₄⟩ => ?_
    refine ⟨.array n e rest, ?_, (((h₁.trans h₂).trans h₃).trans h₄).cast ?_ ?_,
      ⟨hlegal₃.mono, hrank₃, hlegal₄⟩, le_rfl⟩
    · rw [hr, helem]
      rfl
    · dsimp only [Phrase.lexemes]
      simp
    · dsimp only [Phrase.Calm]
      simp

theorem arrayLoop_parsed {elementList : Node} :
    Finds (.arrayLoop elementList) s (parseArrayLoop elementList)
      ((Production.arrayLoop elementList).Parsed s) s := by
  refine finds_ifToken (fun ht => ?_) fun _ => ?_
  · refine finds_skip ht fun s₁ h₁ => ?_
    refine finds_parseOrNull (fun _ _ h => h) trivial trivial fun elisions s₂ ⟨n, _, h₂⟩ => ?_
    refine finds_ifToken (fun ht => ?_) fun _ => ?_
    · refine finds_skip ht fun s₃ h₃ => ?_
      refine ⟨.trailingElisions n, ?_, ((h₁.trans h₂).trans h₃).cast ?_ ?_, trivial⟩
      · show _ = Builder.createArray (some (elementList.appendAll []))
        rw [appendAll_nil]
      · dsimp only [Phrase.lexemes]
        simp
      · dsimp only [Phrase.Calm]
        simp
    · refine finds_parseOrFail trivial trivial fun elem s₃ ⟨e, helem, h₃, hlegal₃, hrank₃⟩ => ?_
      refine finds_parseLast (fun _ _ h => h) trivial trivial fun r s₄ ⟨rest, hr, h₄, hlegal₄⟩ => ?_
      refine ⟨.moreElements n e rest, ?_, (((h₁.trans h₂).trans h₃).trans h₄).cast ?_ ?_,
        ⟨hlegal₃.mono, hrank₃⟩, hlegal₄⟩
      · rw [hr, helem]
        exact congrArg (fun list => Builder.createArray (some list))
          (appendAll_append elementList e.build rest.build)
      · dsimp only [Phrase.lexemes]
        simp
      · dsimp only [Phrase.Calm]
        simp
  · refine finds_consumeOrFail fun s₁ h₁ => ⟨.noElements, ?_, h₁, trivial⟩
    show _ = Builder.createArray (some (elementList.appendAll []))
    rw [appendAll_nil]

/-! ## Object literals -/

theorem prop_constant (p : Phrase .prop) : Node.propertyType p.build = .constant := by
  cases p <;> rfl

theorem needsStrictCheck_parsed {p : Production} {s₀ : ParserState} {β : Type}
    {f : Bool → Parse β} {Q : β → ParserState → Prop} {property : Node}
    (hconst : property.propertyType = .constant) (hf : Finds p s₀ (f false) Q s) :
    Finds p s₀ (needsStrictCheck property >>= f) Q s := by
  unfold needsStrictCheck
  rw [finds_bind, finds_bind]
  unfold Finds
  rw [wp_syntaxAlreadyValidated]
  simpa [yields, hconst, Finds, finds_pure] using hf

theorem objectLiteral_parsed :
    Finds .objectLiteral s parseObjectLiteral (Production.objectLiteral.Parsed s) s := by
  refine finds_tokenData (finds_consumeOrFail fun s₁ h₁ => ?_)
  refine finds_ifToken (fun ht => ?_) fun _ => ?_
  · refine finds_skip ht fun s₂ h₂ =>
      ⟨.emptyObject, rfl, (h₁.trans h₂).cast rfl ?_, trivial, le_rfl⟩
    dsimp only [Phrase.Calm]
    simp
  refine finds_parseOrFail trivial trivial fun property s₂ ⟨p, hproperty, h₂, hlegal₂⟩ => ?_
  subst hproperty
  refine needsStrictCheck_parsed (prop_constant p) ?_
  rw [if_neg (by simp)]
  refine finds_parseOrNull (fun _ _ h => h) trivial trivial fun r s₃ ⟨rest, hr, h₃, hlegal₃⟩ => ?_
  subst hr
  refine finds_consumeOrFail fun s₄ h₄ => ?_
  refine ⟨.object p rest, rfl, (((h₁.trans h₂).trans h₃).trans h₄).cast ?_ ?_,
    ⟨hlegal₂, hlegal₃⟩, le_rfl⟩
  · dsimp only [Phrase.lexemes]
    simp
  · dsimp only [Phrase.Calm]
    simp

theorem objectLoop_parsed {propertyList : Node} {startOffset : Nat} :
    Finds (.objectLoop propertyList startOffset) s (parseObjectLoop propertyList startOffset)
      ((Production.objectLoop propertyList startOffset).Parsed s) s := by
  refine finds_ifToken (fun ht => ?_) fun _ => ⟨.noProps, ?_, .refl s, trivial⟩
  · refine finds_skip ht fun s₁ h₁ => ?_
    refine finds_ifToken (fun _ => ⟨.trailingComma, ?_, h₁, trivial⟩) fun _ => ?_
    · show _ = Sum.inl (propertyList.appendAll [])
      rw [appendAll_nil]
    refine finds_parseOrFail trivial trivial fun property s₂ ⟨p, hproperty, h₂, hlegal₂⟩ => ?_
    subst hproperty
    refine needsStrictCheck_parsed (prop_constant p) ?_
    rw [if_neg (by simp)]
    refine finds_parseLast (fun _ _ h => h) trivial trivial fun r s₃ ⟨rest, hr, h₃, hlegal₃⟩ => ?_
    refine ⟨.moreProps p rest, ?_, ((h₁.trans h₂).trans h₃).cast ?_ ?_, hlegal₂, hlegal₃⟩
    · rw [hr]
      exact congrArg Sum.inl (appendAll_append propertyList p.build rest.build)
    · dsimp only [Phrase.lexemes]
      simp
    · dsimp only [Phrase.Calm]
      simp
  · show _ = Sum.inl (propertyList.appendAll [])
    rw [appendAll_nil]

theorem parseNamedProperty_parsed {wasIdent : Bool}
    (ht : s.token.type = .ident ∨ s.token.type = .string ∨ s.token.type.isKeyword = true) :
    Finds .property s (parseNamedProperty wasIdent) (Production.property.Parsed s) s := by
  refine finds_tokenData (finds_next fun s₁ hn => ?_)
  have h₁ : Read s [.key s.token.type s.token.data.getIdent] True s₁ :=
    .of_step hn ⟨rfl, ht, rfl, hn.eq.1⟩
  refine finds_ifToken (fun ht => ?_) fun _ => ?_
  · refine finds_skip ht fun s₂ h₂ => ?_
    refine finds_parseOrFail trivial trivial fun node s₃ ⟨e, hnode, h₃, hlegal₃, hrank₃⟩ => ?_
    subst hnode
    refine ⟨.prop s.token.type s.token.data.getIdent e, rfl,
      ((h₁.trans h₂).trans h₃).cast rfl ?_, hlegal₃.mono, hrank₃⟩
    dsimp only [Phrase.Calm]
    simp
  refine finds_failIfFalse fun _ => finds_matchOrFail fun _ => ?_
  split
  · exact finds_parseOrFail trivial trivial fun info s₂ _ => finds_crash
  · exact finds_fail

theorem property_parsed :
    Finds .property s parseProperty (Production.property.Parsed s) s := by
  refine finds_tokenType ?_
  split
  case h_1 ht => exact parseNamedProperty_parsed (Or.inl ht)
  case h_2 ht => exact parseNamedProperty_parsed (Or.inr (Or.inl ht))
  case h_3 ht =>
    refine finds_tokenData (finds_next fun s₁ hn => ?_)
    have h₁ : Read s [.numericKey s.token.data.getDouble] True s₁ :=
      .of_step hn ⟨ht, rfl, hn.eq.1⟩
    refine finds_consumeOrFail fun s₂ h₂ => ?_
    refine finds_parseOrFail trivial trivial fun node s₃ ⟨e, hnode, h₃, hlegal₃, hrank₃⟩ => ?_
    subst hnode
    refine ⟨.numericProp s.token.data.getDouble e, rfl,
      ((h₁.trans h₂).trans h₃).cast rfl ?_, hlegal₃.mono, hrank₃⟩
    dsimp only [Phrase.Calm]
    simp
  case h_4 =>
    exact finds_failIfFalse fun hkeyword => parseNamedProperty_parsed (Or.inr (Or.inr hkeyword))

end HammerJS
