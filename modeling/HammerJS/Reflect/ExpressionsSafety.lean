import HammerJS.Reflect.ParserSafety

/-!
# The productions for expressions are safe

One lemma for each production of `Expressions.lean`: its code meets the contract
`safety` while it calls only productions of smaller measure.
-/

namespace HammerJS

open Procs Machine Lexer Parse

variable [Platform] {s : ParserState}

/-! ## Comma, assignment and conditional expressions -/

theorem expression_safe (hp : Pre .expression s) :
    Safe .expression s parseExpression (Done .expression s) s := by
  refine safe_parseOrFail_first rfl rfl rfl hp (.refl hp.sound) trivial fun node s₁ h₁ _ => ?_
  refine safe_ifToken (fun ht => ?_) fun _ => h₁.post trivial
  refine safe_next h₁.toKept (ht ▸ rfl) fun s₂ _ h₂ => ?_
  refine safe_bumpNonLHSCount fun n => ?_
  refine safe_parseOrFail rfl hp (h₂.withCount n) trivial fun right s₃ h₃ _ => ?_
  exact safe_parseLast rfl rfl hp h₃ trivial fun r s₄ h₄ _ => h₄.post trivial

theorem commaLoop_safe {commaNode : Node} (hp : Pre (.commaLoop commaNode) s) :
    Safe (.commaLoop commaNode) s (parseCommaLoop commaNode) (Done (.commaLoop commaNode) s) s := by
  have h := Kept.refl (p := .commaLoop commaNode) hp.sound
  refine safe_ifToken (fun ht => ?_) fun _ => h.post rfl trivial
  refine safe_next h (ht ▸ rfl) fun s₁ _ h₁ => ?_
  refine safe_parseOrFail rfl hp h₁ trivial fun right s₂ h₂ _ => ?_
  exact safe_parseLast rfl rfl hp h₂ trivial fun r s₃ h₃ _ => h₃.post trivial

/-- Each assignment is built from an entry that this production put on the stack. -/
theorem createAssignments_safe {s₀ : ParserState} (lhs : Node) (n : Nat)
    (h : Past .assignmentExpression s₀ s)
    (hn : s₀.regs.context.assignmentInfo.length + n ≤ s.regs.context.assignmentInfo.length) :
    Safe .assignmentExpression s₀ (createAssignments lhs n) (Done .assignmentExpression s₀) s := by
  induction n generalizing lhs s with
  | zero => exact h.post trivial
  | succ n ih =>
      unfold createAssignments createAssignment
      rw [safe_bind]
      refine safe_getStacks ?_
      cases hinfo : s.regs.context.assignmentInfo with
      | nil =>
          rw [hinfo, List.length_nil] at hn
          omega
      | cons info infos =>
          rw [hinfo, List.length_cons] at hn
          refine safe_modifyStacks (ih _ ⟨h.toKept.withStacks h.sound.unary h.sound.operators
            ?_ h.operands h.operators h.unary, h.progress⟩ ?_)
          · refine suffix_of_pop (hinfo ▸ h.assignments : _ <:+ info :: infos) ?_
            show _ ≤ infos.length
            omega
          · show _ ≤ infos.length
            omega

theorem assignmentExpression_safe (hp : Pre .assignmentExpression s) :
    Safe .assignmentExpression s parseAssignmentExpression (Done .assignmentExpression s) s := by
  refine safe_nonLHSCount ?_
  refine safe_parseOrFail_first rfl rfl rfl hp (.refl hp.sound) trivial fun lhs s₁ h₁ hlhs => ?_
  refine safe_nonLHSCount ?_
  split
  · exact h₁.post trivial
  refine safe_parseOrNull rfl rfl hp h₁ trivial fun r s₂ h₂ hr => ?_
  have hdepth := hr.result r rfl
  have hstart := h₁.assignments.length_le
  simp only [Production.Result, Nat.add_zero] at hdepth
  obtain ⟨lhs', assignmentStack⟩ := r
  dsimp only at hdepth ⊢
  split
  · refine safe_bumpNonLHSCount fun n => createAssignments_safe lhs' assignmentStack
      (h₂.withCount n) ?_
    show _ ≤ s₂.regs.context.assignmentInfo.length
    omega
  · exact createAssignments_safe lhs' assignmentStack h₂ (by omega)

omit [Platform] in
theorem assignmentOperator_isReal {t : JSTokenType} {op : Operator}
    (h : assignmentOperator t = some op) : t.isReal = true := by
  cases t <;> first | rfl | simp [assignmentOperator] at h

theorem assignmentLoop_safe {lhs : Node} {assignmentStack initialNonLHSCount : Nat}
    (hp : Pre (.assignmentLoop lhs assignmentStack initialNonLHSCount) s) :
    Safe (.assignmentLoop lhs assignmentStack initialNonLHSCount) s
      (parseAssignmentLoop lhs assignmentStack initialNonLHSCount)
      (Done (.assignmentLoop lhs assignmentStack initialNonLHSCount) s) s := by
  have h := Kept.refl (p := .assignmentLoop lhs assignmentStack initialNonLHSCount) hp.sound
  refine safe_tokenType ?_
  cases hop : assignmentOperator s.token.type with
  | none => exact h.post rfl le_rfl
  | some op =>
      refine safe_modifyStacks ?_
      have hpush := h.withStacks (k := { s.regs.context with
        assignmentInfo := (lhs, op) :: s.regs.context.assignmentInfo }) h.sound.unary
        h.sound.operators (List.suffix_cons _ _) h.operands h.operators h.unary
      refine safe_next hpush (assignmentOperator_isReal hop) fun s₁ hn h₁ => ?_
      have hlen : s₁.regs.context.assignmentInfo.length =
        s.regs.context.assignmentInfo.length + 1 := by rw [hn.regs_error.1]; rfl
      refine safe_parseOrFail rfl hp h₁ trivial fun lhs' s₂ h₂ hlhs => ?_
      have hkept := hlhs.kept.assignments.length_le
      refine safe_nonLHSCount ?_
      split
      · refine h₂.toKept.post rfl ?_
        simp only [Production.Result]
        omega
      · have hnested : Nested (.assignmentLoop lhs assignmentStack initialNonLHSCount) s
            (.assignmentLoop lhs' (assignmentStack + 1) initialNonLHSCount) s₂ := by
          refine ⟨h₂.toUntouched, h₂.operands_length, h₂.operators_length, h₂.unary.length_le, ?_⟩
          simp only [Production.assignmentDepth]
          omega
        refine safe_parseLast_nested rfl rfl rfl hp h₂ trivial hnested
          fun r s₃ h₃ hr => h₃.toKept.post rfl ?_
        have := hr.result r rfl
        simp only [Production.Result] at this ⊢
        omega

theorem conditionalExpression_safe (hp : Pre .conditionalExpression s) :
    Safe .conditionalExpression s parseConditionalExpression (Done .conditionalExpression s) s := by
  refine safe_parseOrFail_first rfl rfl rfl hp (.refl hp.sound) trivial fun cond s₁ h₁ _ => ?_
  refine safe_ifToken (fun ht => ?_) fun _ => h₁.post trivial
  refine safe_bumpNonLHSCount fun n => ?_
  refine safe_next (h₁.withCount n).toKept (ht ▸ rfl) fun s₂ _ h₂ => ?_
  refine safe_parse rfl hp h₂ trivial fun lhs s₃ h₃ _ => ?_
  refine safe_consumeOrFail rfl h₃.toKept fun s₄ _ h₄ => ?_
  exact safe_parseOrFail rfl hp h₄ trivial fun rhs s₅ h₅ _ => h₅.post trivial

/-! ## Binary expressions -/

omit [Platform] in
theorem binaryOperator_isReal {t : JSTokenType} {allowsIn : Bool}
    (h : t.isBinaryOperator allowsIn ≠ 0) : t.isReal = true := by
  cases t <;> first | rfl | (revert h; cases allowsIn <;> decide)

/-- What one reduction needs, and what it does to the heights of the stacks. -/
theorem reduceOperands_safe {p : Production} {s₀ : ParserState} {β : Type} {f : Unit → Parse β}
    {Q : β → ParserState → Prop} (h : Past p s₀ s) {m n : Nat}
    (hm : s.regs.context.binaryOperand.length = m + 2)
    (hn : s.regs.context.binaryOperator.length = n + 1)
    (hm₀ : s₀.regs.context.binaryOperand.length ≤ m + p.slack)
    (hn₀ : s₀.regs.context.binaryOperator.length ≤ n + p.slack)
    (hf : ∀ s', Past p s₀ s' → s'.regs.context.binaryOperand.length = m + 1 →
      s'.regs.context.binaryOperator.length = n → Safe p s₀ (f ()) Q s') :
    Safe p s₀ (reduceOperands >>= f) Q s := by
  unfold reduceOperands
  rw [safe_bind]
  refine safe_getStacks ?_
  obtain ⟨rhs, operands, hrhs⟩ := List.exists_cons_of_length_eq_add_one hm
  rw [hrhs, List.length_cons] at hm
  obtain ⟨lhs, operands', hlhs⟩ :=
    List.exists_cons_of_length_eq_add_one (show operands.length = m + 1 by omega)
  obtain ⟨⟨op, precedence⟩, operators, hop⟩ := List.exists_cons_of_length_eq_add_one hn
  rw [hop, List.length_cons] at hn
  rw [hlhs, List.length_cons] at hm
  have hconv : (convertToken op).isSome = true :=
    h.sound.operators (op, precedence) (by rw [hop]; exact List.mem_cons_self)
  obtain ⟨operatorType, hconv⟩ := Option.isSome_iff_exists.mp hconv
  simp only [hrhs, hlhs, hop, Builder.makeBinaryNode, hconv, Option.map_some]
  rw [← safe_bind]
  refine safe_modifyStacks ?_
  refine hf _ ⟨h.toKept.withStacks h.sound.unary ?_ h.assignments ?_ ?_ h.unary, h.progress⟩ ?_ ?_
  · intro o ho
    exact h.sound.operators o (by rw [hop]; exact List.mem_cons_of_mem _ ho)
  · have hlhs' : s₀.regs.context.binaryOperand.drop p.slack <:+ lhs :: operands' :=
      suffix_of_pop (hlhs ▸ hrhs ▸ h.operands)
        (by simp only [List.length_drop, List.length_cons]; omega)
    refine (suffix_of_pop hlhs' ?_).trans (List.suffix_cons _ _)
    simp only [List.length_drop]
    omega
  · refine suffix_of_pop (hop ▸ h.operators : _ <:+ (op, precedence) :: operators) ?_
    rw [List.length_drop]
    show _ ≤ operators.length
    omega
  · show operands'.length + 1 = m + 1
    omega
  · show operators.length = n
    omega

theorem reduceAll_safe {s₀ : ParserState} (n : Nat) (h : Past .binaryExpression s₀ s)
    (hn : s₀.regs.context.binaryOperand.length + (n + 1) ≤ s.regs.context.binaryOperand.length)
    (hn' : s₀.regs.context.binaryOperator.length + n ≤ s.regs.context.binaryOperator.length) :
    Safe .binaryExpression s₀ (reduceAll (n + 1) n) (fun _ s' => Past .binaryExpression s₀ s' ∧
      s₀.regs.context.binaryOperand.length + 1 ≤ s'.regs.context.binaryOperand.length) s := by
  induction n generalizing s with
  | zero => exact ⟨h, hn⟩
  | succ n ih =>
      refine safe_assert (by simp) ?_
      obtain ⟨m, hm⟩ : ∃ m, s.regs.context.binaryOperand.length = m + 2 :=
        ⟨s.regs.context.binaryOperand.length - 2, by omega⟩
      obtain ⟨k, hk⟩ : ∃ k, s.regs.context.binaryOperator.length = k + 1 :=
        ⟨s.regs.context.binaryOperator.length - 1, by omega⟩
      refine reduceOperands_safe h hm hk (by omega) (by omega) fun s' h' hm' hk' => ?_
      exact ih h' (by omega) (by omega)

theorem binaryExpression_safe (hp : Pre .binaryExpression s) :
    Safe .binaryExpression s parseBinaryExpression (Done .binaryExpression s) s := by
  have hstart : (Production.binaryLoop 0 0).Start s := ⟨rfl, Nat.zero_le _, Nat.zero_le _⟩
  refine safe_parse_first rfl rfl hp (.refl hp.sound) hstart fun r s₁ h₁ hr => ?_
  refine safe_orReturnNull h₁ (fun hnone => hr.error hnone rfl) fun a ha => ?_
  subst ha
  have hprogress := hr.progress (by simp) rfl
  obtain ⟨hdepth, hoperands, hoperators⟩ := hr.result a rfl
  obtain ⟨operandStackDepth, operatorStackDepth⟩ := a
  dsimp only at hdepth hoperands hoperators ⊢
  subst hdepth
  rw [safe_bind]
  refine (reduceAll_safe operatorStackDepth ⟨h₁, hprogress⟩ hoperands hoperators).mono ?_
  rintro _ s₂ ⟨h₂, hlen⟩
  unfold popOperandStack
  refine safe_getStacks ?_
  cases hoperand : s₂.regs.context.binaryOperand with
  | nil => simp [hoperand] at hlen
  | cons node operands =>
      rw [hoperand, List.length_cons] at hlen
      refine safe_modifyStacks ?_
      rw [safe_pure]
      refine Past.post ⟨h₂.toKept.withStacks (k := { s₂.regs.context with
        binaryOperand := operands }) h₂.sound.unary h₂.sound.operators h₂.assignments
        (suffix_of_pop (hoperand ▸ h₂.operands) ?_) h₂.operators h₂.unary, h₂.progress⟩ trivial
      simp only [Production.slack, List.drop_zero]
      omega

/-- The reductions made for one operator. -/
theorem reduceHigher_safe {p : Production} {s₀ : ParserState} (precedence n : Nat)
    (h : Past p s₀ s)
    (hn : s₀.regs.context.binaryOperand.length + (n + 1) ≤
      s.regs.context.binaryOperand.length + p.slack)
    (hn' : s₀.regs.context.binaryOperator.length + n ≤
      s.regs.context.binaryOperator.length + p.slack)
    (hs : p.slack ≤ s₀.regs.context.binaryOperand.length)
    (hs' : p.slack ≤ s₀.regs.context.binaryOperator.length) :
    Safe p s₀ (reduceHigher precedence (n + 1) n) (fun r s' => Past p s₀ s' ∧
      r.1 = r.2 + 1 ∧ s₀.regs.context.binaryOperand.length + r.1 ≤
        s'.regs.context.binaryOperand.length + p.slack ∧
      s₀.regs.context.binaryOperator.length + r.2 ≤
        s'.regs.context.binaryOperator.length + p.slack) s := by
  induction n generalizing s with
  | zero => exact ⟨h, rfl, hn, hn'⟩
  | succ n ih =>
      unfold reduceHigher operatorStackHasHigherPrecedence
      rw [safe_bind]
      refine safe_getStacks ?_
      obtain ⟨m, hm⟩ : ∃ m, s.regs.context.binaryOperand.length = m + 2 :=
        ⟨s.regs.context.binaryOperand.length - 2, by omega⟩
      obtain ⟨k, hk⟩ : ∃ k, s.regs.context.binaryOperator.length = k + 1 :=
        ⟨s.regs.context.binaryOperator.length - 1, by omega⟩
      obtain ⟨⟨op, last⟩, operators, hop⟩ := List.exists_cons_of_length_eq_add_one hk
      simp only [hop]
      rw [safe_pure]
      split
      · refine safe_assert (by simp) ?_
        refine reduceOperands_safe h hm hk (by omega) (by omega) fun s' h' hm' hk' => ?_
        exact ih h' (by omega) (by omega)
      · exact ⟨h, rfl, hn, hn'⟩

theorem binaryLoop_safe {operandStackDepth operatorStackDepth : Nat}
    (hp : Pre (.binaryLoop operandStackDepth operatorStackDepth) s) :
    Safe (.binaryLoop operandStackDepth operatorStackDepth) s
      (parseBinaryLoop operandStackDepth operatorStackDepth)
      (Done (.binaryLoop operandStackDepth operatorStackDepth) s) s := by
  obtain ⟨hdepth, hoperands, hoperators⟩ := hp.start
  subst hdepth
  refine safe_parse_first rfl rfl hp (.refl hp.sound) trivial fun current s₁ h₁ hcurrent => ?_
  refine safe_failIfNull h₁ fun node hnode => ?_
  subst hnode
  have hprogress := hcurrent.progress (by simp) rfl
  have hkept := hcurrent.kept
  have hlen := hkept.operands_length
  have hlen' := hkept.operators_length
  simp only [Production.slack, Nat.add_zero] at hlen hlen'
  refine safe_modifyStacks ?_
  have h₂ : Past (.binaryLoop operatorStackDepth operatorStackDepth) s { s₁ with regs :=
      { s₁.regs with context := { s₁.regs.context with
        binaryOperand := node :: s₁.regs.context.binaryOperand } } } :=
    ⟨h₁.withStacks (k := { s₁.regs.context with
      binaryOperand := node :: s₁.regs.context.binaryOperand }) h₁.sound.unary h₁.sound.operators
      h₁.assignments (h₁.operands.trans (List.suffix_cons _ _)) h₁.operators
      h₁.unary, hprogress⟩
  unfold binaryPrecedence
  rw [safe_bind]
  refine safe_tokenType (safe_allowsIn ?_)
  rw [safe_pure]
  split
  · refine h₂.post ⟨rfl, ?_, ?_⟩
    · show _ ≤ (node :: s₁.regs.context.binaryOperand).length + operatorStackDepth
      rw [List.length_cons]
      omega
    · show _ ≤ s₁.regs.context.binaryOperator.length + operatorStackDepth
      omega
  rename_i hprecedence
  refine safe_bumpNonLHSCount fun n => safe_tokenType ?_
  refine safe_next (h₂.withCount n).toKept (binaryOperator_isReal hprecedence)
    fun s₃ hn h₃ => ?_
  have hlen₃ : s₃.regs.context.binaryOperand.length =
      s₁.regs.context.binaryOperand.length + 1 := by rw [hn.regs_error.1]; rfl
  have hlen₃' : s₃.regs.context.binaryOperator.length =
      s₁.regs.context.binaryOperator.length := by rw [hn.regs_error.1]
  rw [safe_bind]
  refine (reduceHigher_safe _ operatorStackDepth h₃ ?_ ?_ hoperands hoperators).mono ?_
  · simp only [Production.slack]
    omega
  · simp only [Production.slack]
    omega
  rintro ⟨operandDepth, operatorDepth⟩ s₄ ⟨h₄, hdepth, hoperands₄, hoperators₄⟩
  simp only [Production.slack] at hdepth hoperands₄ hoperators₄
  subst hdepth
  refine safe_modifyStacks ?_
  have h₅ := h₄.toKept.withStacks (k := { s₄.regs.context with
    binaryOperator := (s₁.token.type, s₁.token.type.isBinaryOperator s₁.regs.allowsIn) ::
      s₄.regs.context.binaryOperator }) h₄.sound.unary
    (by
      intro o ho
      rcases List.mem_cons.mp ho with rfl | ho
      · exact convertToken_isSome hprecedence
      · exact h₄.sound.operators o ho)
    h₄.assignments h₄.operands
    (h₄.operators.trans (List.suffix_cons _ _)) h₄.unary
  have hstart : (Production.binaryLoop (operatorDepth + 1) (operatorDepth + 1)).Start
      { s₄ with regs := { s₄.regs with context := { s₄.regs.context with
        binaryOperator := (s₁.token.type, s₁.token.type.isBinaryOperator s₁.regs.allowsIn) ::
          s₄.regs.context.binaryOperator } } } := by
    refine ⟨rfl, ?_, ?_⟩
    · show _ ≤ s₄.regs.context.binaryOperand.length
      omega
    · show _ ≤ s₄.regs.context.binaryOperator.length + 1
      omega
  have hbelow : s.regs.context.binaryOperand.drop operatorStackDepth <:+
      s₄.regs.context.binaryOperand.drop (operatorDepth + 1) :=
    suffix_drop h₄.operands (by simp only [List.length_drop]; omega)
  have hbelow' : s.regs.context.binaryOperator.drop operatorStackDepth <:+
      s₄.regs.context.binaryOperator.drop operatorDepth :=
    suffix_drop h₄.operators (by simp only [List.length_drop]; omega)
  refine wp_parse ⟨⟨h₅.sound, fun h => (by cases h), hstart⟩, ?_, fun _ => ⟨h₅.toUntouched,
    ?_, ?_, h₅.unary.length_le, h₅.assignments.length_le⟩, fun _ _ => h₄.allowsIn⟩
    fun r s₆ _ hr => ?_
  · have := h₄.progress
    simp only [safetyMeasure, Production.rank]
    simp only [ParserState.left] at this ⊢
    omega
  · show _ + (operatorDepth + 1) ≤ s₄.regs.context.binaryOperand.length + operatorStackDepth
    omega
  · show _ + (operatorDepth + 1) ≤ s₄.regs.context.binaryOperator.length + 1 + operatorStackDepth
    omega
  have h₆ : Past (.binaryLoop operatorStackDepth operatorStackDepth) s s₆ :=
    ⟨⟨⟨h₄.assignments.trans hr.kept.assignments, hbelow.trans hr.kept.operands,
      hbelow'.trans hr.kept.operators, h₄.unary.trans hr.kept.unary⟩, hr.kept.sound,
      hr.kept.left.trans h₄.left, hr.kept.allowsIn.trans h₄.allowsIn⟩,
      lt_of_le_of_lt hr.kept.left h₄.progress⟩
  refine safe_answer h₆.toKept (fun hnone => hr.error hnone rfl) fun a ha => h₆.post ?_
  obtain ⟨hdepth, hoperands₇, hoperators₇⟩ := hr.result a ha
  simp only [List.length_cons] at hoperators₇
  change s₄.regs.context.binaryOperand.length + a.1 ≤ _ at hoperands₇
  exact ⟨hdepth, by omega, by omega⟩

/-! ## Unary expressions -/

theorem unaryExpression_safe (hp : Pre .unaryExpression s) :
    Safe .unaryExpression s parseUnaryExpression (Done .unaryExpression s) s := by
  refine safe_allowsIn (safe_modifyRegs ?_)
  have hsound : Sound { s with regs := { s.regs with allowsIn := true } } :=
    ⟨hp.sound.valid, hp.sound.idle, hp.sound.unary, hp.sound.operators⟩
  refine wp_parse ⟨⟨hsound, fun _ => rfl, trivial⟩, ?_, fun _ =>
    ⟨⟨List.suffix_rfl, List.suffix_rfl, List.suffix_rfl, List.suffix_rfl⟩,
      le_rfl, le_rfl, le_rfl, le_rfl⟩, fun hne => absurd rfl hne⟩ fun expr s₁ _ hexpr => ?_
  · simp only [safetyMeasure, Production.rank, ParserState.left]
    omega
  refine safe_modifyRegs ?_
  have h₁ : Kept .unaryExpression s { s₁ with regs :=
      { s₁.regs with allowsIn := s.regs.allowsIn } } :=
    ⟨⟨hexpr.kept.assignments, hexpr.kept.operands, hexpr.kept.operators, hexpr.kept.unary⟩,
      ⟨hexpr.kept.sound.valid, hexpr.kept.sound.idle, hexpr.kept.sound.unary,
        hexpr.kept.sound.operators⟩, hexpr.kept.left, rfl⟩
  refine safe_answer h₁ (fun hnone => hexpr.error hnone rfl) fun a ha => ?_
  subst ha
  exact Past.post ⟨h₁, hexpr.progress (by simp) rfl⟩ trivial

omit [Platform] in
theorem unaryOp_isReal {t : JSTokenType} (h : t.isUnaryOp = true) : t.isReal = true := by
  cases t <;> first | rfl | (revert h; decide)

theorem unaryTokensLoop_safe {tokenStackDepth : Nat}
    (hp : Pre (.unaryTokensLoop tokenStackDepth) s) :
    Safe (.unaryTokensLoop tokenStackDepth) s (parseUnaryTokensLoop tokenStackDepth)
      (Done (.unaryTokensLoop tokenStackDepth) s) s := by
  have h := Kept.refl (p := .unaryTokensLoop tokenStackDepth) hp.sound
  refine safe_tokenType ?_
  split
  · rename_i hunary
    refine safe_bumpNonLHSCount fun n => safe_modifyStacks ?_
    have h₁ := (h.withCount n).withStacks (k := { s.regs.context with
      unaryToken := s.token.type :: s.regs.context.unaryToken })
      (by
        intro t ht
        rcases List.mem_cons.mp ht with rfl | ht
        · exact hunary
        · exact h.sound.unary t ht)
      h.sound.operators h.assignments h.operands h.operators (List.suffix_cons _ _)
    refine safe_next h₁ (unaryOp_isReal hunary) fun s₂ hn h₂ => ?_
    have hlen : s₂.regs.context.unaryToken.length = s.regs.context.unaryToken.length + 1 := by
      rw [hn.regs_error.1]
      rfl
    have hnested : Nested (.unaryTokensLoop tokenStackDepth) s
        (.unaryTokensLoop (tokenStackDepth + 1)) s₂ := by
      refine ⟨h₂.toUntouched, h₂.operands_length, h₂.operators_length, ?_,
        h₂.assignments.length_le⟩
      simp only [Production.unaryDepth]
      omega
    refine safe_parseLast_nested rfl rfl rfl hp h₂ trivial hnested fun depth s₃ h₃ hdepth =>
      h₃.toKept.post rfl ?_
    have := hdepth.result depth rfl
    simp only [Production.Result] at this ⊢
    omega
  · exact h.post rfl le_rfl

/-- The tokens of prefix operators all have a node. -/
theorem makeUnaryNode_safe {p : Production} {s₀ : ParserState} {β : Type} {f : Node → Parse β}
    {Q : β → ParserState → Prop} {expr : Node} {t : JSTokenType} (ht : t.isUnaryOp = true)
    (hf : ∀ node, Safe p s₀ (f node) Q s) : Safe p s₀ (makeUnaryNode expr t >>= f) Q s := by
  cases t <;> first | exact hf _ | exact absurd ht (by decide)

theorem makeUnaryNodes_safe {s₀ : ParserState} (expr : Node) (n : Nat)
    (h : Past .unaryExpressionBody s₀ s)
    (hn : s₀.regs.context.unaryToken.length + n ≤ s.regs.context.unaryToken.length) :
    Safe .unaryExpressionBody s₀ (makeUnaryNodes expr n) (Done .unaryExpressionBody s₀) s := by
  induction n generalizing expr s with
  | zero => exact h.post trivial
  | succ n ih =>
      unfold makeUnaryNodes popUnaryToken
      rw [safe_bind]
      refine safe_getStacks ?_
      cases hunary : s.regs.context.unaryToken with
      | nil =>
          rw [hunary, List.length_nil] at hn
          omega
      | cons t ts =>
          rw [hunary, List.length_cons] at hn
          have htoken : t.isUnaryOp = true :=
            h.sound.unary t (by rw [hunary]; exact List.mem_cons_self)
          refine safe_modifyStacks ?_
          rw [safe_pure]
          refine makeUnaryNode_safe htoken fun node => ih node ⟨h.toKept.withStacks
            (k := { s.regs.context with unaryToken := ts }) ?_ h.sound.operators h.assignments
            h.operands h.operators ?_, h.progress⟩ ?_
          · intro t' ht'
            exact h.sound.unary t' (by rw [hunary]; exact List.mem_cons_of_mem _ ht')
          · refine suffix_of_pop (hunary ▸ h.unary : _ <:+ t :: ts) ?_
            show _ ≤ ts.length
            omega
          · show _ ≤ ts.length
            omega

theorem parsePostfix_safe {p : Production} {s₀ : ParserState} {β : Type} {f : Node → Parse β}
    {Q : β → ParserState → Prop} {expr : Node} (h : Past p s₀ s)
    (hf : ∀ node s', Past p s₀ s' → s'.regs.context = s.regs.context →
      Safe p s₀ (f node) Q s') : Safe p s₀ (parsePostfix expr >>= f) Q s := by
  unfold parsePostfix
  rw [safe_bind]
  refine safe_tokenType ?_
  split
  · rename_i ht
    refine safe_bumpNonLHSCount fun n => ?_
    refine safe_next (h.withCount n).toKept (ht ▸ rfl) fun s' hn h' => ?_
    exact hf _ s' h' (by rw [hn.regs_error.1])
  · rename_i ht
    refine safe_bumpNonLHSCount fun n => ?_
    refine safe_next (h.withCount n).toKept (ht ▸ rfl) fun s' hn h' => ?_
    exact hf _ s' h' (by rw [hn.regs_error.1])
  · exact hf expr s h rfl

theorem unaryExpressionBody_safe (hp : Pre .unaryExpressionBody s) :
    Safe .unaryExpressionBody s parseUnaryExpressionBody (Done .unaryExpressionBody s) s := by
  refine safe_parseOrNull_first rfl rfl rfl hp (.refl hp.sound) trivial fun depth s₁ h₁ hdepth => ?_
  have hlen := hdepth.result depth rfl
  simp only [Production.Result] at hlen
  refine safe_parseOrFail_first rfl rfl rfl hp h₁ trivial fun expr s₂ h₂ hexpr => ?_
  have hlen₂ := hexpr.kept.unary.length_le
  refine parsePostfix_safe h₂ fun node s₃ h₃ hcontext => ?_
  refine makeUnaryNodes_safe node depth h₃ ?_
  rw [hcontext]
  omega

/-! ## Member expressions -/

theorem newLoop_safe {newCount : Nat} (hp : Pre (.newLoop newCount) s) :
    Safe (.newLoop newCount) s (parseNewLoop newCount) (Done (.newLoop newCount) s) s := by
  have h := Kept.refl (p := .newLoop newCount) hp.sound
  refine safe_ifToken (fun ht => ?_) fun _ => h.post rfl trivial
  refine safe_next h (ht ▸ rfl) fun s₁ _ h₁ => ?_
  exact safe_parseLast rfl rfl hp h₁ trivial fun n s₂ h₂ _ => h₂.toKept.post rfl trivial

theorem parseMemberBase_safe {s₀ : ParserState} {β : Type} {f : Node → Parse β}
    {Q : β → ParserState → Prop} (hp : Pre .memberExpression s₀) (h : Kept .memberExpression s₀ s)
    (hf : ∀ base s', Past .memberExpression s₀ s' → Safe .memberExpression s₀ (f base) Q s') :
    Safe .memberExpression s₀ (parseMemberBase >>= f) Q s := by
  unfold parseMemberBase
  rw [safe_bind]
  refine safe_ifToken (fun ht => ?_) fun _ => ?_
  · refine safe_next h (ht ▸ rfl) fun s₁ _ h₁ => ?_
    exact safe_parseOrFail rfl hp h₁ trivial fun info s₂ h₂ _ => hf _ s₂ h₂
  · refine safe_parse_first rfl rfl (q := .primaryExpression) hp h trivial fun r s₁ h₁ hr => ?_
    cases r with
    | none => exact safe_fail h₁
    | some base =>
        exact hf base s₁ ⟨h₁, lt_of_lt_of_le (hr.progress (by simp) rfl) h.left⟩

theorem memberExpression_safe (hp : Pre .memberExpression s) :
    Safe .memberExpression s parseMemberExpression (Done .memberExpression s) s := by
  refine safe_parseOrNull_first rfl rfl rfl hp (.refl hp.sound) trivial fun newCount s₁ h₁ _ => ?_
  refine parseMemberBase_safe hp h₁ fun base s₂ h₂ => ?_
  exact safe_parseOrNull rfl rfl hp h₂ trivial fun r s₃ h₃ _ => h₃.post trivial

theorem memberLoop_safe {base : Node} {newCount : Nat} (hp : Pre (.memberLoop base newCount) s) :
    Safe (.memberLoop base newCount) s (parseMemberLoop base newCount)
      (Done (.memberLoop base newCount) s) s := by
  have h := Kept.refl (p := .memberLoop base newCount) hp.sound
  refine safe_tokenType ?_
  split
  case h_1 ht =>
    refine safe_next h (ht ▸ rfl) fun s₁ _ h₁ => safe_nonLHSCount ?_
    refine safe_parseOrFail rfl hp h₁ trivial fun property s₂ h₂ _ => ?_
    refine safe_consume rfl h₂.toKept (fun _ s₃ _ h₃ => ?_) fun s₃ h₃ => safe_fail h₃
    refine safe_setNonLHSCount ?_
    exact safe_parseLast rfl rfl hp (h₃.withCount _) trivial
      fun r s₄ h₄ _ => h₄.toKept.post rfl trivial
  case h_2 ht =>
    cases newCount with
    | succ n =>
        refine safe_ifToken (fun _ => ?_) fun hne => absurd ht hne
        refine safe_parseOrFail_first rfl rfl rfl hp h trivial fun arguments s₁ h₁ _ => ?_
        exact safe_parseLast rfl rfl hp h₁ trivial fun r s₂ h₂ _ => h₂.toKept.post rfl trivial
    | zero =>
        refine safe_nonLHSCount ?_
        refine safe_parseOrFail_first rfl rfl rfl hp h trivial fun arguments s₁ h₁ _ => ?_
        refine safe_setNonLHSCount ?_
        exact safe_parseLast rfl rfl hp (h₁.withCount _) trivial
          fun r s₂ h₂ _ => h₂.toKept.post rfl trivial
  case h_3 ht =>
    refine safe_next h (ht ▸ rfl) fun s₁ _ h₁ => ?_
    refine safe_matchOrFail h₁.toKept fun hident => safe_tokenData ?_
    refine safe_next h₁.toKept (hident ▸ rfl) fun s₂ _ h₂ => ?_
    exact safe_parseLast rfl rfl hp h₂ trivial fun r s₃ h₃ _ => h₃.toKept.post rfl trivial
  case h_4 => exact h.post rfl trivial

theorem arguments_safe (hp : Pre .arguments s) :
    Safe .arguments s parseArguments (Done .arguments s) s := by
  refine safe_consumeOrFail rfl (.refl hp.sound) fun s₁ _ h₁ => ?_
  refine safe_ifToken (fun ht => ?_) fun _ => ?_
  · exact safe_next h₁.toKept (ht ▸ rfl) fun s₂ _ h₂ => h₂.post trivial
  · refine safe_parseOrFail rfl hp h₁ trivial fun firstArg s₂ h₂ _ => ?_
    refine safe_parseOrNull rfl rfl hp h₂ trivial fun argList s₃ h₃ _ => ?_
    exact safe_consumeOrFail rfl h₃.toKept fun s₄ _ h₄ => h₄.post trivial

theorem argumentsLoop_safe {argList : Node} (hp : Pre (.argumentsLoop argList) s) :
    Safe (.argumentsLoop argList) s (parseArgumentsLoop argList)
      (Done (.argumentsLoop argList) s) s := by
  have h := Kept.refl (p := .argumentsLoop argList) hp.sound
  refine safe_ifToken (fun ht => ?_) fun _ => h.post rfl trivial
  refine safe_next h (ht ▸ rfl) fun s₁ _ h₁ => ?_
  refine safe_parseOrFail rfl hp h₁ trivial fun arg s₂ h₂ _ => ?_
  exact safe_parseLast rfl rfl hp h₂ trivial fun r s₃ h₃ _ => h₃.toKept.post rfl trivial

/-! ## Primary expressions -/

theorem parseRegExp_safe {s₀ : ParserState} (patternPrefix : Option UChar)
    (hpre : ∀ c, patternPrefix = some c → RegExpPrefix c)
    (h : Kept .primaryExpression s₀ s) (ht : s.token.type.isReal = true) :
    Safe .primaryExpression s₀ (parseRegExp patternPrefix) (Done .primaryExpression s₀) s := by
  have hne : s.token.type ≠ .errorTok := by
    intro he
    rw [he] at ht
    cases ht
  obtain ⟨r, lexer, hscan, hmoved, hidle⟩ :=
    scanRegExp_succeeds patternPrefix (h.sound.idle hne) hpre
  have hstep : parserStep (.scanRegExp patternPrefix) s = .ok (r, { s with lexer }) := by
    simp only [parserStep, hscan, Except.map]
  have hlen := hmoved.length_le
  have h₁ : Kept .primaryExpression s₀ { s with lexer } := by
    refine ⟨⟨h.assignments, h.operands, h.operators, h.unary⟩,
      ⟨hmoved.valid, fun _ => hidle, h.sound.unary, h.sound.operators⟩, ?_, h.allowsIn⟩
    have := h.left
    simp only [ParserState.left] at this ⊢
    omega
  unfold parseRegExp
  rw [safe_bind]
  unfold Safe
  rw [wp_perform_ok ⟨by simp, id⟩ hstep]
  refine safe_failIfNull h₁ fun a _ => ?_
  exact safe_next h₁ ht fun s₂ _ h₂ => h₂.post trivial

omit [Platform] in
theorem regExpPrefix_equal : ∀ c, some '='.toNat.toUInt16 = some c → RegExpPrefix c := by
  rintro c ⟨⟩
  exact ⟨by decide, by decide, by decide⟩

theorem primaryExpression_safe (hp : Pre .primaryExpression s) :
    Safe .primaryExpression s parsePrimaryExpression (Done .primaryExpression s) s := by
  have h := Kept.refl (p := .primaryExpression) hp.sound
  refine safe_tokenType ?_
  split
  case h_1 =>
    refine safe_parse_first rfl rfl hp h trivial fun r s₁ h₁ hr => ?_
    refine safe_answer h₁ (fun hnone => hr.error hnone rfl) fun a ha => ?_
    subst ha
    exact Past.post ⟨h₁, hr.progress (by simp) rfl⟩ trivial
  case h_2 =>
    refine safe_parse_first rfl rfl hp h trivial fun r s₁ h₁ hr => ?_
    refine safe_answer h₁ (fun hnone => hr.error hnone rfl) fun a ha => ?_
    subst ha
    exact Past.post ⟨h₁, hr.progress (by simp) rfl⟩ trivial
  case h_3 ht =>
    refine safe_next h (ht ▸ rfl) fun s₁ _ h₁ => safe_nonLHSCount ?_
    refine safe_parse rfl hp h₁ trivial fun result s₂ h₂ hresult => safe_setNonLHSCount ?_
    refine safe_consumeOrFail rfl (h₂.withCount _).toKept fun s₃ hn h₃ => ?_
    refine safe_answer h₃.toKept (fun hnone => ?_) fun a _ => h₃.post trivial
    rw [hn.regs_error.2]
    exact hresult.error hnone rfl
  case h_11 ht => exact parseRegExp_safe _ regExpPrefix_equal h (ht ▸ rfl)
  case h_12 ht => exact parseRegExp_safe _ (fun c hc => by cases hc) h (ht ▸ rfl)
  case h_13 => exact safe_fail h
  case h_5 ht | h_6 ht | h_7 ht =>
    refine safe_tokenData ?_
    refine safe_next h (ht ▸ rfl) fun s₁ _ h₁ => ?_
    exact h₁.post trivial
  case h_4 ht | h_8 ht | h_9 ht | h_10 ht =>
    refine safe_next h (ht ▸ rfl) fun s₁ _ h₁ => ?_
    exact h₁.post trivial

theorem elisionsLoop_safe {elisions : Nat} (hp : Pre (.elisionsLoop elisions) s) :
    Safe (.elisionsLoop elisions) s (parseElisionsLoop elisions)
      (Done (.elisionsLoop elisions) s) s := by
  have h := Kept.refl (p := .elisionsLoop elisions) hp.sound
  refine safe_ifToken (fun ht => ?_) fun _ => h.post rfl trivial
  refine safe_next h (ht ▸ rfl) fun s₁ _ h₁ => ?_
  exact safe_parseLast rfl rfl hp h₁ trivial fun r s₂ h₂ _ => h₂.toKept.post rfl trivial

theorem arrayLiteral_safe (hp : Pre .arrayLiteral s) :
    Safe .arrayLiteral s parseArrayLiteral (Done .arrayLiteral s) s := by
  refine safe_consumeOrFail rfl (.refl hp.sound) fun s₁ _ h₁ => ?_
  refine safe_parseOrNull rfl rfl hp h₁ trivial fun elisions s₂ h₂ _ => ?_
  refine safe_ifToken (fun ht => ?_) fun _ => ?_
  · exact safe_next h₂.toKept (ht ▸ rfl) fun s₃ _ h₃ => h₃.post trivial
  · refine safe_parseOrFail rfl hp h₂ trivial fun elem s₃ h₃ _ => ?_
    exact safe_parseLast rfl rfl hp h₃ trivial fun r s₄ h₄ _ => h₄.post trivial

theorem arrayLoop_safe {elementList : Node} (hp : Pre (.arrayLoop elementList) s) :
    Safe (.arrayLoop elementList) s (parseArrayLoop elementList)
      (Done (.arrayLoop elementList) s) s := by
  have h := Kept.refl (p := .arrayLoop elementList) hp.sound
  refine safe_ifToken (fun ht => ?_) fun _ => ?_
  · refine safe_next h (ht ▸ rfl) fun s₁ _ h₁ => ?_
    refine safe_parseOrNull rfl rfl hp h₁ trivial fun elisions s₂ h₂ _ => ?_
    refine safe_ifToken (fun ht => ?_) fun _ => ?_
    · exact safe_next h₂.toKept (ht ▸ rfl) fun s₃ _ h₃ => h₃.toKept.post rfl trivial
    · refine safe_parseOrFail rfl hp h₂ trivial fun elem s₃ h₃ _ => ?_
      exact safe_parseLast rfl rfl hp h₃ trivial fun r s₄ h₄ _ => h₄.toKept.post rfl trivial
  · exact safe_consumeOrFail rfl h fun s₁ _ h₁ => h₁.toKept.post rfl trivial

/-! ## Object literals -/

/-- A property that is read in the first place is never read again. -/
theorem needsStrictCheck_safe {p : Production} {s₀ : ParserState} {β : Type} {f : Bool → Parse β}
    {Q : β → ParserState → Prop} {property : Node} (hconst : property.propertyType = .constant)
    (hf : Safe p s₀ (f false) Q s) : Safe p s₀ (needsStrictCheck property >>= f) Q s := by
  unfold needsStrictCheck
  rw [safe_bind, safe_bind]
  unfold Safe
  rw [wp_syntaxAlreadyValidated]
  simpa [answers, hconst, Safe, safe_pure] using hf

theorem objectLiteral_safe (hp : Pre .objectLiteral s) :
    Safe .objectLiteral s parseObjectLiteral (Done .objectLiteral s) s := by
  refine safe_tokenData ?_
  refine safe_consumeOrFail rfl (.refl hp.sound) fun s₁ _ h₁ => ?_
  refine safe_ifToken (fun ht => ?_) fun _ => ?_
  · exact safe_next h₁.toKept (ht ▸ rfl) fun s₂ _ h₂ => h₂.post trivial
  refine safe_parseOrFail rfl hp h₁ trivial fun property s₂ h₂ hproperty => ?_
  refine needsStrictCheck_safe (hproperty.result property rfl) ?_
  rw [if_neg (by simp)]
  refine safe_parseOrNull rfl rfl hp h₂ trivial fun r s₃ h₃ _ => ?_
  cases r with
  | inl propertyList => exact safe_consumeOrFail rfl h₃.toKept fun s₄ _ h₄ => h₄.post trivial
  | inr strict => exact h₃.post trivial

theorem objectLoop_safe {propertyList : Node} {startOffset : Nat}
    (hp : Pre (.objectLoop propertyList startOffset) s) :
    Safe (.objectLoop propertyList startOffset) s (parseObjectLoop propertyList startOffset)
      (Done (.objectLoop propertyList startOffset) s) s := by
  have h := Kept.refl (p := .objectLoop propertyList startOffset) hp.sound
  refine safe_ifToken (fun ht => ?_) fun _ => h.post rfl trivial
  refine safe_next h (ht ▸ rfl) fun s₁ _ h₁ => ?_
  refine safe_ifToken (fun ht => h₁.toKept.post rfl trivial) fun _ => ?_
  refine safe_parseOrFail rfl hp h₁ trivial fun property s₂ h₂ hproperty => ?_
  refine needsStrictCheck_safe (hproperty.result property rfl) ?_
  rw [if_neg (by simp)]
  exact safe_parseLast rfl rfl hp h₂ trivial fun r s₃ h₃ _ => h₃.toKept.post rfl trivial

/-- The value of a property. -/
theorem propertyValue_safe {s₀ : ParserState} {g : Node → Node} (hp : Pre .property s₀)
    (hg : ∀ node, (g node).propertyType = .constant) (h : Past .property s₀ s) :
    Safe .property s₀ (do
      let node ← failIfNull (← parse .assignmentExpression)
      return g node) (Done .property s₀) s :=
  safe_parseOrFail rfl hp h trivial fun node _ h₁ _ => h₁.toKept.post rfl (hg node)

/-- A property whose name is an identifier, a keyword or a string; an accessor
crashes once its function has been read. -/
theorem parseNamedProperty_safe (hp : Pre .property s) {wasIdent : Bool}
    (ht : s.token.type.isReal = true)
    (hident : wasIdent = true → s.token.type = .ident ∨ s.token.type.isKeyword = true) :
    Safe .property s (parseNamedProperty wasIdent) (Done .property s) s := by
  refine safe_tokenData ?_
  refine safe_next (.refl hp.sound) ht fun s₁ hn h₁ => ?_
  refine safe_ifToken (fun ht => ?_) fun _ => ?_
  · refine safe_next h₁.toKept (ht ▸ rfl) fun s₂ _ h₂ => ?_
    exact propertyValue_safe hp (fun node => rfl) h₂
  refine safe_failIfFalse h₁.toKept fun hwas => ?_
  refine safe_matchOrFail h₁.toKept fun hname => ?_
  split
  · rename_i haccessor
    refine wp_parse ⟨⟨h₁.sound, fun _ => h₁.allowsIn.trans (hp.allowsIn rfl), trivial⟩, ?_,
      fun _ => h₁.toKept.nested rfl ⟨rfl, rfl⟩, fun _ _ => h₁.allowsIn⟩ ?_
    · have := h₁.progress
      simp only [safetyMeasure, Production.rank]
      omega
    intro info s₂ hreturns hpost
    refine safe_failIfNull (h₁.toKept.trans hpost.kept rfl) fun info hinfo => ?_
    subst hinfo
    unfold Safe createGetterOrSetterProperty
    rw [wp_crash]
    exact Or.inr ⟨rfl, haccessor, hident hwas, s₁, info, s₂, hn, hname, hreturns⟩
  · exact safe_fail h₁.toKept

omit [Platform] in
theorem keyword_isReal {t : JSTokenType} (h : t.isKeyword = true) : t.isReal = true := by
  cases t <;> first | rfl | exact absurd h (by decide)

theorem property_safe (hp : Pre .property s) :
    Safe .property s parseProperty (Done .property s) s := by
  have h := Kept.refl (p := .property) hp.sound
  refine safe_tokenType ?_
  split
  case h_1 ht => exact parseNamedProperty_safe hp (ht ▸ rfl) fun _ => Or.inl ht
  case h_2 ht => exact parseNamedProperty_safe hp (ht ▸ rfl) fun h => by cases h
  case h_3 ht =>
    refine safe_tokenData ?_
    refine safe_next h (ht ▸ rfl) fun s₁ _ h₁ => ?_
    refine safe_consumeOrFail rfl h₁.toKept fun s₂ _ h₂ => ?_
    exact propertyValue_safe hp (fun node => rfl) h₂
  case h_4 =>
    refine safe_failIfFalse h fun hkeyword => ?_
    exact parseNamedProperty_safe hp (keyword_isReal hkeyword) fun _ => Or.inr hkeyword

end HammerJS
