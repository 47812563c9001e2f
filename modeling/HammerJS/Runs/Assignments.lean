import HammerJS.Reflect.Exact
import HammerJS.Reflect.Failure
import HammerJS.Runs.Stacks

/-!
# Chains of assignments

What `parseAssignmentExpression` returns when nothing fails.

* `Phrase.LeftHandSide` — the expressions of the grammar that can be assigned to.
* `assignmentChain` — the tree of `a1 op1 (a2 op2 (... r))`.
* `assignmentExpression_sound` — every tree returned is such a chain, and each of its
  targets, like each target inside of it, is a left-hand side.
-/

namespace HammerJS

open Procs Machine

/-! ## Left-hand sides -/

/-- A `LeftHandSideExpression`: no prefix, postfix, binary, conditional, assignment or comma
operator stands outside of its brackets and arguments. -/
def Phrase.LeftHandSide : {c : Category} → Phrase c → Prop
  | _, unary _ _ | _, postOp _ _ | _, binary _ _ _ | _, cond _ _ _ | _, assign _ _ _
  | _, comma _ _ _ => False
  | _, bracket base _ | _, dot base _ => base.LeftHandSide
  | _, call callee _ | _, newArgs callee _ | _, newNoArgs callee => callee.LeftHandSide
  | _, _ => True

theorem Phrase.Legal.leftHandSide {c : Category} {p : Phrase c} {allowsIn : Bool}
    (h : p.Legal allowsIn) (hrank : 15 ≤ p.rank) : p.LeftHandSide := by
  induction p generalizing allowsIn with
  | bracket base property hbase _ => exact hbase h.1 (Nat.le_of_succ_le h.2.1)
  | dot base property hbase => exact hbase h.1 (Nat.le_of_succ_le h.2)
  | call callee args hcallee _ => exact hcallee h.1 (Nat.le_of_succ_le h.2.1)
  | newArgs callee args hcallee _ =>
      refine hcallee h.1 ?_
      rw [h.2.1]
      decide
  | newNoArgs callee hcallee =>
      refine hcallee h.1 ?_
      have := h.2
      omega
  | binary left op right =>
      have := op.precedence_range
      simp only [rank] at hrank
      omega
  | unary | postOp | cond | assign | comma => simp [rank] at hrank
  | _ => trivial

/-! ## Chains -/

/-- A target with the operator written behind it. -/
abbrev AssignmentTarget := Phrase .expr × AssignmentToken

/-- The tokens of a chain. -/
def chainLexemes (targets : List AssignmentTarget) (value : Phrase .expr) : List Lexeme :=
  (targets.flatMap fun target => target.1.lexemes ++ [.mark target.2.1]) ++ value.lexemes

/-- The tree of a chain: each operator has its target on the left, and what follows it on
the right. -/
def assignmentChain [Platform] (targets : List AssignmentTarget) (value : Phrase .expr) : Node :=
  targets.foldr
    (fun target node => Builder.createAssignment target.1.build target.2.operator node) value.build

/-- The node of a chain: the operator of its first assignment, over the target and the rest. -/
theorem assignmentChain_has [Platform] (target : AssignmentTarget)
    (targets : List AssignmentTarget) (value : Phrase .expr) :
    (assignmentChain (target :: targets) value).Has .assignmentExpression
      (convertOperator target.2.operator) [target.1.build, assignmentChain targets value] :=
  ⟨rfl, rfl, rfl⟩

/-- What can stand on its own between two assignment operators, or behind the last. -/
structure ChainPart (allowsIn : Bool) (e : Phrase .expr) : Prop where
  legal : e.Legal allowsIn
  rank : 2 ≤ e.rank
  inside : ∀ left op right, (Phrase.assign left op right).Within e → left.LeftHandSide

theorem Phrase.Legal.assign_within {e left right : Phrase .expr} {op : AssignmentToken}
    {allowsIn : Bool} (h : e.Legal allowsIn) (hw : (Phrase.assign left op right).Within e) :
    left.LeftHandSide := by
  have hassign := h.within hw
  exact hassign.1.1.leftHandSide hassign.1.2.rank_ge

/-- An assignment expression is a chain. -/
theorem Phrase.Legal.chain [Platform] {e : Phrase .expr} {allowsIn : Bool} (h : e.Legal allowsIn)
    (hrank : 1 ≤ e.rank) :
    ∃ (targets : List AssignmentTarget) (value : Phrase .expr),
      e.lexemes = chainLexemes targets value ∧ e.build = assignmentChain targets value ∧
        (∀ target ∈ targets, ChainPart allowsIn target.1 ∧ target.1.LeftHandSide) ∧
          ChainPart allowsIn value := by
  have hother : 2 ≤ e.rank → ∃ (targets : List AssignmentTarget) (value : Phrase .expr),
      e.lexemes = chainLexemes targets value ∧ e.build = assignmentChain targets value ∧
        (∀ target ∈ targets, ChainPart allowsIn target.1 ∧ target.1.LeftHandSide) ∧
          ChainPart allowsIn value := fun hrank =>
    ⟨[], e, rfl, rfl, nofun, h, hrank, fun _ _ _ hw => h.assign_within hw⟩
  match e with
  | .assign left op right =>
      obtain ⟨⟨hleft, hcalm⟩, hright, hrank⟩ := h
      obtain ⟨targets, value, hlexemes, hbuild, htargets, hvalue⟩ := Legal.chain hright hrank
      refine ⟨(left, op) :: targets, value, ?_, ?_, ?_, hvalue⟩
      · simp [lexemes, chainLexemes, hlexemes]
      · simp [build, assignmentChain, hbuild]
      · rintro target (_ | ⟨_, htarget⟩)
        · have hge := hcalm.rank_ge
          exact ⟨⟨hleft, Nat.le_trans (by decide) hge, fun _ _ _ hw => hleft.assign_within hw⟩,
            hleft.leftHandSide hge⟩
        · exact htargets target htarget
  | .comma _ _ _ => simp [rank] at hrank
  | .binary left op right => exact hother (by simp [rank])
  | .bracket base property =>
      have hbase : 16 ≤ base.rank := h.2.1
      exact hother (by simp only [rank]; omega)
  | .dot base property =>
      have hbase : 16 ≤ base.rank := h.2
      exact hother (by simp only [rank]; omega)
  | .this | .resolve _ | .string _ | .number _ | .null | .boolean _ | .regExp _ _ _ | .paren _
  | .emptyArray _ | .array _ _ _ | .emptyObject | .object _ _ | .function _ _ _ | .call _ _
  | .newArgs _ _ | .newNoArgs _ | .unary _ _ | .postOp _ _ | .cond _ _ _ =>
      exact hother (by simp [rank])

/-! ## The production -/

section Runs

variable [Platform] {s s' : ParserState}

/-- A call that leaves `m_error` unset has not failed inside. -/
theorem returnsWithout_of_error {p : Production} {r : Option p.Ret}
    (h : parser.Returns p s r s') (herror : s'.error = false) :
    parser.ReturnsWithout Failing p s r s' := by
  obtain ⟨n, hrun⟩ := h
  refine ⟨n, hrun, ?_⟩
  rintro o t hv rfl
  have hset : parserStep .setError t = .ok ((), t.failed) := rfl
  have hkept := (visits_relates ErrorKept.refl ErrorKept.trans step_errorKept hv hset hrun).2 rfl
  rw [herror] at hkept
  cases hkept

/-- **Every tree of `parseAssignmentExpression` is a chain of assignments**: the operators were
read one after the other, each behind its own target and in front of what is assigned to it,
and every target, in the chain and inside of its parts, is a left-hand side. -/
theorem assignmentExpression_sound {node : Node} (hs : Sound s)
    (h : parser.Returns .assignmentExpression s (some node) s') (herror : s'.error = false) :
    ∃ (targets : List AssignmentTarget) (value : Phrase .expr),
      Reads (chainLexemes targets value) s.stream s'.stream ∧
        node = assignmentChain targets value ∧
          (∀ target ∈ targets, ChainPart s.regs.allowsIn target.1 ∧ target.1.LeftHandSide) ∧
            ChainPart s.regs.allowsIn value := by
  have hstarts : Production.assignmentExpression.Starts s ∧ Pre .assignmentExpression s :=
    ⟨trivial, hs, nofun, trivial⟩
  obtain ⟨e, rfl, hread, hlegal, hrank⟩ := grammar_post hstarts (returnsWithout_of_error h herror)
  obtain ⟨targets, value, hlexemes, hbuild, htargets, hvalue⟩ := hlegal.chain hrank
  exact ⟨targets, value, hlexemes ▸ hread.reads, hbuild, htargets, hvalue⟩

/-- The parser in front of `=b`, with the token `a`. -/
def assignmentState : ParserState :=
  { initialState (identifierOfChars ['=', 'b']) with
    token := ⟨.ident, .ident (identifierOfChars ['a']), ⟨0, 0, 0⟩⟩ }

/-- Whether a call has returned something, with `m_error` unset. -/
def succeeded {α : Type} : Outcome ParserState Crash α → Bool
  | .done (some _) s => !s.error
  | _ => false

omit [Platform] in
/-- What is read of `a=b`. -/
theorem assignmentExpression_sound_one : ∃ s' node,
    (@parser exactPlatform).Returns .assignmentExpression assignmentState (some node) s' ∧
    ∃ (targets : List AssignmentTarget) (value : Phrase .expr),
      @Reads exactPlatform (chainLexemes targets value) assignmentState.stream s'.stream ∧
        node = @assignmentChain exactPlatform targets value ∧
          (∀ target ∈ targets, ChainPart true target.1 ∧ target.1.LeftHandSide) ∧
            ChainPart true value := by
  let _ : Platform := exactPlatform
  have hrun : succeeded (parser.run 20 .assignmentExpression assignmentState) = true := by
    decide +kernel
  have hs : Sound assignmentState :=
    have hpre := initialState_pre (identifierOfChars ['=', 'b'])
    ⟨hpre.sound.valid, fun _ => hpre.start.1, hpre.sound.unary, hpre.sound.operators⟩
  cases h : parser.run 20 .assignmentExpression assignmentState with
  | done r s' =>
      rw [h] at hrun
      cases r with
      | none => cases hrun
      | some node =>
          have herror : s'.error = false := by simpa [succeeded] using hrun
          exact ⟨s', node, ⟨20, h⟩, assignmentExpression_sound hs ⟨20, h⟩ herror⟩
  | fault e => rw [h] at hrun; cases hrun
  | timeout => rw [h] at hrun; cases hrun

end Runs

end HammerJS
