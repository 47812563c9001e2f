import HammerJS.Runs.Termination
import HammerJS.Syntax.StatementsParsed

/-!
# The stacks of the builder

Four stacks serve all the expressions that are being parsed, and each call counts in
local variables how many entries are its own.

* `Counters`, `Counted` — the local counters, and the values they take in one call.
* `Counted.holds` — what the builder does to a stack it does to the counter.
* `stack_discipline` — no call touches the entries of another, and the counters count
  them.
-/

namespace HammerJS

open Procs Machine Lexer Parse

variable [Platform]

/-! ## The counters -/

/-- The counters of a production, which its loop passes on from turn to turn. -/
inductive Counters where
  /-- `operandStackDepth` and `operatorStackDepth` of `parseBinaryExpression`. -/
  | binary (operandStackDepth operatorStackDepth : Nat)
  /-- `tokenStackDepth` of `parseUnaryExpression`. -/
  | unary (tokenStackDepth : Nat)
  /-- `assignmentStack` of `parseAssignmentExpression`. -/
  | assignment (assignmentStack : Nat)

/-- The counters stand in the relation `rel` to the numbers of entries above those that
were on the stacks in `s₀`. -/
def Counters.Holds (rel : Nat → Nat → Prop) (s₀ s : ParserState) : Counters → Prop
  | .binary operandStackDepth operatorStackDepth =>
      rel (s₀.regs.context.binaryOperand.length + operandStackDepth)
          s.regs.context.binaryOperand.length ∧
        rel (s₀.regs.context.binaryOperator.length + operatorStackDepth)
          s.regs.context.binaryOperator.length
  | .unary tokenStackDepth =>
      rel (s₀.regs.context.unaryToken.length + tokenStackDepth) s.regs.context.unaryToken.length
  | .assignment assignmentStack =>
      rel (s₀.regs.context.assignmentInfo.length + assignmentStack)
        s.regs.context.assignmentInfo.length

/-- The counters at the start of a turn of a loop. -/
def Production.counters : Production → Option Counters
  | .binaryLoop operandStackDepth operatorStackDepth =>
      some (.binary operandStackDepth operatorStackDepth)
  | .unaryTokensLoop tokenStackDepth => some (.unary tokenStackDepth)
  | .assignmentLoop _ assignmentStack _ => some (.assignment assignmentStack)
  | _ => none

/-- The counters when a loop has ended. -/
def Production.finalCounters : (p : Production) → p.Ret → Option Counters
  | .binaryLoop _ _, (operandStackDepth, operatorStackDepth) =>
      some (.binary operandStackDepth operatorStackDepth)
  | .unaryTokensLoop _, tokenStackDepth => some (.unary tokenStackDepth)
  | .assignmentLoop _ _ _, (_, assignmentStack) => some (.assignment assignmentStack)
  | _, _ => none

/-- The productions that keep counters. -/
def Production.HasCounters : Production → Prop
  | .binaryExpression | .unaryExpressionBody | .assignmentExpression => True
  | _ => False

/-- The productions that stand for a loop of a function. -/
def Production.isLoop : Production → Bool
  | .sourceElementsLoop _ | .varDeclarationLoop _ _ _ | .constDeclarationLoop _ _
  | .switchClausesLoop _ | .formalParametersLoop _ | .ifLoop _ _ _ | .commaLoop _
  | .assignmentLoop _ _ _ | .binaryLoop _ _ | .objectLoop _ _ | .strictObjectLoop _
  | .elisionsLoop _ | .arrayLoop _ | .argumentsLoop _ | .newLoop _ | .memberLoop _ _
  | .unaryTokensLoop _ => true
  | _ => false

/-- The call of `p` in `s₀` comes, in the state `s`, to the turn `q` of its loop. -/
inductive Turn (dead : ParserOp → Prop) (p : Production) (s₀ : ParserState) :
    Production → ParserState → Prop
  | first {q s} (h : parser.Issues dead (productionBody p) s₀ (.call q) s)
      (hq : q.counters.isSome = true) : Turn dead p s₀ q s
  | again {q s q' s'} (h : Turn dead p s₀ q s)
      (h' : parser.Issues dead (productionBody q) s (.call q') s') (hq : q.Iterates q') :
      Turn dead p s₀ q' s'

/-- The call of `p` in `s₀`, or a turn of its loop, calls `q` in the state `s`. -/
def Asks (dead : ParserOp → Prop) (p : Production) (s₀ : ParserState) (q : Production)
    (s : ParserState) : Prop :=
  parser.Issues dead (productionBody p) s₀ (.call q) s ∨
    ∃ q₁ s₁, Turn dead p s₀ q₁ s₁ ∧ parser.Issues dead (productionBody q₁) s₁ (.call q) s

/-- In the call of `p` in `s₀` the counters have the values `c` in the state `s`.  The
loop passes them on itself; in between, each method of the builder that gets a counter
by reference changes it, and nothing else does. -/
inductive Counted (dead : ParserOp → Prop) (p : Production) (s₀ : ParserState) :
    Counters → ParserState → Prop
  | turn {q s c} (h : Turn dead p s₀ q s) (hc : q.counters = some c) : Counted dead p s₀ c s
  | ended {q s r s' c} (h : Turn dead p s₀ q s) (hr : parser.ReturnsWithout dead q s (some r) s')
      (hc : q.finalCounters r = some c) : Counted dead p s₀ c s'
  | called {c q s r s'} (h : Counted dead p s₀ c s) (hq : Asks dead p s₀ q s)
      (hloop : q.isLoop = false) (hr : parser.ReturnsWithout dead q s r s') : Counted dead p s₀ c s'
  | aside {c s s'} (h : Counted dead p s₀ c s) (hs : s'.regs.context = s.regs.context) :
      Counted dead p s₀ c s'
  /-- `appendBinaryExpressionInfo`. -/
  | operand {d o s node s'} (h : Counted dead p s₀ (.binary d o) s)
      (hs : parser.Finishes dead (pushOperand node) s (some ()) s') :
      Counted dead p s₀ (.binary (d + 1) o) s'
  /-- `operatorStackAppend`. -/
  | operator {d o s t precedence s'} (h : Counted dead p s₀ (.binary d o) s)
      (hs : parser.Finishes dead (operatorStackAppend t precedence) s (some ()) s') :
      Counted dead p s₀ (.binary d (o + 1)) s'
  /-- A reduction, after `ASSERT(operandStackDepth > 1)`. -/
  | reduced {d o s s'} (h : Counted dead p s₀ (.binary d (o + 1)) s) (hd : 1 < d)
      (hs : parser.Finishes dead reduceOperands s (some ()) s') :
      Counted dead p s₀ (.binary (d - 1) o) s'
  /-- `appendUnaryToken`. -/
  | unaryToken {n s t s'} (h : Counted dead p s₀ (.unary n) s)
      (hs : parser.Finishes dead (appendUnaryToken t) s (some ()) s') :
      Counted dead p s₀ (.unary (n + 1)) s'
  /-- `unaryTokenStackRemoveLast`. -/
  | unaryTokenRemoved {n s t s'} (h : Counted dead p s₀ (.unary (n + 1)) s)
      (hs : parser.Finishes dead popUnaryToken s (some t) s') : Counted dead p s₀ (.unary n) s'
  /-- `assignmentStackAppend`. -/
  | assignment {n s node op s'} (h : Counted dead p s₀ (.assignment n) s)
      (hs : parser.Finishes dead (assignmentStackAppend node op) s (some ()) s') :
      Counted dead p s₀ (.assignment (n + 1)) s'
  /-- `createAssignment`. -/
  | created {n s rhs node s'} (h : Counted dead p s₀ (.assignment (n + 1)) s)
      (hs : parser.Finishes dead (createAssignment rhs) s (some node) s') :
      Counted dead p s₀ (.assignment n) s'

/-! ## What the builder does to its stacks -/

section Builder

variable {dead : ParserOp → Prop} {s s' : ParserState}

theorem finishes_modifyStacks {f : BuilderStacks → BuilderStacks}
    (h : parser.Finishes dead (modifyStacks f) s (some ()) s') :
    s'.regs.context = f s.regs.context := by
  obtain ⟨-, _, _, hget, -, _, _, hset, -, rfl⟩ := h
  cases hget
  cases hset
  rfl

theorem finishes_modifyStacks_pure {α : Type} {f : BuilderStacks → BuilderStacks} {a : α}
    {r : Option α} (h : parser.Finishes dead (modifyStacks f >>= fun _ => pure a) s r s') :
    s'.regs.context = f s.regs.context := by
  obtain ⟨-, _, _, hget, -, _, _, hset, -, rfl⟩ := h
  cases hget
  cases hset
  rfl

theorem finishes_getStacks {α : Type} {f : BuilderStacks → Parse α} {r : Option α}
    (h : parser.Finishes dead (getStacks >>= f) s r s') :
    parser.Finishes dead (f s.regs.context) s r s' := by
  obtain ⟨-, _, _, hget, h⟩ := h
  cases hget
  exact h

theorem not_finishes_crash {α : Type} {e : Crash} {r : Option α} :
    ¬ parser.Finishes dead (crash e) s r s' := by
  rintro ⟨-, _, _, h, -⟩
  cases h

/-- A reduction takes one entry off either stack. -/
theorem finishes_reduceOperands (h : parser.Finishes dead reduceOperands s (some ()) s') :
    s.regs.context.binaryOperand.length = s'.regs.context.binaryOperand.length + 1 ∧
      s.regs.context.binaryOperator.length = s'.regs.context.binaryOperator.length + 1 := by
  have h := finishes_getStacks h
  split at h
  · rename_i rhs lhs operands op precedence operators hoperands hoperators
    split at h
    · rw [hoperands, hoperators, finishes_modifyStacks h]
      exact ⟨rfl, rfl⟩
    · exact absurd h not_finishes_crash
  · exact absurd h not_finishes_crash

theorem finishes_popUnaryToken {t : JSTokenType}
    (h : parser.Finishes dead popUnaryToken s (some t) s') :
    s.regs.context.unaryToken.length = s'.regs.context.unaryToken.length + 1 := by
  have h := finishes_getStacks h
  split at h
  · exact absurd h not_finishes_crash
  · rename_i token tokens htokens
    rw [htokens, finishes_modifyStacks_pure h]
    rfl

theorem finishes_createAssignment {rhs node : Node}
    (h : parser.Finishes dead (createAssignment rhs) s (some node) s') :
    s.regs.context.assignmentInfo.length = s'.regs.context.assignmentInfo.length + 1 := by
  have h := finishes_getStacks h
  split at h
  · exact absurd h not_finishes_crash
  · rename_i node op infos hinfos
    rw [hinfos, finishes_modifyStacks_pure h]
    rfl

end Builder

/-! ## The counters count -/

section Counted

variable {dead : ParserOp → Prop} {p q : Production} {s₀ s s' : ParserState} {c : Counters}

omit [Platform] in
/-- Only the stacks matter. -/
theorem Counters.Holds.congr {rel : Nat → Nat → Prop} (h : c.Holds rel s₀ s)
    (hs : s'.regs.context = s.regs.context) : c.Holds rel s₀ s' := by
  cases c <;> simpa only [Counters.Holds, hs] using h

/-- What the builder does to a stack it does to the counter. -/
theorem Counted.holds {rel : Nat → Nat → Prop} (hrel : ∀ a b, rel (a + 1) (b + 1) ↔ rel a b)
    (hturn : ∀ q s (c : Counters), Turn dead p s₀ q s → q.counters = some c → c.Holds rel s₀ s)
    (hended : ∀ q s r s' (c : Counters), Turn dead p s₀ q s →
      parser.ReturnsWithout dead q s (some r) s' → q.finalCounters r = some c → c.Holds rel s₀ s')
    (hcalled : ∀ (c : Counters) q s r s', c.Holds rel s₀ s → Asks dead p s₀ q s → q.isLoop = false →
      parser.ReturnsWithout dead q s r s' → c.Holds rel s₀ s')
    (h : Counted dead p s₀ c s) : c.Holds rel s₀ s := by
  induction h with
  | turn h hc => exact hturn _ _ _ h hc
  | ended h hr hc => exact hended _ _ _ _ _ h hr hc
  | called _ hq hloop hr ih => exact hcalled _ _ _ _ _ ih hq hloop hr
  | aside _ hs ih => exact ih.congr hs
  | operand _ hs ih =>
      rw [Counters.Holds, finishes_modifyStacks hs]
      exact ⟨(hrel _ _).mpr ih.1, ih.2⟩
  | operator _ hs ih =>
      rw [Counters.Holds, finishes_modifyStacks hs]
      exact ⟨ih.1, (hrel _ _).mpr ih.2⟩
  | @reduced d o s s' _ hd hs ih =>
      obtain ⟨hoperands, hoperators⟩ := finishes_reduceOperands hs
      obtain ⟨k, rfl⟩ : ∃ k, d = k + 1 := ⟨d - 1, by omega⟩
      simp only [Counters.Holds, hoperands, hoperators] at ih
      exact ⟨(hrel _ _).mp ih.1, (hrel _ _).mp ih.2⟩
  | unaryToken _ hs ih =>
      rw [Counters.Holds, finishes_modifyStacks hs]
      exact (hrel _ _).mpr ih
  | unaryTokenRemoved _ hs ih =>
      simp only [Counters.Holds, finishes_popUnaryToken hs] at ih
      exact (hrel _ _).mp ih
  | assignment _ hs ih =>
      rw [Counters.Holds, finishes_modifyStacks hs]
      exact (hrel _ _).mpr ih
  | created _ hs ih =>
      simp only [Counters.Holds, finishes_createAssignment hs] at ih
      exact (hrel _ _).mp ih

end Counted

/-! ## The entries of other calls -/

/-- The entries of the stacks `k` are those at the bottom of the stacks `k'`. -/
structure BuilderStacks.Below (k k' : BuilderStacks) : Prop where
  assignments : k.assignmentInfo <:+ k'.assignmentInfo
  operands : k.binaryOperand <:+ k'.binaryOperand
  operators : k.binaryOperator <:+ k'.binaryOperator
  unary : k.unaryToken <:+ k'.unaryToken

section Nesting

variable {source : List UChar} {dead : ParserOp → Prop} {p q : Production}
  {s₀ s s' : ParserState} {c : Counters}

omit [Platform] in
theorem Production.slack_of_not_loop (hp : p.isLoop = false) : p.slack = 0 := by
  cases p <;> first | rfl | cases hp

omit [Platform] in
theorem Production.HasCounters.not_loop (hp : p.HasCounters) : p.isLoop = false := by
  cases p <;> first | rfl | exact hp.elim

omit [Platform] in
theorem Untouched.below (h : Untouched p s₀ s) (hp : p.isLoop = false) :
    s₀.regs.context.Below s.regs.context := by
  obtain ⟨assignments, operands, operators, unary⟩ := h
  rw [p.slack_of_not_loop hp, List.drop_zero] at operands operators
  exact ⟨assignments, operands, operators, unary⟩

omit [Platform] in
/-- What a turn of the loop of `p` calls is told to work on entries of `p`. -/
theorem Nested.trans {q' : Production} (h : Nested p s₀ q s) (h' : Nested q s q' s')
    (hp : p.isLoop = false) : Nested p s₀ q' s' := by
  have hslack := p.slack_of_not_loop hp
  have hbelow := h.toUntouched.below hp
  have hoperands := h.operandDepth
  have hoperators := h.operatorDepth
  have hoperands' := h'.operandDepth
  have hoperators' := h'.operatorDepth
  have hunary := h.unaryDepth
  have hunary' := h'.unaryDepth
  have hassignments := h.assignmentDepth
  have hassignments' := h'.assignmentDepth
  refine ⟨⟨?_, ?_, ?_, ?_⟩, by omega, by omega, by omega, by omega⟩
  · exact hbelow.assignments.trans h'.assignments
  · rw [hslack, List.drop_zero]
    exact (suffix_drop hbelow.operands (by omega)).trans h'.operands
  · rw [hslack, List.drop_zero]
    exact (suffix_drop hbelow.operators (by omega)).trans h'.operators
  · exact hbelow.unary.trans h'.unary

/-- A turn of a loop is one that has counters. -/
theorem Turn.counters (h : Turn dead p s₀ q s) : q.counters.isSome = true := by
  induction h with
  | first _ hq => exact hq
  | again _ _ hq ih => cases hq <;> first | rfl | cases ih

/-- The turns of a loop work on the entries of their call. -/
theorem Turn.nested (hp : p.HasCounters) (h : Occurs source (.call p) s₀)
    (ht : Turn dead p s₀ q s) : Pre q s ∧ Nested p s₀ q s := by
  induction ht with
  | first ht _ =>
      obtain ⟨hpre, hcall⟩ := parser_safe.issues (fun _ _ hd => hd.elim) h.pre ht
      exact ⟨hpre, hcall.nested (by rintro rfl; exact hp)⟩
  | again ht ht' hq ih =>
      obtain ⟨hpre, hcall⟩ := parser_safe.issues (fun _ _ hd => hd.elim) ih.1 ht'
      exact ⟨hpre, ih.2.trans (hcall.nested (by rintro rfl; cases hq)) hp.not_loop⟩

theorem Asks.pre (hp : p.HasCounters) (h : Occurs source (.call p) s₀)
    (hq : Asks dead p s₀ q s) : Pre q s := by
  rcases hq with hq | ⟨q₁, s₁, ht, hq⟩
  · exact (parser_safe.issues (fun _ _ hd => hd.elim) h.pre hq).1
  · exact (parser_safe.issues (fun _ _ hd => hd.elim) (ht.nested hp h).1 hq).1

/-- What a production that was called returns. -/
theorem safety_post {r : Option q.Ret} (hpre : Pre q s)
    (hr : parser.ReturnsWithout dead q s r s') : Post q s r s' :=
  hr.post parser_safe.correct (fun _ _ hd => hd.elim) hpre

omit [Platform] in
/-- The depths of a production that keeps counters. -/
theorem Production.HasCounters.depths (hp : p.HasCounters) :
    p.slack = 0 ∧ p.unaryDepth = 0 ∧ p.assignmentDepth = 0 := by
  cases p <;> first | exact ⟨rfl, rfl, rfl⟩ | exact hp.elim

/-! ### At most as many entries -/

/-- At the start of a turn the entries counted are there. -/
theorem Turn.le (hp : p.HasCounters) (h : Occurs source (.call p) s₀)
    (ht : Turn dead p s₀ q s) (hc : q.counters = some c) : c.Holds (· ≤ ·) s₀ s := by
  obtain ⟨hpre, hnested⟩ := ht.nested hp h
  obtain ⟨hslack, hunary, hassignment⟩ := hp.depths
  have hoperands := hnested.operandDepth
  have hoperators := hnested.operatorDepth
  have hunary' := hnested.unaryDepth
  have hassignment' := hnested.assignmentDepth
  rw [hslack] at hoperands hoperators
  rw [hunary] at hunary'
  rw [hassignment] at hassignment'
  cases q with
  | binaryLoop d o =>
      cases hc
      obtain ⟨rfl, -, -⟩ := hpre.start
      exact ⟨hoperands, hoperators⟩
  | unaryTokensLoop n => cases hc; exact hunary'
  | assignmentLoop lhs n count => cases hc; exact hassignment'
  | _ => cases hc

omit [Platform] in
/-- So are those counted when a loop has ended. -/
theorem Production.Result.le {r : q.Ret} {c' : Counters} (hr : q.Result s r s')
    (hc : q.counters = some c) (hc' : q.finalCounters r = some c') (h : c.Holds (· ≤ ·) s₀ s) :
    c'.Holds (· ≤ ·) s₀ s' := by
  cases q with
  | binaryLoop d o =>
      cases hc
      cases hc'
      obtain ⟨-, hoperands, hoperators⟩ := hr
      obtain ⟨h₁, h₂⟩ := h
      exact ⟨by omega, by omega⟩
  | unaryTokensLoop n =>
      cases hc
      cases hc'
      simp only [Production.Result, Counters.Holds] at hr h ⊢
      omega
  | assignmentLoop lhs n count =>
      cases hc
      cases hc'
      simp only [Production.Result, Counters.Holds] at hr h ⊢
      omega
  | _ => cases hc

/-- The counters never exceed the entries that are there. -/
theorem Counted.le (hp : p.HasCounters) (h : Occurs source (.call p) s₀)
    (hc : Counted dead p s₀ c s) : c.Holds (· ≤ ·) s₀ s := by
  refine hc.holds (fun a b => Nat.add_le_add_iff_right) (fun q s c ht hc => ht.le hp h hc)
    (fun q s r s' c' ht hr hc' => ?_) fun c q s r s' hc hq hloop hr => ?_
  · obtain ⟨c, hc⟩ := Option.isSome_iff_exists.mp ht.counters
    exact ((safety_post (ht.nested hp h).1 hr).result r rfl).le hc hc' (ht.le hp h hc)
  · have hbelow := (safety_post (hq.pre hp h) hr).kept.toUntouched.below hloop
    cases c with
    | binary d o =>
        exact ⟨hc.1.trans hbelow.operands.length_le, hc.2.trans hbelow.operators.length_le⟩
    | unary n => exact le_trans hc hbelow.unary.length_le
    | assignment n => exact le_trans hc hbelow.assignments.length_le

/-! ### Exactly as many entries -/

/-- What makes a run one without a failure. -/
abbrev Failing (o : ParserOp) : Prop := o = .setError

/-- A turn that is told how many entries are its own tells the next one. -/
theorem tells_again {q' : Production} (hp : p.HasCounters) (hstarts : q.Starts s)
    (h : p.Tells s₀ q s) (h' : q.Tells s q' s') (hq : q.Iterates q') : p.Tells s₀ q' s' := by
  obtain ⟨hslack, hunary, hassignment⟩ := hp.depths
  cases hq with
  | binary =>
      obtain ⟨spine, _, _, rfl, rfl, -, -⟩ := hstarts
      simp only [Production.Tells, hslack] at h h' ⊢
      simp only [Production.slack] at h'
      omega
  | unaryTokens =>
      simp only [Production.Tells, hunary] at h h' ⊢
      simp only [Production.unaryDepth] at h'
      omega
  | assignment =>
      simp only [Production.Tells, hassignment] at h h' ⊢
      simp only [Production.assignmentDepth] at h'
      omega
  | _ => trivial

/-- The turns of a loop are told exactly how many entries are theirs. -/
theorem Turn.told (hp : p.HasCounters) (hpre : Pre p s₀) (ht : Turn Failing p s₀ q s) :
    (q.Starts s ∧ Pre q s) ∧ p.Tells s₀ q s := by
  have hstarts : p.Starts s₀ := by cases p <;> trivial
  induction ht with
  | first ht _ => exact parser_parsed.issues (fun _ _ hd => hd) ⟨hstarts, hpre⟩ ht
  | again ht ht' hq ih =>
      obtain ⟨hstarts', htells⟩ := parser_parsed.issues (fun _ _ hd => hd) ih.1 ht'
      exact ⟨hstarts', tells_again hp ih.1.1 ih.2 htells hq⟩

theorem Turn.eq (hp : p.HasCounters) (hpre : Pre p s₀) (ht : Turn Failing p s₀ q s)
    (hc : q.counters = some c) : c.Holds (· = ·) s₀ s := by
  obtain ⟨-, htells⟩ := ht.told hp hpre
  obtain ⟨hslack, hunary, hassignment⟩ := hp.depths
  cases q with
  | binaryLoop d o =>
      cases hc
      simp only [Production.Tells, hslack] at htells
      exact htells
  | unaryTokensLoop n =>
      cases hc
      simp only [Production.Tells, hunary] at htells
      exact htells
  | assignmentLoop lhs n count =>
      cases hc
      simp only [Production.Tells, hassignment] at htells
      exact htells
  | _ => cases hc

theorem AssignmentChain.length_push (chain : AssignmentChain) (lhs : Node)
    (stack : List (Node × Operator)) :
    (AssignmentChain.push lhs chain stack).length = stack.length + chain.length := by
  induction chain generalizing lhs stack with
  | nil => rfl
  | cons link rest ih =>
      rw [AssignmentChain.push, ih, List.length_cons, List.length_cons]
      omega

theorem Production.Parsed.eq {r : q.Ret} {c' : Counters} (hstarts : q.Starts s)
    (hr : q.Parsed s r s') (hc : q.counters = some c) (hc' : q.finalCounters r = some c')
    (h : c.Holds (· = ·) s₀ s) : c'.Holds (· = ·) s₀ s' := by
  cases q with
  | binaryLoop d o =>
      cases hc
      obtain ⟨before⟩ := hstarts
      obtain ⟨spine, current, ls, calm, rfl, hcontext, -⟩ := hr before
      cases hc'
      obtain ⟨h₁, h₂⟩ := h
      have hd := before.operandDepth
      have ho := before.operatorDepth
      rw [before.operand_eq] at h₁
      rw [before.operator_eq] at h₂
      simp only [Counters.Holds, hcontext, List.length_append, List.length_cons, Spine.operands,
        Spine.operators, List.length_map] at h₁ h₂ ⊢
      omega
  | unaryTokensLoop n =>
      cases hc
      cases hc'
      obtain ⟨ops, rfl, hcontext, -⟩ := hr
      simp only [Counters.Holds, hcontext, List.length_append, List.length_reverse,
        List.length_map] at h ⊢
      omega
  | assignmentLoop lhs n count =>
      cases hc
      obtain ⟨chain, calm, -, rfl, hcontext, -⟩ := hr
      cases hc'
      simp only [Counters.Holds, hcontext, AssignmentChain.length_push] at h ⊢
      omega
  | _ => cases hc

/-- What a production that was called finds, when it does not fail. -/
theorem grammar_post {r : Option q.Ret} (hstarts : q.Starts s ∧ Pre q s)
    (hr : parser.ReturnsWithout Failing q s r s') : grammar.post q s r s' :=
  (hr.post parser_parsed.correct (fun _ _ hd => hd) hstarts).1

theorem Found.context {cat : Category} {b : cat.Built} (h : Found cat s b s') :
    s'.regs.context = s.regs.context := by
  obtain ⟨ph, -, h, -⟩ := h
  exact h.context

theorem FoundExpr.context {n : Nat} {node : Node} (h : FoundExpr n s node s') :
    s'.regs.context = s.regs.context := by
  obtain ⟨e, -, h, -⟩ := h
  exact h.context

theorem FoundOperand.context {n : Nat} {node : Node} (h : FoundOperand n s node s') :
    s'.regs.context = s.regs.context := by
  obtain ⟨e, -, h, -⟩ := h
  exact h.context

/-- A production that does not fail leaves the stacks as they were. -/
theorem context_of_post {r : Option q.Ret} (hstarts : q.Starts s) (hloop : q.isLoop = false)
    (h : grammar.post q s r s') : s'.regs.context = s.regs.context := by
  cases r with
  | none =>
      cases q <;> first | exact h.elim | skip
      case statement | switchClauses | switchDefaultClause => rw [h.1]
      case functionInfo => rw [show s' = s from h]
  | some a =>
      cases q with
      | createSyntaxTree =>
          obtain ⟨s₁, hn, ⟨body, -, h, -⟩, -⟩ := h
          rw [h.context, hn.regs_error.1]
      | sourceElements =>
          obtain ⟨⟨body, -, h, -⟩, -⟩ := h
          exact h.context
      | varDeclarationList =>
          obtain ⟨name, init, rest, -, -, -, h, -⟩ := h
          exact h.context
      | constDeclarationList => exact h.elim
      | switchClauses =>
          obtain ⟨clauses, -, h, -⟩ := h
          exact h.context
      | statement => exact h.1.context
      | blockStatement =>
          obtain ⟨body, -, h, -⟩ := h
          exact h.context
      | formalParameters =>
          obtain ⟨name, rest, -, h⟩ := h
          exact h.context
      | functionBody => exact h.1
      | functionInfo =>
          obtain ⟨params, body, -, -, h, -⟩ := h
          exact h.context
      | strictObjectLiteral => exact hstarts.elim
      | _ =>
          first
          | exact Found.context h
          | exact FoundExpr.context h
          | exact FoundOperand.context h
          | cases hloop

/-- The counters equal the numbers of entries that are there, as long as nothing fails. -/
theorem Counted.eq (hp : p.HasCounters) (hpre : Pre p s₀) (hc : Counted Failing p s₀ c s) :
    c.Holds (· = ·) s₀ s := by
  have hstarts : p.Starts s₀ := by cases p <;> trivial
  refine hc.holds (fun a b => Nat.add_right_cancel_iff) (fun q s c ht hc => ht.eq hp hpre hc)
    (fun q s r s' c' ht hr hc' => ?_) fun c q s r s' hc hq hloop hr => ?_
  · obtain ⟨c, hc⟩ := Option.isSome_iff_exists.mp ht.counters
    have hstarts' := (ht.told hp hpre).1
    exact Production.Parsed.eq hstarts'.1 (grammar_post hstarts' hr) hc hc' (ht.eq hp hpre hc)
  · have hstarts' : q.Starts s ∧ Pre q s := by
      rcases hq with hq | ⟨q₁, s₁, ht, hq⟩
      · exact (parser_parsed.issues (fun _ _ hd => hd) ⟨hstarts, hpre⟩ hq).1
      · exact (parser_parsed.issues (fun _ _ hd => hd) (ht.told hp hpre).1 hq).1
    exact hc.congr (context_of_post hstarts'.1 hloop (grammar_post hstarts' hr))

end Nesting

/-! ## The discipline -/

/-- How the parse of a source treats the stacks of the builder. -/
structure StackDiscipline (source : List UChar) : Prop where
  /-- A production leaves the entries that it found on the stacks at their bottom. -/
  below : ∀ p s r s', Occurs source (.call p) s → p.isLoop = false →
    parser.Returns p s r s' → s.regs.context.Below s'.regs.context
  /-- If nothing failed inside it, it leaves the stacks as it found them. -/
  exact : ∀ p s r s', Occurs source (.call p) s → p.isLoop = false →
    parser.ReturnsWithout Failing p s r s' → s'.regs.context = s.regs.context
  /-- The counters never exceed the entries of the call. -/
  le : ∀ p s₀ c s, Occurs source (.call p) s₀ → p.HasCounters →
    Counted (fun _ => False) p s₀ c s → c.Holds (· ≤ ·) s₀ s
  /-- They equal them as long as nothing has failed. -/
  eq : ∀ p s₀ c s, Occurs source (.call p) s₀ → p.HasCounters →
    Counted Failing p s₀ c s → c.Holds (· = ·) s₀ s
  /-- Nothing is taken off an empty stack, and the assertion on `operandStackDepth` holds. -/
  safe : ∀ n e, parser.run n .createSyntaxTree (initialState source) = .fault e →
    e ≠ .emptyVector ∧ e ≠ .operandStackDepth

/-- What a call that the safety contract allows expects of the grammar. -/
theorem Pre.starts {p : Production} {s : ParserState} (h : Pre p s) (hloop : p.isLoop = false) :
    p.Starts s := by
  cases p with
  | expressionOrLabelStatement => exact h.start
  | strictObjectLiteral => exact h.start
  | _ => trivial

/-- **Stack discipline.** -/
theorem stack_discipline (source : List UChar) : StackDiscipline source where
  below p s r s' h hloop hr := (h.post hr).kept.toUntouched.below hloop
  exact p s r s' h hloop hr := by
    have hstarts := h.pre.starts hloop
    exact context_of_post hstarts hloop (grammar_post ⟨hstarts, h.pre⟩ hr)
  le p s₀ c s h hp hc := hc.le hp h
  eq p s₀ c s h hp hc := hc.eq hp h.pre
  safe n e h := by
    obtain ⟨ev, t, -, he⟩ := blamed_of_fault h
    rcases excused_cases he with rfl | rfl | rfl <;> simp

end HammerJS
