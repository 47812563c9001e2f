import HammerJS.Syntax.Phrase

/-!
# Phrases that stand as the grammar has it

A phrase says how a part of a source is cut up; the grammar says which phrases may
stand where.

* `BinaryToken.precedence`, `Phrase.rank` — how tightly operators bind.
* `Phrase.Legal` — the operands of a phrase bind tightly enough, what is assigned to
  can be assigned to, and `in` is an operator only where it may be one.
* `Phrase.Within`, `Phrase.Everywhere` — the phrases that a phrase is made of, and what holds
  of all of them.
* `Phrase.Legal.within` — those of a legal phrase are legal.
-/

namespace HammerJS

/-! ## Precedence -/

/-- The precedence of a binary operator, from 1 for `||` to 10 for `*`. -/
def BinaryToken.precedence (op : BinaryToken) : Nat := op.1.isBinaryOperator true >>> 12

theorem BinaryToken.precedence_range (op : BinaryToken) :
    1 ≤ op.precedence ∧ op.precedence ≤ 10 := by
  obtain ⟨t, ht⟩ := op
  unfold BinaryToken.precedence
  revert ht
  cases t <;> decide

/-- `isBinaryOperator` gives the precedence, in one of two fields. -/
theorem BinaryToken.isBinaryOperator_eq (op : BinaryToken) {allowsIn : Bool}
    (h : op.1.isBinaryOperator allowsIn ≠ 0) :
    op.1.isBinaryOperator allowsIn = op.precedence * if allowsIn then 4096 else 256 := by
  obtain ⟨t, ht⟩ := op
  unfold BinaryToken.precedence
  revert ht h
  cases allowsIn <;> cases t <;> decide

/-- `in` is an operator only where `m_allowsIn` is set. -/
theorem isBinaryOperator_in {t : JSTokenType} {allowsIn : Bool}
    (h : t.isBinaryOperator allowsIn ≠ 0) (ht : t = .inToken) : allowsIn = true := by
  subst ht
  cases allowsIn with
  | true => rfl
  | false => exact absurd rfl h

namespace Phrase

/-- How tightly an expression binds: a sequence 0, an assignment 1, a conditional
expression 2, a binary operator 3 to 12, a prefix operator 13, a postfix operator 14,
a `new` without arguments 15, a call 16, and 17 what has no operator outside of
brackets.  What follows a call is one. -/
def rank : {c : Category} → Phrase c → Nat
  | _, comma _ _ _ => 0
  | _, assign _ _ _ => 1
  | _, cond _ _ _ => 2
  | _, binary _ op _ => 2 + op.precedence
  | _, unary _ _ => 13
  | _, postOp _ _ => 14
  | _, newNoArgs _ => 15
  | _, call _ _ => 16
  | _, bracket base _ | _, dot base _ => base.rank
  | _, _ => 17

theorem rank_le {c : Category} (p : Phrase c) : p.rank ≤ 17 := by
  induction p with
  | binary left op right =>
      have := op.precedence_range
      simp only [rank]
      omega
  | bracket base property ih => exact ih
  | dot base property ih => exact ih
  | _ => simp [rank]

/-! ## Legal phrases -/

/-- The parts of a phrase may stand where they do, and `in` is an operator of it
outside of brackets only if `allowsIn` is set. -/
def Legal : {c : Category} → Bool → Phrase c → Prop
  | _, _, this | _, _, resolve _ | _, _, string _ | _, _, number _ | _, _, null
  | _, _, boolean _ | _, _, regExp _ _ _ | _, _, emptyArray _ | _, _, emptyObject => True
  | _, _, paren e => e.Legal true
  | _, _, array _ first rest => first.Legal true ∧ 1 ≤ first.rank ∧ rest.Legal true
  | _, _, object first rest => first.Legal true ∧ rest.Legal true
  | _, _, function _ _ body => body.Legal true
  | _, _, bracket base property =>
      base.Legal true ∧ 16 ≤ base.rank ∧ property.Legal true
  | _, _, dot base _ => base.Legal true ∧ 16 ≤ base.rank
  | _, _, call callee args => callee.Legal true ∧ 16 ≤ callee.rank ∧ args.Legal true
  | _, _, newArgs callee args => callee.Legal true ∧ callee.rank = 17 ∧ args.Legal true
  | _, _, newNoArgs callee => callee.Legal true ∧ (callee.rank = 15 ∨ callee.rank = 17)
  | _, _, unary _ e => e.Legal true ∧ 13 ≤ e.rank
  | _, _, postOp _ e => e.Legal true ∧ 15 ≤ e.rank
  | _, allowsIn, binary left op right =>
      (left.Legal allowsIn ∧ 2 + op.precedence ≤ left.rank) ∧
        (right.Legal allowsIn ∧ 2 + op.precedence < right.rank) ∧
          (op.1 = .inToken → allowsIn = true)
  | _, allowsIn, cond test left right =>
      (test.Legal allowsIn ∧ 3 ≤ test.rank) ∧ (left.Legal allowsIn ∧ 1 ≤ left.rank) ∧
        right.Legal allowsIn ∧ 1 ≤ right.rank
  | _, allowsIn, assign left _ right =>
      (left.Legal allowsIn ∧ left.Calm) ∧ right.Legal allowsIn ∧ 1 ≤ right.rank
  | _, allowsIn, comma first second rest =>
      (first.Legal allowsIn ∧ 1 ≤ first.rank) ∧ (second.Legal allowsIn ∧ 1 ≤ second.rank) ∧
        rest.Legal allowsIn
  | _, _, noExprs | _, _, noArgs | _, _, noElements | _, _, trailingElisions _
  | _, _, noProps | _, _, trailingComma | _, _, absent | _, _, noInit => True
  | _, allowsIn, moreExprs e rest =>
      (e.Legal allowsIn ∧ 1 ≤ e.rank) ∧ rest.Legal allowsIn
  | _, _, arguments first rest => (first.Legal true ∧ 1 ≤ first.rank) ∧ rest.Legal true
  | _, _, moreElements _ e rest => (e.Legal true ∧ 1 ≤ e.rank) ∧ rest.Legal true
  | _, _, prop _ _ value | _, _, numericProp _ value => value.Legal true ∧ 1 ≤ value.rank
  | _, _, moreProps p rest => p.Legal true ∧ rest.Legal true
  | _, allowsIn, present e => e.Legal allowsIn
  | _, allowsIn, initializer e => e.Legal allowsIn ∧ 1 ≤ e.rank
  | _, _, block body => body.Legal true
  | _, _, varDecl _ init rest _ => init.Legal true ∧ rest.Legal true
  | _, _, functionDecl _ _ body => body.Legal true
  | _, _, empty | _, _, .continue _ _ | _, _, .break _ _ | _, _, debugger _ => True
  | _, _, ifThen test yes => test.Legal true ∧ yes.Legal true
  | _, _, ifElse test yes no => test.Legal true ∧ yes.Legal true ∧ no.Legal true
  | _, _, doWhile body test _ => body.Legal true ∧ test.Legal true
  | _, _, .while test body => test.Legal true ∧ body.Legal true
  | _, _, .for init test update body =>
      init.Legal false ∧ test.Legal true ∧ update.Legal true ∧ body.Legal true
  | _, _, forVar _ init rest t _ test update body =>
      (init.Legal false ∧ rest.Legal false) ∧ (rest = .noDecls → t = .semicolon) ∧
        test.Legal true ∧ update.Legal true ∧ body.Legal true
  | _, _, forIn left right body =>
      (left.Legal false ∧ left.Calm) ∧ right.Legal true ∧ body.Legal true
  | _, _, forInVar _ init right body => init.Legal false ∧ right.Legal true ∧ body.Legal true
  | _, _, .return e _ => e.Legal true
  | _, _, throw e _ => e.Legal true
  | _, _, .with subject body => subject.Legal true ∧ body.Legal true
  | _, _, switch discriminant first default second =>
      discriminant.Legal true ∧ first.Legal true ∧ default.Legal true ∧ second.Legal true
  | _, _, .try body handler finalizer =>
      body.Legal true ∧ handler.Legal true ∧ finalizer.Legal true ∧
        (handler ≠ .noHandler ∨ finalizer ≠ .noFinalizer)
  | _, _, labelled _ body => body.Legal true
  | _, _, exprStmt e _ => e.Legal true
  | _, _, noStmts | _, _, noClauses | _, _, noDefault | _, _, noDecls | _, _, noHandler
  | _, _, noFinalizer => True
  | _, _, moreStmts first rest => first.Legal true ∧ rest.Legal true
  | _, _, moreClauses test body rest => test.Legal true ∧ body.Legal true ∧ rest.Legal true
  | _, _, defaultClause body => body.Legal true
  | _, allowsIn, moreDecls _ init rest => init.Legal allowsIn ∧ rest.Legal allowsIn
  | _, _, .catch _ body => body.Legal true
  | _, _, .finally body => body.Legal true

/-- Where `in` may be an operator, everything may stand that may stand elsewhere. -/
theorem Legal.mono {c : Category} {p : Phrase c} {allowsIn : Bool} (h : p.Legal allowsIn) :
    p.Legal true := by
  induction p with
  | binary left op right hleft hright =>
      obtain ⟨⟨hl, hlr⟩, ⟨hr, hrr⟩, -⟩ := h
      exact ⟨⟨hleft hl, hlr⟩, ⟨hright hr, hrr⟩, fun _ => rfl⟩
  | cond test left right htest hleft hright =>
      obtain ⟨⟨ht, htr⟩, ⟨hl, hlr⟩, hr, hrr⟩ := h
      exact ⟨⟨htest ht, htr⟩, ⟨hleft hl, hlr⟩, hright hr, hrr⟩
  | assign left op right hleft hright =>
      obtain ⟨⟨hl, hcalm⟩, hr, hrr⟩ := h
      exact ⟨⟨hleft hl, hcalm⟩, hright hr, hrr⟩
  | comma first second rest hfirst hsecond hrest =>
      obtain ⟨⟨hf, hfr⟩, ⟨hs, hsr⟩, hr⟩ := h
      exact ⟨⟨hfirst hf, hfr⟩, ⟨hsecond hs, hsr⟩, hrest hr⟩
  | moreExprs e rest he hrest => exact ⟨⟨he h.1.1, h.1.2⟩, hrest h.2⟩
  | present e ih => exact ih h
  | initializer e ih => exact ⟨ih h.1, h.2⟩
  | moreDecls name init rest hinit hrest => exact ⟨hinit h.1, hrest h.2⟩
  | _ => exact h

/-- Whether `in` may be an operator matters only to what binds no tighter than it. -/
theorem Legal.of_rank {e : Phrase .expr} {allowsIn : Bool} (h : e.Legal true)
    (hrank : 13 ≤ e.rank) : e.Legal allowsIn := by
  cases e with
  | binary left op right =>
      have := op.precedence_range
      simp only [rank] at hrank
      omega
  | cond | assign | comma => exact absurd hrank (by simp [rank])
  | _ => exact h

/-- What can be assigned to has no operator outside of brackets. -/
theorem Calm.rank_ge {c : Category} {p : Phrase c} (h : p.Calm) : 15 ≤ p.rank := by
  induction p with
  | bracket base property ih => exact ih h
  | dot base property ih => exact ih h
  | unary | postOp | binary | cond | assign | comma => exact h.elim
  | _ => simp [rank]

/-! ## Parts -/

/-- The phrases that a phrase is put together from. -/
def children : {c : Category} → Phrase c → List ((c : Category) × Phrase c)
  | _, this | _, resolve _ | _, string _ | _, number _ | _, null | _, boolean _
  | _, regExp _ _ _ | _, emptyArray _ | _, emptyObject | _, noExprs | _, noArgs
  | _, noElements | _, trailingElisions _ | _, noProps | _, trailingComma | _, absent
  | _, noInit | _, empty | _, .continue _ _ | _, .break _ _ | _, debugger _ | _, noStmts
  | _, noClauses | _, noDefault | _, noDecls | _, noHandler | _, noFinalizer => []
  | _, paren e | _, newNoArgs e | _, unary _ e | _, postOp _ e | _, present e
  | _, initializer e | _, throw e _ | _, exprStmt e _ | _, prop _ _ e | _, numericProp _ e =>
      [⟨_, e⟩]
  | _, array _ first rest => [⟨_, first⟩, ⟨_, rest⟩]
  | _, object first rest => [⟨_, first⟩, ⟨_, rest⟩]
  | _, function _ _ body | _, block body | _, functionDecl _ _ body | _, defaultClause body
  | _, .catch _ body | _, .finally body => [⟨_, body⟩]
  | _, bracket base property => [⟨_, base⟩, ⟨_, property⟩]
  | _, dot base _ => [⟨_, base⟩]
  | _, call callee args | _, newArgs callee args => [⟨_, callee⟩, ⟨_, args⟩]
  | _, binary left _ right | _, assign left _ right => [⟨_, left⟩, ⟨_, right⟩]
  | _, cond test left right => [⟨_, test⟩, ⟨_, left⟩, ⟨_, right⟩]
  | _, comma first second rest => [⟨_, first⟩, ⟨_, second⟩, ⟨_, rest⟩]
  | _, moreExprs e rest | _, arguments e rest => [⟨_, e⟩, ⟨_, rest⟩]
  | _, moreElements _ e rest => [⟨_, e⟩, ⟨_, rest⟩]
  | _, moreProps p rest => [⟨_, p⟩, ⟨_, rest⟩]
  | _, varDecl _ init rest _ | _, moreDecls _ init rest => [⟨_, init⟩, ⟨_, rest⟩]
  | _, ifThen test body | _, .while test body | _, .with test body | _, doWhile body test _ =>
      [⟨_, test⟩, ⟨_, body⟩]
  | _, ifElse test yes no => [⟨_, test⟩, ⟨_, yes⟩, ⟨_, no⟩]
  | _, .for init test update body => [⟨_, init⟩, ⟨_, test⟩, ⟨_, update⟩, ⟨_, body⟩]
  | _, forVar _ init rest _ _ test update body =>
      [⟨_, init⟩, ⟨_, rest⟩, ⟨_, test⟩, ⟨_, update⟩, ⟨_, body⟩]
  | _, forIn left right body => [⟨_, left⟩, ⟨_, right⟩, ⟨_, body⟩]
  | _, forInVar _ init right body => [⟨_, init⟩, ⟨_, right⟩, ⟨_, body⟩]
  | _, .return e _ => [⟨_, e⟩]
  | _, switch discriminant first default second =>
      [⟨_, discriminant⟩, ⟨_, first⟩, ⟨_, default⟩, ⟨_, second⟩]
  | _, .try body handler finalizer => [⟨_, body⟩, ⟨_, handler⟩, ⟨_, finalizer⟩]
  | _, labelled _ body => [⟨_, body⟩]
  | _, moreStmts first rest => [⟨_, first⟩, ⟨_, rest⟩]
  | _, moreClauses test body rest => [⟨_, test⟩, ⟨_, body⟩, ⟨_, rest⟩]

/-- The first phrase occurs in the second. -/
inductive Within : {c c' : Category} → Phrase c → Phrase c' → Prop
  | refl {c : Category} (p : Phrase c) : Within p p
  | child {c c' c'' : Category} {p : Phrase c} {q : Phrase c'} {whole : Phrase c''}
      (hq : ⟨c', q⟩ ∈ whole.children) (h : Within p q) : Within p whole

/-- The property holds of every phrase that occurs in the phrase. -/
def Everywhere (P : {c : Category} → Phrase c → Prop) {c : Category} (whole : Phrase c) : Prop :=
  ∀ {c' : Category} (p : Phrase c'), p.Within whole → P p

theorem everywhere_iff {P : {c : Category} → Phrase c → Prop} {c : Category} {whole : Phrase c} :
    whole.Everywhere P ↔ P whole ∧ ∀ q ∈ whole.children, q.2.Everywhere P := by
  constructor
  · intro h
    exact ⟨h whole (.refl whole), fun q hq _ p hp => h p (.child hq hp)⟩
  · rintro ⟨hwhole, hchildren⟩ c' p hp
    cases hp with
    | refl => exact hwhole
    | child hq hp => exact hchildren _ hq p hp

theorem child_size {c : Category} (p : Phrase c) : ∀ q ∈ p.children, sizeOf q.2 < sizeOf p := by
  cases p <;> simp [children] <;> omega

/-- What holds of a phrase and of its parts, one level at a time, holds everywhere in it. -/
theorem everywhere_of_children {P Q : {c : Category} → Phrase c → Prop}
    (step : ∀ {c : Category} (p : Phrase c), Q p ↔ P p ∧ ∀ q ∈ p.children, Q q.2) {c : Category}
    (whole : Phrase c) : Q whole ↔ whole.Everywhere P := by
  rw [step, everywhere_iff]
  apply and_congr_right
  intro _
  refine forall₂_congr fun q hq => ?_
  have := whole.child_size q hq
  exact everywhere_of_children step q.2
termination_by sizeOf whole

theorem Legal.child {c : Category} {p : Phrase c} (h : p.Legal true) :
    ∀ q ∈ p.children, q.2.Legal true := by
  have hmono : ∀ {c : Category} {q : Phrase c}, q.Legal false → q.Legal true := fun h => h.mono
  cases p <;>
    simp only [children, Legal, List.forall_mem_cons, List.not_mem_nil, false_imp_iff,
      implies_true, and_true] at h ⊢ <;> grind

/-- **What occurs in a legal phrase is legal.** -/
theorem Legal.within {c c' : Category} {p : Phrase c} {q : Phrase c'} {allowsIn : Bool}
    (h : p.Legal allowsIn) (hq : q.Within p) : q.Legal true := by
  replace h := h.mono
  clear allowsIn
  induction hq with
  | refl p => exact h
  | child hq _ ih => exact ih (h.child _ hq)

-- only to have the equations of the definitions made here, once for all that rewrite with them
attribute [local simp] rank Legal children

end Phrase

end HammerJS
