import HammerJS.Runs.Targets

/-!
# Trees of binary operators

`parseBinaryExpression` undoes printing: a tree of binary operators, printed with no more
parentheses than its operators require, is what the production makes of the print.

* `OperatorTree` — what the operators of an expression join, whatever its parentheses are.
* `OperatorTree.print` — the tree with the parentheses that it requires.
* `binaryExpression_print` — what is printed is read back.
-/

namespace HammerJS

open Procs Machine Lexer

/-- Operands, and the operators that join them. -/
inductive OperatorTree where
  | operand (e : Phrase .expr)
  | node (left : OperatorTree) (op : BinaryToken) (right : OperatorTree)

namespace OperatorTree

/-- The expression, in parentheses unless it binds tightly enough to stand for itself. -/
def inParens (bare : Bool) (e : Phrase .expr) : Phrase .expr := if bare then e else .paren e

/-- How tightly the operator at the root binds. -/
def rank : OperatorTree → Nat
  | operand e => e.rank
  | node _ op _ => 2 + op.precedence

/-- The operand on the left of the operator needs no parentheses. -/
def bareLeft (op : BinaryToken) (left : OperatorTree) : Bool := 2 + op.precedence ≤ left.rank

/-- The operand on the right of the operator needs no parentheses. -/
def bareRight (op : BinaryToken) (right : OperatorTree) : Bool := 2 + op.precedence < right.rank

/-- The tree with the parentheses that it requires, operators being left-associative. -/
def print : OperatorTree → Phrase .expr
  | operand e => e
  | node left op right =>
      .binary (inParens (bareLeft op left) left.print) op (inParens (bareRight op right) right.print)

/-- What the tree stands for. -/
def build [Platform] : OperatorTree → Node
  | operand e => e.build
  | node left op right =>
      ((Node.ofOperator .binaryExpression op.operator).append (some left.build)).append
        (some right.build)

/-- The operands are legal, and have no binary operator of their own. -/
def Operands : OperatorTree → Prop
  | operand e => e.Legal true ∧ 13 ≤ e.rank
  | node left _ right => left.Operands ∧ right.Operands

/-- There is an `in` that no parentheses enclose. -/
def UsesIn : OperatorTree → Prop
  | operand _ => False
  | node left op right =>
      op.1 = .inToken ∨ (bareLeft op left ∧ left.UsesIn) ∨ (bareRight op right ∧ right.UsesIn)

section Print

variable {t : OperatorTree} {allowsIn bare : Bool} {e : Phrase .expr}

theorem rank_print (t : OperatorTree) : t.print.rank = t.rank := by
  cases t <;> rfl

theorem build_inParens [Platform] : (inParens bare e).build = e.build := by
  cases bare <;> rfl

/-- Parentheses do not change what a tree stands for. -/
theorem build_print [Platform] (t : OperatorTree) : t.print.build = t.build := by
  induction t with
  | operand e => rfl
  | node left op right ihleft ihright =>
      simp only [print, Phrase.build, build_inParens, ihleft, ihright, build]

/-- What stands in parentheses may use `in`, and stands everywhere. -/
theorem legal_inParens (h : e.Legal (allowsIn || !bare)) : (inParens bare e).Legal allowsIn := by
  cases bare with
  | true => simpa [inParens] using h
  | false => simpa [inParens, Phrase.Legal] using h

theorem le_rank_inParens {n : Nat} (hn : n ≤ 17) (h : bare = true → n ≤ e.rank) :
    n ≤ (inParens bare e).rank := by
  cases bare with
  | true => exact h rfl
  | false => exact hn

theorem rank_ge (h : t.Operands) : 3 ≤ t.rank := by
  cases t with
  | operand e =>
      have := h.2
      simp only [rank]
      omega
  | node left op right =>
      have := op.precedence_range
      simp only [rank]
      omega

/-- A tree is printed as the grammar has it. -/
theorem legal_print (h : t.Operands) (hin : t.UsesIn → allowsIn = true) :
    t.print.Legal allowsIn := by
  induction t generalizing allowsIn with
  | operand e => exact h.1.of_rank h.2
  | node left op right ihleft ihright =>
      obtain ⟨hleft, hright⟩ := h
      have hrange := op.precedence_range
      refine ⟨⟨legal_inParens (ihleft hleft fun huses => ?_), ?_⟩,
        ⟨legal_inParens (ihright hright fun huses => ?_), ?_⟩, fun hop => hin (Or.inl hop)⟩
      · cases hbare : bareLeft op left with
        | true => simp [hin (Or.inr (Or.inl ⟨hbare, huses⟩))]
        | false => simp
      · exact le_rank_inParens (by omega) fun hbare => left.rank_print ▸ of_decide_eq_true hbare
      · cases hbare : bareRight op right with
        | true => simp [hin (Or.inr (Or.inr ⟨hbare, huses⟩))]
        | false => simp
      · exact le_rank_inParens (n := 2 + op.precedence + 1) (by omega)
          fun hbare => right.rank_print ▸ of_decide_eq_true hbare

end Print

end OperatorTree

/-! ## Reading back -/

section Reading

variable [Platform]

/-- **Printing is undone.**  Where a tree of binary operators stands as it is printed, with `in`
outside of parentheses only if `m_allowsIn` is set, `parseBinaryExpression` returns the tree, up
to the token behind it, and leaves the stacks of its callers as they were. -/
theorem binaryExpression_print {t : OperatorTree} {s : ParserState} {b : Stream}
    (ht : t.Operands) (hspans : t.print.Spans s.stream b) (herror : s.error = false)
    (hin : t.UsesIn → s.regs.allowsIn = true) (hends : Ends 3 s.regs.allowsIn b.token.type) :
    parser.Answers .binaryExpression s fun node s' =>
      node = t.build ∧ s'.stream = b ∧ s'.regs.context = s.regs.context := by
  have htaken : t.print.TakenAsBinary := t.print.taken.binary
  have hrank : 3 ≤ t.print.rank := t.rank_print ▸ OperatorTree.rank_ge ht
  have hlegal : t.print.Legal s.regs.allowsIn := OperatorTree.legal_print ht hin
  apply (htaken.expression hspans rfl herror hlegal ⟨hrank, hends⟩).mono
  rintro node s' ⟨rfl, h⟩
  exact ⟨t.build_print, h.stream, h.context⟩

-- what follows in a source is evaluated by the kernel alone
attribute [local irreducible] Stream.rest

omit [Platform] in
/-- The source `a*(b+c);`. -/
theorem binaryExpression_print_product :
    let _ : Platform := exactPlatform
    let source := identifierOfChars "a*(b+c);".toList
    let start := (Stream.before source).rest
    let name := fun c => OperatorTree.operand (.resolve (identifierOfChars [c]))
    let t := OperatorTree.node (name 'a') ⟨.times, by decide⟩
      (.node (name 'b') ⟨.plus, by decide⟩ (name 'c'))
    parser.Answers .binaryExpression (start.state source) fun node s' =>
      node = t.build ∧ s'.stream = start.rest.rest.rest.rest.rest.rest.rest ∧
        s'.regs.context = (start.state source).regs.context := by
  intro _ source start name t
  let b := start.rest.rest.rest
  have hreadable : (start.readable && start.rest.readable && start.rest.rest.readable &&
      b.readable && b.rest.readable && b.rest.rest.readable && b.rest.rest.rest.readable) = true := by
    decide +kernel
  simp only [Bool.and_eq_true] at hreadable
  obtain ⟨⟨⟨⟨⟨⟨h₁, h₂⟩, h₃⟩, h₄⟩, h₅⟩, h₆⟩, h₇⟩ := hreadable
  have hfirst : start.token.type = .ident ∧
      start.token.data.getIdent = identifierOfChars ['a'] := by decide +kernel
  have hopen : start.rest.token.type = .times ∧ start.rest.rest.token.type = .openParen := by
    decide +kernel
  have hsecond : b.token.type = .ident ∧ b.token.data.getIdent = identifierOfChars ['b'] := by
    decide +kernel
  have hplus : b.rest.token.type = .plus := by decide +kernel
  have hthird : b.rest.rest.token.type = .ident ∧
      b.rest.rest.token.data.getIdent = identifierOfChars ['c'] := by decide +kernel
  have hclose : b.rest.rest.rest.token.type = .closeParen := by decide +kernel
  have hends : b.rest.rest.rest.rest.token.type = .semicolon := by decide +kernel
  have hsum : (OperatorTree.node (name 'b') ⟨.plus, by decide⟩ (name 'c')).print.Spans b
      b.rest.rest.rest :=
    .intro (.sub (.intro (.token ⟨hsecond.1, hsecond.2, Stream.next_rest h₄⟩ .nil) trivial)
      (.token ⟨hplus, Stream.next_rest h₅⟩
        (.sub (.intro (.token ⟨hthird.1, hthird.2, Stream.next_rest h₆⟩ .nil) trivial) .nil)))
      trivial
  have hspans : t.print.Spans start b.rest.rest.rest.rest :=
    .intro (.sub (.intro (.token ⟨hfirst.1, hfirst.2, Stream.next_rest h₁⟩ .nil) trivial)
      (.token ⟨hopen.1, Stream.next_rest h₂⟩
        (.sub (.intro (.token ⟨hopen.2, Stream.next_rest h₃⟩
          (.sub hsum (.token ⟨hclose, Stream.next_rest h₇⟩ .nil))) trivial) .nil)))
      trivial
  exact binaryExpression_print (t := t) (s := start.state source)
    ⟨⟨trivial, by decide⟩, ⟨trivial, by decide⟩, trivial, by decide⟩ hspans rfl (fun _ => rfl)
    (hends ▸ ends_other rfl)

end Reading

end HammerJS
