import HammerJS.Reflect.Accepts
import HammerJS.Syntax.Legal
import HammerJS.Syntax.Positions
import HammerJS.Syntax.Reads

/-!
# Phrases in a token stream

The grammar again, over the tokens that the lexer hands out: from where to where in the
stream a phrase stands.  The parser decides by the next token whether a phrase goes on, so
where a phrase may end is part of it.

* `Ends` — the tokens that no expression of a rank goes on with.
* `Phrase.Fits` — the phrase may end where it does, and starts as it should.
* `Phrase.Spans` — the phrase stands in the stream.
* `Phrase.Spans.head`, `Phrase.head_starts` — what expressions start with.
-/

namespace HammerJS

open Procs Machine Lexer Part

/-! ## The end of an expression -/

/-- The rank of the expressions that go on with the token: 0 for a comma, 1 for an assignment,
2 for a question mark, 3 for a binary operator, 13 for a postfix operator and 15 for what
follows an expression without an operator. -/
def JSTokenType.continues (allowsIn : Bool) (t : JSTokenType) : Option Nat :=
  match t with
  | .comma => some 0
  | .question => some 2
  | .plusPlus | .minusMinus => some 13
  | .openBracket | .openParen | .dot => some 15
  | t =>
      if t.isBinaryOperator allowsIn ≠ 0 then some 3
      else if (assignmentOperator t).isSome then some 1
      else none

/-- An expression of rank `n` does not go on with the token. -/
def Ends (n : Nat) (allowsIn : Bool) (t : JSTokenType) : Prop :=
  ∀ m ∈ t.continues allowsIn, m < n

section Ends

variable {n n' : Nat} {allowsIn : Bool} {t : JSTokenType}

theorem Ends.mono (h : Ends n allowsIn t) (hn : n ≤ n') : Ends n' allowsIn t :=
  fun m hm => (h m hm).trans_le hn

theorem ends_of_none (h : t.continues allowsIn = none) : Ends n allowsIn t := by
  rintro m hm
  rw [h] at hm
  cases hm

/-- Nothing goes on with the token. -/
theorem ends_other (h : t.continues true = none) : Ends n allowsIn t := by
  refine ends_of_none ?_
  revert h
  cases allowsIn <;> cases t <;> decide

theorem ends_of_some {m : Nat} (h : t.continues allowsIn = some m) (hm : m < n) :
    Ends n allowsIn t := by
  rintro m' hm'
  rw [h] at hm'
  cases hm'
  exact hm

theorem Ends.suffix (h : Ends 15 allowsIn t) :
    t ≠ .openBracket ∧ t ≠ .openParen ∧ t ≠ .dot := by
  refine ⟨?_, ?_, ?_⟩ <;> rintro rfl <;> exact absurd (h 15 rfl) (by omega)

theorem Ends.postOp (h : Ends 13 allowsIn t) : t ≠ .plusPlus ∧ t ≠ .minusMinus := by
  constructor <;> rintro rfl <;> exact absurd (h 13 rfl) (by omega)

theorem continues_binary (h : t.isBinaryOperator allowsIn ≠ 0) :
    t.continues allowsIn = some 3 := by
  revert h
  cases allowsIn <;> cases t <;> decide

theorem continues_assignment (h : assignmentOperator t ≠ none) :
    t.continues allowsIn = some 1 := by
  revert h
  cases allowsIn <;> cases t <;> decide

theorem Ends.binary (h : Ends 3 allowsIn t) : t.isBinaryOperator allowsIn = 0 := by
  by_contra hne
  exact absurd (h 3 (continues_binary hne)) (by omega)

theorem Ends.question (h : Ends 2 allowsIn t) : t ≠ .question := by
  rintro rfl
  exact absurd (h 2 rfl) (by omega)

theorem Ends.assignment (h : Ends 1 allowsIn t) : assignmentOperator t = none := by
  by_contra hne
  exact absurd (h 1 (continues_assignment hne)) (by omega)

theorem Ends.comma (h : Ends 0 allowsIn t) : t ≠ .comma := by
  rintro rfl
  exact absurd (h 0 rfl) (by omega)

/-- Nothing but `in` goes on with an expression only if `m_allowsIn` is set. -/
theorem Ends.with_in (h : Ends n false t) (ht : t ≠ .inToken) : Ends n allowsIn t := by
  have hsame : t.continues allowsIn = t.continues false := by
    revert ht
    cases allowsIn <;> cases t <;> decide
  intro m hm
  exact h m (hsame ▸ hm)

/-- No operand goes on with the operator behind it. -/
theorem ends_operand (op : BinaryToken) : Ends 13 allowsIn op.1 := by
  obtain ⟨t, ht⟩ := op
  by_cases hne : t.isBinaryOperator allowsIn = 0
  · refine ends_of_none ?_
    revert ht hne
    cases allowsIn <;> cases t <;> decide
  · exact ends_of_some (continues_binary hne) (by omega)

/-- What is assigned to does not go on with the operator behind it. -/
theorem ends_assigned (op : AssignmentToken) : Ends 2 allowsIn op.1 :=
  ends_of_some (continues_assignment (Option.isSome_iff_ne_none.mp op.2)) (by omega)

end Ends

/-! ## Phrases in a stream -/

/-- The token ends a statement without a semicolon. -/
def Stream.AllowsOmission (a : Stream) : Prop :=
  a.token.type = .closeBrace ∨ a.token.type = .eofTok ∨ a.lexer.terminator = true

/-- A semicolon that is not there may be left out. -/
def Stream.Omits (semi : Bool) (b : Stream) : Prop :=
  semi = false → b.token.type ≠ .semicolon ∧ b.AllowsOmission

section Spans

variable [Platform]

/-- Nothing allows a semicolon to be left out behind the current token. -/
def Stream.Binds (a : Stream) : Prop :=
  ∀ m, a.Next .identifyReservedWords m → ¬ m.AllowsOmission

namespace Phrase

/-- From `a` to `b` the phrase has what it needs besides its tokens: no rule of the parser goes
on with the token that it ends before, a semicolon that is missing may be left out, and what
belongs to a keyword stands on its line. -/
def Fits : {c : Category} → Phrase c → Stream → Stream → Prop
  | _, noInit, _, b => b.token.type ≠ .equal
  | _, initializer _, _, b => Ends 1 false b.token.type
  | _, noDecls, _, b => b.token.type ≠ .comma
  | _, varDecl _ _ _ semi, _, b => b.Omits semi ∧ (semi = false → b.token.type ≠ .inToken)
  | _, ifThen _ _, _, b => b.token.type ≠ .else
  | _, doWhile _ _ semi, _, b => semi = false → b.token.type ≠ .semicolon
  | _, .continue label semi, a, b | _, .break label semi, a, b =>
      b.Omits semi ∧ (label.isSome → a.Binds)
  | _, .return e semi, a, b =>
      b.Omits semi ∧ (e ≠ .absent → a.Binds ∧ (semi = false → Ends 0 true b.token.type))
  | _, throw _ semi, _, b => b.Omits semi ∧ (semi = false → Ends 0 true b.token.type)
  | _, debugger semi, _, b => b.Omits semi
  | _, labelled _ _, a, _ => a.Binds
  | _, exprStmt _ semi, a, b =>
      (a.token.type ≠ .openBrace ∧ a.token.type ≠ .function) ∧ b.Omits semi ∧
        (semi = false → Ends 0 true b.token.type)
  | _, noStmts, _, b => endsStatements b.token.type = true
  | _, noClauses, _, b => b.token.type ≠ .case
  | _, noDefault, _, b => b.token.type ≠ .default
  | _, noHandler, _, b => b.token.type ≠ .catch
  | _, noFinalizer, _, b => b.token.type ≠ .finally
  | _, _, _, _ => True

-- only to have the equations of the definition made here, once for all that rewrite with them
attribute [local simp] Fits

end Phrase

mutual

/-- The phrase stands in the stream from the first token up to the second. -/
inductive Phrase.Spans : {c : Category} → Phrase c → Stream → Stream → Prop
  | intro {c : Category} {p : Phrase c} {a b : Stream} (h : SpansParts p.parts a b)
      (hfits : p.Fits a b) : Phrase.Spans p a b

/-- The parts stand there one behind the other. -/
inductive SpansParts : List Part → Stream → Stream → Prop
  | nil {a : Stream} : SpansParts [] a a
  | token {x : Lexeme} {parts : List Part} {a m b : Stream} (hx : x.Step a m)
      (h : SpansParts parts m b) : SpansParts (.inl x :: parts) a b
  | sub {c : Category} {p : Phrase c} {parts : List Part} {a m b : Stream} (hp : Phrase.Spans p a m)
      (h : SpansParts parts m b) : SpansParts (sub p :: parts) a b

end

section Parts

variable {a b : Stream} {parts parts' : List Part}

theorem spans_iff {c : Category} {p : Phrase c} :
    p.Spans a b ↔ SpansParts p.parts a b ∧ p.Fits a b :=
  ⟨fun h => by cases h with | intro h hfits => exact ⟨h, hfits⟩, fun h => .intro h.1 h.2⟩

@[simp] theorem spansParts_nil : SpansParts [] a b ↔ a = b := by
  constructor
  · intro h
    cases h
    rfl
  · rintro rfl
    exact .nil

@[simp] theorem spansParts_token {x : Lexeme} :
    SpansParts (.inl x :: parts) a b ↔ ∃ m, x.Step a m ∧ SpansParts parts m b := by
  constructor
  · intro h
    cases h with
    | token hx h => exact ⟨_, hx, h⟩
  · rintro ⟨m, hx, h⟩
    exact .token hx h

@[simp] theorem spansParts_sub {c : Category} {p : Phrase c} :
    SpansParts (sub p :: parts) a b ↔ ∃ m, p.Spans a m ∧ SpansParts parts m b := by
  constructor
  · intro h
    cases h with
    | sub hp h => exact ⟨_, hp, h⟩
  · rintro ⟨m, hp, h⟩
    exact .sub hp h

@[simp] theorem spansParts_append :
    SpansParts (parts ++ parts') a b ↔ ∃ m, SpansParts parts a m ∧ SpansParts parts' m b := by
  induction parts generalizing a with
  | nil => simp
  | cons part parts ih =>
      cases part with
      | inl x =>
          simp only [List.cons_append, spansParts_token, ih]
          exact ⟨fun ⟨m, hx, n, h, h'⟩ => ⟨n, ⟨m, hx, h⟩, h'⟩,
            fun ⟨n, ⟨m, hx, h⟩, h'⟩ => ⟨m, hx, n, h, h'⟩⟩
      | inr q =>
          obtain ⟨c, p⟩ := q
          simp only [List.cons_append, spansParts_sub, ih]
          exact ⟨fun ⟨m, hx, n, h, h'⟩ => ⟨n, ⟨m, hx, h⟩, h'⟩,
            fun ⟨n, ⟨m, hx, h⟩, h'⟩ => ⟨m, hx, n, h, h'⟩⟩

@[simp] theorem spansParts_tokens {xs : List Lexeme} :
    SpansParts (tokens xs) a b ↔ Reads xs a b := by
  induction xs generalizing a with
  | nil => exact spansParts_nil
  | cons x xs ih =>
      refine spansParts_token.trans (exists_congr fun m => and_congr_right fun _ => ih)

/-! ### The first token -/

theorem Lexeme.Step.type {x : Lexeme} (h : x.Step a b) : a.token.type = x.type := by
  cases x <;> exact h.1

theorem Phrase.Spans.first {c : Category} {p : Phrase c} (h : p.Spans a b) {x : Lexeme}
    (hp : p.parts = .inl x :: parts) : a.token.type = x.type := by
  obtain ⟨hparts, -⟩ := spans_iff.mp h
  rw [hp, spansParts_token] at hparts
  obtain ⟨m, hx, -⟩ := hparts
  exact hx.type

namespace Phrase

/-- The type of the token that an expression starts with. -/
def head : {c : Category} → Phrase c → JSTokenType
  | _, bracket e _ | _, dot e _ | _, call e _ | _, postOp _ e | _, binary e _ _
  | _, cond e _ _ | _, assign e _ _ | _, comma e _ _ => e.head
  | _, p =>
      match p.parts with
      | .inl x :: _ => x.type
      | _ => .errorTok

theorem Spans.sub_first {c : Category} {p : Phrase c} {e : Phrase .expr} (h : p.Spans a b)
    (hp : p.parts = sub e :: parts) : ∃ m, e.Spans a m := by
  obtain ⟨hparts, -⟩ := spans_iff.mp h
  rw [hp, spansParts_sub] at hparts
  obtain ⟨m, he, -⟩ := hparts
  exact ⟨m, he⟩

/-- An expression stands where its first token does. -/
theorem Spans.head : ∀ {e : Phrase .expr} {a b : Stream}, e.Spans a b → a.token.type = e.head
  | bracket e _, _, _, h | dot e _, _, _, h | call e _, _, _, h | postOp _ e, _, _, h
  | binary e _ _, _, _, h | cond e _ _, _, _, h | assign e _ _, _, _, h
  | comma e _ _, _, _, h => by
      obtain ⟨m, he⟩ := h.sub_first rfl
      exact he.head
  | this, _, _, h | resolve _, _, _, h | string _, _, _, h | number _, _, _, h | null, _, _, h
  | boolean _, _, _, h | regExp _ _ _, _, _, h | paren _, _, _, h | emptyArray _, _, _, h
  | array _ _ _, _, _, h | emptyObject, _, _, h | object _ _, _, _, h | function _ _ _, _, _, h
  | newArgs _ _, _, _, h | newNoArgs _, _, _, h | unary _ _, _, _, h => h.first rfl

end Phrase

/-- The tokens that expressions start with. -/
def startsExpression : JSTokenType → Bool
  | .thisToken | .ident | .string | .number | .nullToken | .trueToken | .falseToken | .divide
  | .divEqual | .openParen | .openBracket | .openBrace | .function | .new => true
  | t => t.isUnaryOp

end Parts

end Spans

namespace Phrase

theorem head_starts : ∀ e : Phrase .expr, startsExpression e.head = true
  | bracket e _ | dot e _ | call e _ | postOp _ e | binary e _ _ | cond e _ _ | assign e _ _
  | comma e _ _ => head_starts e
  | this | resolve _ | string _ | number _ | null | paren _ | emptyArray _ | array _ _ _
  | emptyObject | object _ _ | function _ _ _ | newArgs _ _ | newNoArgs _ => rfl
  | boolean value => by cases value <;> rfl
  | regExp patternPrefix _ _ => by cases patternPrefix <;> rfl
  | unary op _ => by
      have hstarts : ∀ {t : JSTokenType}, t.isUnaryOp = true → startsExpression t = true := by
        intro t h
        revert h
        cases t <;> decide
      exact hstarts op.2

/-- What binds more tightly than a prefix operator does not start with one. -/
theorem head_not_unary : ∀ {e : Phrase .expr}, e.Legal true → 14 ≤ e.rank →
    e.head.isUnaryOp = false
  | bracket e _, h, _ | call e _, h, _ => by
      have hrank := h.2.1
      exact head_not_unary (e := e) h.1 (by omega)
  | dot e _, h, _ | postOp _ e, h, _ => by
      have hrank := h.2
      exact head_not_unary (e := e) h.1 (by omega)
  | this, _, _ | resolve _, _, _ | string _, _, _ | number _, _, _ | null, _, _ | paren _, _, _
  | emptyArray _, _, _ | array _ _ _, _, _ | emptyObject, _, _ | object _ _, _, _
  | function _ _ _, _, _ | newArgs _ _, _, _ | newNoArgs _, _, _ => by
      simp only [head, parts, Lexeme.type, List.cons_append]
      decide
  | boolean value, _, _ => by cases value <;> decide
  | regExp patternPrefix _ _, _, _ => by
      cases patternPrefix <;>
        · simp only [head, parts, Lexeme.type, Option.isSome]
          decide
  | binary _ op _, _, h => by
      have := op.precedence_range
      simp only [rank] at h
      omega
  | unary _ _, _, h | cond _ _ _, _, h | assign _ _ _, _, h | comma _ _ _, _, h => by
      simp [rank] at h

end Phrase

end HammerJS
