import HammerJS.Spelling.Texts
import HammerJS.Syntax.Legal
import HammerJS.Syntax.Values

/-!
# Printing expressions

Which expressions made of operators can be printed again from their values.

* `Json.print` — the tokens of a value, with every operator in parentheses.
* `Lexeme.print` — the token that a lexeme is.
* `Phrase.Misspelled` — the operators whose values have another spelling, or no operand.
* `Phrase.print_eq_iff` — the expressions whose values print as they are spelled.
-/

namespace HammerJS

open Lexer

/-! ## Printing -/

/-- A token of an expression that is printed. -/
inductive Printed where
  | openParen
  | closeParen
  | word (text : Identifier)
  deriving DecidableEq, Repr

/-- The text of a token that is no parenthesis. -/
def Printed.text : Printed → Option Identifier
  | .word text => some text
  | _ => none

/-- What is left of a token sequence when its parentheses are erased. -/
def eraseParens (ts : List Printed) : List Identifier := ts.filterMap Printed.text

/-- Parentheses around some tokens. -/
def parens (ts : List Printed) : List Printed := .openParen :: ts ++ [.closeParen]

/-- An operator, as the value spells it. -/
def printOperator (op : String) : Printed := .word (identifierOfChars op.toList)

/-- The tokens of a program that is an expression, printed with full parentheses. -/
def Json.print : Json → List Printed
  | .object .program [(.body, .array [statement])] => statement.print
  | .object .expressionStatement [(.expression, e)] => e.print
  | .object .identifier [(.name, .string name)] => [.word name]
  | .object .unaryExpression [(.operator, .text op), (.argument, e)] =>
      parens (printOperator op :: e.print)
  | .object .updateExpression
      [(.operator, .text op), (.argument, e), (.isPrefix, .boolean isPrefix)] =>
      parens (if isPrefix then printOperator op :: e.print else e.print ++ [printOperator op])
  | .object .binaryExpression [(.operator, .text op), (.left, left), (.right, right)] =>
      parens (left.print ++ printOperator op :: right.print)
  | .object .assignmentExpression [(.operator, .text op), (.left, left), (.right, right)] =>
      parens (left.print ++ printOperator op :: right.print)
  | .object .conditionalExpression
      [(.test, test), (.consequent, left), (.alternate, right)] =>
      parens (test.print ++ printOperator "?" :: left.print ++ printOperator ":" :: right.print)
  | _ => []

section

-- only to have the equations of the definition made here, once for all that rewrite with them
attribute [local simp] Json.print

end

/-- The characters of the tokens of a type. -/
def tokenSpelling (t : JSTokenType) : Identifier :=
  identifierOfChars ((((punctuators ++ keywords).find? fun k => k.2 == t).map Prod.fst).getD [])

/-- The token that a lexeme is. -/
def Lexeme.print : Lexeme → Printed
  | .mark .openParen => .openParen
  | .mark .closeParen => .closeParen
  | .mark t => .word (tokenSpelling t)
  | .ident name => .word name
  | _ => .word []

/-- What is left of some lexemes when their parentheses are erased. -/
def sourceTokens (ls : List Lexeme) : List Identifier := eraseParens (ls.map Lexeme.print)

@[simp] theorem eraseParens_nil : eraseParens [] = [] := rfl

@[simp] theorem eraseParens_word (text : Identifier) (ts : List Printed) :
    eraseParens (.word text :: ts) = text :: eraseParens ts := rfl

@[simp] theorem eraseParens_append (ts ts' : List Printed) :
    eraseParens (ts ++ ts') = eraseParens ts ++ eraseParens ts' := List.filterMap_append

@[simp] theorem eraseParens_open (ts : List Printed) :
    eraseParens (.openParen :: ts) = eraseParens ts := rfl

@[simp] theorem eraseParens_close (ts : List Printed) :
    eraseParens (.closeParen :: ts) = eraseParens ts := rfl

@[simp] theorem eraseParens_parens (ts : List Printed) :
    eraseParens (parens ts) = eraseParens ts := by
  simp [parens]

@[simp] theorem sourceTokens_nil : sourceTokens [] = [] := rfl

@[simp] theorem sourceTokens_append (ls ls' : List Lexeme) :
    sourceTokens (ls ++ ls') = sourceTokens ls ++ sourceTokens ls' := by simp [sourceTokens]

@[simp] theorem sourceTokens_ident (name : Identifier) (ls : List Lexeme) :
    sourceTokens (.ident name :: ls) = name :: sourceTokens ls := rfl

/-- A token that is no parenthesis. -/
theorem sourceTokens_mark {t : JSTokenType} (ht : t ≠ .openParen ∧ t ≠ .closeParen)
    (ls : List Lexeme) : sourceTokens (.mark t :: ls) = tokenSpelling t :: sourceTokens ls := by
  have hprint : (Lexeme.mark t).print = .word (tokenSpelling t) := by
    unfold Lexeme.print
    split <;> simp_all
  rw [sourceTokens, List.map_cons, hprint, eraseParens_word]
  rfl

@[simp] theorem sourceTokens_openParen (ls : List Lexeme) :
    sourceTokens (.mark .openParen :: ls) = sourceTokens ls := rfl

@[simp] theorem sourceTokens_closeParen (ls : List Lexeme) :
    sourceTokens (.mark .closeParen :: ls) = sourceTokens ls := rfl

/-! ## Operators -/

/-- How the value spells an operator. -/
def operatorSpelling (op : OperatorType) : Identifier :=
  identifierOfChars ((operatorAsText op).getD "").toList

@[simp] theorem print_identifier (name : Identifier) :
    (identifierObject name).print = [.word name] := by
  simp [identifierObject, Json.print]

@[simp] theorem print_binary (op : OperatorType) (left right : Json) :
    eraseParens (binaryValue .binaryExpression op left right).print =
      eraseParens left.print ++ operatorSpelling op :: eraseParens right.print := by
  simp [binaryValue, operatorText, Json.print, printOperator, operatorSpelling]

@[simp] theorem print_assignment (op : OperatorType) (left right : Json) :
    eraseParens (binaryValue .assignmentExpression op left right).print =
      eraseParens left.print ++ operatorSpelling op :: eraseParens right.print := by
  simp [binaryValue, operatorText, Json.print, printOperator, operatorSpelling]

@[simp] theorem print_postfix (op : OperatorType) (j : Json) :
    eraseParens (updateValue op false j).print =
      eraseParens j.print ++ [operatorSpelling op] := by
  simp [updateValue, operatorText, Json.print, printOperator, operatorSpelling]

/-- The operator that a prefix operator is converted to; that of `void` is spelled out. -/
def prefixSpelling (t : JSTokenType) : Identifier :=
  if t = .tilde then operatorSpelling .bitwiseNotOperator else tokenSpelling t

/-- What is printed for a prefix operator. -/
theorem print_prefix (op : UnaryToken) (j : Json) : eraseParens (prefixValue op.1 j).print =
    prefixSpelling op.1 :: if op.1 = .voidToken then [] else eraseParens j.print := by
  obtain ⟨t, ht⟩ := op
  cases t <;> first | exact absurd ht (by decide) | skip
  all_goals
    simp [prefixValue, unaryValue, updateValue, operatorText, Json.print, printOperator]
    decide

theorem tilde_spelling : prefixSpelling .tilde ≠ tokenSpelling .tilde := by decide

/-- The binary operators that are spelled as their tokens are. -/
theorem binary_spelling (op : BinaryToken) : operatorSpelling op.operator = tokenSpelling op.1 ↔
    op.1 ≠ .le ∧ op.1 ≠ .ge ∧ op.1 ≠ .instanceof := by
  obtain ⟨t, ht⟩ := op
  revert ht
  cases t <;> decide

/-- The assignment operators that are. -/
theorem assignment_spelling (op : AssignmentToken) :
    operatorSpelling (convertOperator op.operator) = tokenSpelling op.1 ↔
      op.1 ≠ .lshiftEqual ∧ op.1 ≠ .rshiftEqual := by
  obtain ⟨t, ht⟩ := op
  revert ht
  cases t <;> decide

theorem postfix_spelling (increment : Bool) :
    operatorSpelling (if increment then .plusPlusOperator else .minusMinusOperator) =
      tokenSpelling (if increment then .plusPlus else .minusMinus) := by
  cases increment <;> decide

/-! ## Expressions -/

/-- Where the parts are no longer than those they are compared with, all of them are equal. -/
theorem append_cons_eq_iff {α : Type} {l l' r r' : List α} {x x' : α}
    (hl : l'.length ≤ l.length) (hr : r'.length ≤ r.length) :
    l' ++ x' :: r' = l ++ x :: r ↔ l' = l ∧ x' = x ∧ r' = r := by
  constructor
  · intro h
    have hlen := congrArg List.length h
    simp only [List.length_append, List.length_cons] at hlen
    obtain ⟨hleft, hright⟩ := List.append_inj h (by omega)
    obtain ⟨hx, hright⟩ := List.cons.inj hright
    exact ⟨hleft, hx, hright⟩
  · rintro ⟨rfl, rfl, rfl⟩
    rfl

namespace Phrase

/-- The phrase is an expression of identifiers, operators and parentheses. -/
def OperatorsOnly : {c : Category} → Phrase c → Prop
  | _, resolve _ => True
  | _, paren e | _, unary _ e | _, postOp _ e => e.OperatorsOnly
  | _, binary left _ right | _, assign left _ right => left.OperatorsOnly ∧ right.OperatorsOnly
  | _, cond test left right =>
      test.OperatorsOnly ∧ left.OperatorsOnly ∧ right.OperatorsOnly
  | _, _ => False

/-- The operator of the phrase has another spelling in its value, or its operand is lost. -/
def Misspelled : {c : Category} → Phrase c → Prop
  | _, unary op _ => op.1 = .tilde ∨ op.1 = .voidToken
  | _, binary _ op _ => op.1 = .le ∨ op.1 = .ge ∨ op.1 = .instanceof
  | _, assign _ op _ => op.1 = .lshiftEqual ∨ op.1 = .rshiftEqual
  | _, _ => False

/-- An operator is no parenthesis. -/
theorem operator_ne_paren {t : JSTokenType} (h : t.isUnaryOp = true ∨ t.isBinaryOperator true ≠ 0 ∨
    (assignmentOperator t).isSome = true) : t ≠ .openParen ∧ t ≠ .closeParen := by
  constructor <;> rintro rfl <;> revert h <;> decide

section Spelled

variable (e left right test : Phrase .expr)

/-- The tokens that an expression is spelled with. -/
def spelled (e : Phrase .expr) : List Identifier := sourceTokens e.lexemes

theorem spelled_paren : (paren e).spelled = e.spelled := by
  simp [spelled, lexemes]

theorem spelled_unary (op : UnaryToken) :
    (unary op e).spelled = tokenSpelling op.1 :: e.spelled :=
  sourceTokens_mark (operator_ne_paren (Or.inl op.2)) _

theorem spelled_binary (op : BinaryToken) :
    (binary left op right).spelled = left.spelled ++ tokenSpelling op.1 :: right.spelled := by
  simp [spelled, lexemes, sourceTokens_mark (operator_ne_paren (Or.inr (Or.inl op.2)))]

theorem spelled_assign (op : AssignmentToken) :
    (assign left op right).spelled = left.spelled ++ tokenSpelling op.1 :: right.spelled := by
  simp [spelled, lexemes, sourceTokens_mark (operator_ne_paren (Or.inr (Or.inr op.2)))]

theorem spelled_postOp (increment : Bool) : (postOp increment e).spelled =
    e.spelled ++ [tokenSpelling (if increment then .plusPlus else .minusMinus)] := by
  cases increment <;> simp [spelled, lexemes, sourceTokens_mark]

theorem spelled_cond : (cond test left right).spelled =
    test.spelled ++ tokenSpelling .question ::
      (left.spelled ++ tokenSpelling .colon :: right.spelled) := by
  simp [spelled, lexemes, sourceTokens_mark]

/-- An expression has a token that is no parenthesis. -/
theorem spelled_ne_nil : ∀ {e : Phrase .expr}, e.OperatorsOnly → e.spelled ≠ []
  | resolve name, _ => by simp [spelled, lexemes]
  | paren e, h => by
      rw [spelled_paren]
      exact spelled_ne_nil (e := e) h
  | unary op e, _ => by simp [spelled_unary]
  | postOp increment e, _ => by simp [spelled_postOp]
  | binary left op right, _ => by simp [spelled_binary]
  | assign left op right, _ => by simp [spelled_assign]
  | cond test left right, _ => by simp [spelled_cond]

end Spelled

section Print

variable [Platform] (e left right test : Phrase .expr)

/-- The tokens that are printed for the value of an expression. -/
def printed (e : Phrase .expr) : List Identifier := eraseParens (e.value : Json).print

theorem printed_paren : (paren e).printed = e.printed := rfl

theorem printed_unary (op : UnaryToken) : (unary op e).printed =
    prefixSpelling op.1 :: if op.1 = .voidToken then [] else e.printed :=
  print_prefix op _

theorem printed_binary (op : BinaryToken) : (binary left op right).printed =
    left.printed ++ operatorSpelling op.operator :: right.printed :=
  print_binary op.operator _ _

theorem printed_assign (op : AssignmentToken) : (assign left op right).printed =
    left.printed ++ operatorSpelling (convertOperator op.operator) :: right.printed :=
  print_assignment (convertOperator op.operator) _ _

theorem printed_postOp (increment : Bool) : (postOp increment e).printed =
    e.printed ++ [tokenSpelling (if increment then .plusPlus else .minusMinus)] := by
  rw [← postfix_spelling]
  exact print_postfix _ _

theorem printed_cond : (cond test left right).printed =
    test.printed ++ tokenSpelling .question ::
      (left.printed ++ tokenSpelling .colon :: right.printed) := by
  have hquestion : printOperator "?" = .word (tokenSpelling .question) := by decide
  have hcolon : printOperator ":" = .word (tokenSpelling .colon) := by decide
  simp [printed, value, Json.print, hquestion, hcolon]

/-- No token is printed more than once. -/
theorem printed_length : ∀ {e : Phrase .expr}, e.OperatorsOnly →
    e.printed.length ≤ e.spelled.length
  | resolve name, _ => by simp [printed, spelled, value, lexemes]
  | paren e, h => by
      rw [printed_paren, spelled_paren]
      exact printed_length (e := e) h
  | unary op e, h => by
      have hle := printed_length (e := e) h
      rw [printed_unary, spelled_unary, List.length_cons, List.length_cons]
      split
      · simp
      · exact Nat.succ_le_succ hle
  | postOp increment e, h => by
      have hle := printed_length (e := e) h
      rw [printed_postOp, spelled_postOp, List.length_append, List.length_append]
      exact Nat.add_le_add_right hle _
  | binary left op right, h => by
      have hleft := printed_length (e := left) h.1
      have hright := printed_length (e := right) h.2
      simp only [printed_binary, spelled_binary, List.length_append, List.length_cons]
      omega
  | assign left op right, h => by
      have hleft := printed_length (e := left) h.1
      have hright := printed_length (e := right) h.2
      simp only [printed_assign, spelled_assign, List.length_append, List.length_cons]
      omega
  | cond test left right, h => by
      have htest := printed_length (e := test) h.1
      have hleft := printed_length (e := left) h.2.1
      have hright := printed_length (e := right) h.2.2
      simp only [printed_cond, spelled_cond, List.length_append, List.length_cons]
      omega

/-- **The value of an expression prints as the expression is spelled** exactly where no operator
is misspelled. -/
theorem print_eq_iff : ∀ {e : Phrase .expr}, e.OperatorsOnly →
    (e.printed = e.spelled ↔ e.Everywhere fun p => ¬ p.Misspelled)
  | resolve name, _ => by
      rw [everywhere_iff]
      simp [printed, spelled, value, lexemes, Misspelled, children]
  | paren e, h => by
      rw [everywhere_iff, printed_paren, spelled_paren, print_eq_iff (e := e) h]
      simp [Misspelled, children]
  | unary op e, h => by
      have hown : (unary op e).Misspelled ↔ op.1 = .tilde ∨ op.1 = .voidToken := Iff.rfl
      rw [everywhere_iff, printed_unary, spelled_unary, hown, children,
        List.forall_mem_singleton, ← print_eq_iff (e := e) h]
      by_cases hvoid : op.1 = .voidToken
      · have hne : [] ≠ e.spelled := (spelled_ne_nil (e := e) h).symm
        simp [hvoid, hne]
      · by_cases htilde : op.1 = .tilde
        · simp [htilde, tilde_spelling]
        · simp [hvoid, htilde, prefixSpelling]
  | postOp increment e, h => by
      rw [everywhere_iff, printed_postOp, spelled_postOp, List.append_left_inj,
        print_eq_iff (e := e) h]
      simp [Misspelled, children]
  | binary left op right, h => by
      rw [everywhere_iff, printed_binary, spelled_binary,
        append_cons_eq_iff (printed_length h.1) (printed_length h.2), binary_spelling,
        print_eq_iff (e := left) h.1, print_eq_iff (e := right) h.2]
      simp [Misspelled, children]
      tauto
  | assign left op right, h => by
      rw [everywhere_iff, printed_assign, spelled_assign,
        append_cons_eq_iff (printed_length h.1) (printed_length h.2), assignment_spelling,
        print_eq_iff (e := left) h.1, print_eq_iff (e := right) h.2]
      simp [Misspelled, children]
      tauto
  | cond test left right, h => by
      have hle : (left.printed ++ tokenSpelling .colon :: right.printed).length ≤
          (left.spelled ++ tokenSpelling .colon :: right.spelled).length := by
        have hleft := printed_length (e := left) h.2.1
        have hright := printed_length (e := right) h.2.2
        simp only [List.length_append, List.length_cons]
        omega
      rw [everywhere_iff, printed_cond, spelled_cond,
        append_cons_eq_iff (printed_length h.1) hle,
        append_cons_eq_iff (printed_length h.2.1) (printed_length h.2.2),
        print_eq_iff (e := test) h.1, print_eq_iff (e := left) h.2.1,
        print_eq_iff (e := right) h.2.2]
      simp [Misspelled, children]

end Print

end Phrase

end HammerJS
