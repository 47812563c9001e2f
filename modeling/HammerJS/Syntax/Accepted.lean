import HammerJS.Syntax.DeclarationsAccepted
import HammerJS.Syntax.ExpressionsAccepted

/-!
# The productions accept the grammar

What the production lemmas add up to, by induction on the phrase.

* `Phrase.Taken` — the productions of its category read the phrase.
* `Phrase.taken` — they read every phrase.
* `createSyntaxTree_answers` — the statements of a source are read as one program.
-/

namespace HammerJS

open Procs Machine Lexer Parse

variable [Platform]

namespace Phrase

/-! ## Expressions -/

/-- Each of the productions for expressions reads the expression, if its rank is high enough. -/
structure TakenAtRanks (e : Phrase .expr) : Prop where
  member : e.TakenAsMember
  behindNew : e.TakenBehindNew
  unary : e.TakenAsUnary
  binary : e.TakenAsBinary
  conditional : e.TakenAsConditional
  chain : e.TakenAsChain
  expression : e.TakenAsExpression

theorem TakenAtRanks.assignment {e : Phrase .expr} (h : e.TakenAtRanks) : e.TakenAsAssignment :=
  TakenAsChain.assignment h.chain

section Ranks

variable {e : Phrase .expr}

/-- An expression that is not legal is not read. -/
theorem takenAtRanks_of_not_legal (h : ∀ allowsIn, ¬ e.Legal allowsIn) : e.TakenAtRanks where
  member := fun _ _ _ _ hlegal => absurd hlegal (h _)
  behindNew := fun _ _ _ _ _ _ _ hlegal => absurd hlegal (h _)
  unary := fun _ _ _ _ hlegal => absurd hlegal (h _)
  binary := fun _ _ _ hlegal => absurd hlegal (h _)
  conditional := fun _ _ _ hlegal => absurd hlegal (h _)
  chain := fun _ _ _ hlegal => absurd hlegal (h _)
  expression := fun _ _ _ hlegal => absurd hlegal (h _)

theorem takenAsMember_of_lt (h : e.rank < 16) : e.TakenAsMember :=
  fun _ _ _ _ _ hle => absurd hle (by omega)

theorem takenBehindNew_of_lt (h : e.rank < 15) : e.TakenBehindNew :=
  fun _ _ _ _ _ _ _ _ hle => absurd hle.2.1.1 (by omega)

theorem takenAsUnary_of_lt (h : e.rank < 13) : e.TakenAsUnary :=
  fun _ _ _ _ _ hle => absurd hle (by omega)

theorem takenAsBinary_of_lt (h : e.rank < 3) : e.TakenAsBinary :=
  fun _ _ _ _ hle => absurd hle (by omega)

theorem takenAsConditional_of_lt (h : e.rank < 2) : e.TakenAsConditional := by
  rintro a b s - - - - (⟨hle, -⟩ | ⟨hle, -⟩)
  · omega
  · omega

theorem takenAsChain_of_lt (h : e.rank < 1) : e.TakenAsChain :=
  fun _ _ _ _ hle => absurd hle (by omega)

theorem TakenAsExpression.taken (hrank : e.rank = 0) (h : e.TakenAsExpression) :
    e.TakenAtRanks where
  member := takenAsMember_of_lt (by omega)
  behindNew := takenBehindNew_of_lt (by omega)
  unary := takenAsUnary_of_lt (by omega)
  binary := takenAsBinary_of_lt (by omega)
  conditional := takenAsConditional_of_lt (by omega)
  chain := takenAsChain_of_lt (by omega)
  expression := h

theorem TakenAsChain.taken (hrank : e.rank = 1) (h : e.TakenAsChain) : e.TakenAtRanks where
  member := takenAsMember_of_lt (by omega)
  behindNew := takenBehindNew_of_lt (by omega)
  unary := takenAsUnary_of_lt (by omega)
  binary := takenAsBinary_of_lt (by omega)
  conditional := takenAsConditional_of_lt (by omega)
  chain := h
  expression := TakenAsAssignment.expression (by omega) (TakenAsChain.assignment h)

theorem TakenAsConditional.taken (hrank : e.rank = 2) (h : e.TakenAsConditional) :
    e.TakenAtRanks := by
  have hchain : e.TakenAsChain := TakenAsConditional.chain (by omega) h
  exact {
    member := takenAsMember_of_lt (by omega)
    behindNew := takenBehindNew_of_lt (by omega)
    unary := takenAsUnary_of_lt (by omega)
    binary := takenAsBinary_of_lt (by omega)
    conditional := h
    chain := hchain
    expression := TakenAsAssignment.expression (by omega) (TakenAsChain.assignment hchain) }

theorem TakenAsBinary.taken (hge : 3 ≤ e.rank) (hlt : e.rank < 13) (h : e.TakenAsBinary) :
    e.TakenAtRanks := by
  have hconditional : e.TakenAsConditional := TakenAsBinary.conditional hge h
  have hchain : e.TakenAsChain := TakenAsConditional.chain (by omega) hconditional
  exact {
    member := takenAsMember_of_lt (by omega)
    behindNew := takenBehindNew_of_lt (by omega)
    unary := takenAsUnary_of_lt (by omega)
    binary := h
    conditional := hconditional
    chain := hchain
    expression := TakenAsAssignment.expression (by omega) (TakenAsChain.assignment hchain) }

theorem TakenAsUnary.taken (hge : 13 ≤ e.rank) (hmember : e.TakenAsMember)
    (hbehindNew : e.TakenBehindNew) (h : e.TakenAsUnary) : e.TakenAtRanks := by
  have hbinary : e.TakenAsBinary := takenAsBinary_operand hge h
  have hconditional : e.TakenAsConditional := TakenAsBinary.conditional (by omega) hbinary
  have hchain : e.TakenAsChain := TakenAsConditional.chain (by omega) hconditional
  exact {
    member := hmember
    behindNew := hbehindNew
    unary := h
    binary := hbinary
    conditional := hconditional
    chain := hchain
    expression := TakenAsAssignment.expression (by omega) (TakenAsChain.assignment hchain) }

theorem TakenBehindNew.taken (hge : 15 ≤ e.rank) (hmember : e.TakenAsMember)
    (h : e.TakenBehindNew) : e.TakenAtRanks :=
  TakenAsUnary.taken (by omega) hmember h (takenAsUnary_member hge h)

theorem TakenAsMember.taken (hge : 16 ≤ e.rank) (h : e.TakenAsMember) : e.TakenAtRanks :=
  TakenBehindNew.taken (by omega) h (TakenAsMember.behindNew h hge)

/-- What stands at the start of a member expression. -/
theorem TakenAsBase.taken (hrank : e.rank = 17) (h : e.TakenAsBase) : e.TakenAtRanks :=
  TakenAsMember.taken (by omega) (takenAsMember_base h.1 h.2)

/-- A property of an expression is one, too, if what it is a property of is legal. -/
theorem TakenAsMember.taken_of_legal (h : e.TakenAsMember)
    (hrank : ∀ allowsIn, e.Legal allowsIn → 16 ≤ e.rank) : e.TakenAtRanks := by
  by_cases hge : 16 ≤ e.rank
  · exact TakenAsMember.taken hge h
  · exact takenAtRanks_of_not_legal fun allowsIn hlegal => hge (hrank allowsIn hlegal)

end Ranks

/-! ## All phrases -/

/-- The productions for the category of the phrase read it. -/
def Taken : {c : Category} → Phrase c → Prop
  | .expr, e => e.TakenAtRanks
  | .exprs, rest => rest.TakenAsExprs
  | .args, args => args.TakenAsArguments
  | .elements, rest => rest.TakenAsElements
  | .prop, p => p.TakenAsProperty
  | .props, rest => rest.TakenAsProperties
  | .opt, o => o.TakenAsOpt
  | .init, init => init.TakenAsInit
  | .stmt, p => p.TakenAsStatement ∧ p.TakenBehindElse
  | .stmts, body => body.TakenAsStatements
  | .clauses, c => c.TakenAsClauses
  | .default, d => d.TakenAsDefault
  | .decls, rest => rest.TakenAsDecls
  | .handler, h => h.TakenAsHandler
  | .finalizer, f => f.TakenAsFinalizer

/-- A statement that is no `if` stands behind an `else` as it does elsewhere. -/
theorem taken_other {p : Phrase .stmt} (hthen : ∀ test yes, p ≠ ifThen test yes)
    (helse : ∀ test yes no, p ≠ ifElse test yes no) (h : p.TakenAsStatement) : p.Taken :=
  ⟨h, takenBehindElse_other h hthen helse⟩

/-- **The productions read every phrase**, by induction on it. -/
theorem taken {c : Category} (p : Phrase c) : p.Taken := by
  induction p with
  | this => exact takenAsBase_this.taken rfl
  | resolve name => exact (takenAsBase_resolve name).taken rfl
  | string value => exact (takenAsBase_string value).taken rfl
  | number value => exact (takenAsBase_number value).taken rfl
  | null => exact takenAsBase_null.taken rfl
  | boolean value => exact (takenAsBase_boolean value).taken rfl
  | regExp patternPrefix pattern flags =>
      exact (takenAsBase_regExp patternPrefix pattern flags).taken rfl
  | paren e ih => exact (takenAsBase_paren ih.expression).taken rfl
  | emptyArray elisions => exact (takenAsBase_emptyArray elisions).taken rfl
  | array elisions first rest ihfirst ihrest =>
      exact (takenAsBase_array ihfirst.assignment ihrest).taken rfl
  | emptyObject => exact takenAsBase_emptyObject.taken rfl
  | object first rest ihfirst ihrest => exact (takenAsBase_object ihfirst ihrest).taken rfl
  | function name params body ih => exact (takenAsBase_function ih).taken rfl
  | bracket base property ihbase ihproperty =>
      exact TakenAsMember.taken_of_legal (takenAsMember_bracket ihbase.member ihproperty.expression)
        fun _ hlegal => hlegal.2.1
  | dot base property ih =>
      exact TakenAsMember.taken_of_legal (takenAsMember_dot ih.member) fun _ hlegal => hlegal.2
  | call callee args ihcallee ihargs =>
      exact TakenAsMember.taken (by simp [rank]) (takenAsMember_call ihcallee.member ihargs)
  | newArgs callee args ihcallee ihargs =>
      exact TakenAsMember.taken (by simp [rank]) (takenAsMember_new ihcallee.member ihargs)
  | newNoArgs callee ih =>
      exact TakenBehindNew.taken (by simp [rank]) (takenAsMember_of_lt (by simp [rank]))
        (takenBehindNew_new ih.behindNew)
  | unary op e ih =>
      exact TakenAsUnary.taken (by simp [rank]) (takenAsMember_of_lt (by simp [rank]))
        (takenBehindNew_of_lt (by simp [rank])) (takenAsUnary_unary ih.unary)
  | postOp increment e ih =>
      exact TakenAsUnary.taken (by simp [rank]) (takenAsMember_of_lt (by simp [rank]))
        (takenBehindNew_of_lt (by simp [rank])) (takenAsUnary_postOp ih.behindNew)
  | binary left op right ihleft ihright =>
      have hrange := op.precedence_range
      exact TakenAsBinary.taken (by simp only [rank]; omega) (by simp only [rank]; omega)
        (takenAsBinary_binary ihleft.binary ihright.binary)
  | cond test left right ihtest ihleft ihright =>
      exact TakenAsConditional.taken rfl
        (takenAsConditional_cond ihtest.binary ihleft.assignment ihright.assignment)
  | assign left op right ihleft ihright =>
      exact TakenAsChain.taken rfl (takenAsChain_assign ihleft.conditional ihright.chain)
  | comma first second rest ihfirst ihsecond ihrest =>
      exact TakenAsExpression.taken rfl
        (takenAsExpression_comma ihfirst.assignment ihsecond.assignment ihrest)
  | noExprs => exact takenAsExprs_none
  | moreExprs e rest ihe ihrest => exact takenAsExprs_more ihe.assignment ihrest
  | noArgs => exact takenAsArguments_none
  | arguments first rest ihfirst ihrest => exact takenAsArguments_some ihfirst.assignment ihrest
  | noElements => exact takenAsElements_none
  | trailingElisions elisions => exact takenAsElements_elisions elisions
  | moreElements elisions e rest ihe ihrest => exact takenAsElements_more ihe.assignment ihrest
  | prop t name value ih => exact takenAsProperty_named ih.assignment
  | numericProp name value ih => exact takenAsProperty_numeric ih.assignment
  | noProps => exact takenAsProperties_none
  | trailingComma => exact takenAsProperties_comma
  | moreProps p rest ihp ihrest => exact takenAsProperties_more ihp ihrest
  | absent => exact fun e h => nomatch h
  | present e ih =>
      rintro e' ⟨⟩
      exact ih.expression
  | noInit => exact fun e h => nomatch h
  | initializer e ih =>
      rintro e' ⟨⟩
      exact ih.assignment
  | block body ih => exact taken_other nofun nofun (takenAsStatement_block ih)
  | varDecl name init rest semi ihinit ihrest =>
      exact taken_other nofun nofun (takenAsStatement_varDecl ihinit ihrest)
  | functionDecl name params body ih => exact taken_other nofun nofun (takenAsStatement_function ih)
  | empty => exact taken_other nofun nofun takenAsStatement_empty
  | ifThen test yes ihtest ihyes =>
      exact ⟨takenAsStatement_ifThen ihtest.expression ihyes.1,
        takenBehindElse_ifThen ihtest.expression ihyes.1⟩
  | ifElse test yes no ihtest ihyes ihno =>
      exact ⟨takenAsStatement_ifElse ihtest.expression ihyes.1 ihno.2,
        takenBehindElse_ifElse ihtest.expression ihyes.1 ihno.2⟩
  | doWhile body test semi ihbody ihtest =>
      exact taken_other nofun nofun (takenAsStatement_doWhile ihbody.1 ihtest.expression)
  | «while» test body ihtest ihbody =>
      exact taken_other nofun nofun (takenAsStatement_while ihtest.expression ihbody.1)
  | «for» init test update body ihinit ihtest ihupdate ihbody =>
      exact taken_other nofun nofun (takenAsStatement_for ihinit ihtest ihupdate ihbody.1)
  | forVar name init rest t skipped test update body ihinit ihrest ihtest ihupdate ihbody =>
      exact taken_other nofun nofun (takenAsStatement_forVar ihinit ihrest ihtest ihupdate ihbody.1)
  | forIn left right body ihleft ihright ihbody =>
      exact taken_other nofun nofun
        (takenAsStatement_forIn ihleft.expression ihright.expression ihbody.1)
  | forInVar name init right body ihinit ihright ihbody =>
      exact taken_other nofun nofun (takenAsStatement_forInVar ihinit ihright.expression ihbody.1)
  | «continue» label semi => exact taken_other nofun nofun takenAsStatement_continue
  | «break» label semi => exact taken_other nofun nofun takenAsStatement_break
  | «return» e semi ih =>
      cases e with
      | absent => exact taken_other nofun nofun takenAsStatement_returnNothing
      | present e => exact taken_other nofun nofun (takenAsStatement_return (ih e rfl))
  | throw e semi ih => exact taken_other nofun nofun (takenAsStatement_throw ih.expression)
  | «with» subject body ihsubject ihbody =>
      exact taken_other nofun nofun (takenAsStatement_with ihsubject.expression ihbody.1)
  | switch discriminant first default second ihdiscriminant ihfirst ihdefault ihsecond =>
      exact taken_other nofun nofun
        (takenAsStatement_switch ihdiscriminant.expression ihfirst ihdefault ihsecond)
  | «try» body handler finalizer ihbody ihhandler ihfinalizer =>
      exact taken_other nofun nofun (takenAsStatement_try ihbody ihhandler ihfinalizer)
  | debugger semi => exact taken_other nofun nofun takenAsStatement_debugger
  | labelled label body ih =>
      have hlabel := (takenAsBase_resolve label).taken rfl
      exact taken_other nofun nofun (takenAsStatement_labelled hlabel.expression ih.1)
  | exprStmt e semi ih => exact taken_other nofun nofun (takenAsStatement_exprStmt ih.expression)
  | noStmts => exact takenAsStatements_none
  | moreStmts first rest ihfirst ihrest => exact takenAsStatements_more ihfirst.1 ihrest
  | noClauses => exact takenAsClauses_none
  | moreClauses test body rest ihtest ihbody ihrest =>
      exact takenAsClauses_more ihtest.expression ihbody ihrest
  | noDefault => exact takenAsDefault_none
  | defaultClause body ih => exact takenAsDefault_some ih
  | noDecls => exact takenAsDecls_none
  | moreDecls name init rest ihinit ihrest => exact takenAsDecls_more ihinit ihrest
  | noHandler => exact takenAsHandler_none
  | «catch» name body ih => exact takenAsHandler_catch ih
  | noFinalizer => exact takenAsFinalizer_none
  | «finally» body ih => exact takenAsFinalizer_finally ih

end Phrase

end HammerJS
