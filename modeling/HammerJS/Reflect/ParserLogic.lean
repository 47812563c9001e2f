import HammerJS.Procs.Logic
import HammerJS.Reflect.Statements

/-!
# Rules for the productions

The weakest preconditions of the commands and macros that productions are written
with, for every contract that gives a run up at `m_error = true` at most.

* `ParserState.Next` — what `next` does to the state.
* `Production.slack` and the rest — the entries of the stacks that a loop over operators
  works on.
* `wp_next`, `wp_parse` and the rest — one rule for each macro.
-/

namespace HammerJS

open Procs Machine Lexer

variable [Platform]

/-- `next(lexType)` takes the parser from `s` to `s'`. -/
def ParserState.Next (lexType : LexType) (s s' : ParserState) : Prop :=
  parserStep (.next lexType) s = .ok ((), s')

theorem ParserState.Next.regs_error {s s' : ParserState} {lexType : LexType}
    (hn : s.Next lexType s') : s'.regs = s.regs ∧ s'.error = s.error := by
  unfold ParserState.Next at hn
  simp only [parserStep] at hn
  cases hlex : lex lexType s.token s.lexer with
  | error e => rw [hlex] at hn; cases hn
  | ok r => rw [hlex] at hn; cases hn; exact ⟨rfl, rfl⟩

/-- The state in which `m_error` has just been set. -/
def ParserState.failed (s : ParserState) : ParserState := { s with error := true }

/-- How far a production may take entries off the stacks that it did not put
there: the loop of `parseBinaryExpression` works on those of its caller. -/
def Production.slack : Production → Nat
  | .binaryLoop operandStackDepth _ => operandStackDepth
  | _ => 0

/-- The entries on the stack of prefix operators that a production works on. -/
def Production.unaryDepth : Production → Nat
  | .unaryTokensLoop tokenStackDepth => tokenStackDepth
  | _ => 0

/-- The entries on the stack of assignments that a production works on. -/
def Production.assignmentDepth : Production → Nat
  | .assignmentLoop _ assignmentStack _ => assignmentStack
  | _ => 0

/-- The commands that move the lexer to a token, or back. -/
def ParserOp.Moves : ParserOp → Prop
  | .next _ | .setOffset _ => True
  | _ => False

/-- A contract for the parser that gives a run up where `m_error` is set, if at
all, and expects something of the states in which the lexer is moved, at most. -/
class Ordinary (C : Contract parserInterface ParserState Crash) : Prop where
  dead_eq : ∀ {o s}, C.dead o s → o = .setError
  forbids_moves : ∀ {o s e}, C.forbids o s e → o.Moves

instance (C : Contract parserInterface ParserState Crash) [Ordinary C]
    (R : Production → ParserState → Prop) : Ordinary (C.calling R) :=
  ⟨fun {o s} h => Ordinary.dead_eq (C := C) (o := o) (s := s) h,
    fun {o s e} h => Ordinary.forbids_moves (C := C) (o := o) (s := s) (e := e) h⟩

namespace Parse

variable {C : Contract parserInterface ParserState Crash} [Ordinary C] {own : Crash → Prop}
  {s : ParserState} {α : Type}

omit [Platform] in
/-- Nothing is expected of the states in which another command is issued. -/
theorem forbids_false {o : ParserOp} (ho : ¬ o.Moves) (e : Crash) : ¬ C.forbids o s e :=
  fun h => ho (Ordinary.forbids_moves h)

/-- A command that is not given up, and does not fault. -/
theorem wp_perform_ok {o : ParserOp} {r : o.Res} {s' : ParserState}
    (ho : o ≠ .setError ∧ ¬ o.Moves)
    (hs : parserStep o s = .ok (r, s')) {Q : Option o.Res → ParserState → Prop} :
    parser.wp C own (Program.perform (S := parserInterface) o) Q s = Q (some r) s' := by
  have hd : ¬ C.dead o s := fun h => ho.1 (Ordinary.dead_eq h)
  have hs' : parser.step o s = .ok (r, s') := hs
  refine Eq.trans (wp_perform (M := parser) (C := C) o) ?_
  simp only [hs', hd, not_false_eq_true, forall_const, forbids_false ho.2, false_imp_iff,
    implies_true, true_and]

theorem wp_next {lexType : LexType} {Q : Option Unit → ParserState → Prop} :
    parser.wp C own (next lexType) Q s =
      ((∀ e, C.forbids (.next lexType) s e → C.excuses (.op (.next lexType)) s e ∨ own e) ∧
        (∀ s', s.Next lexType s' → Q (some ()) s') ∧
          ∀ e, parserStep (.next lexType) s = .error e →
            C.excuses (.op (.next lexType)) s e ∨ own e) := by
  have hd : ¬ C.dead (.next lexType) s := fun h => by cases Ordinary.dead_eq h
  have hs : parser.step (.next lexType) s = parserStep (.next lexType) s := rfl
  refine Eq.trans (wp_perform (M := parser) (C := C) _) ?_
  simp only [hd, not_false_eq_true, forall_const, ParserState.Next, hs]
  cases parserStep (.next lexType) s with
  | ok rs => simp [Prod.ext_iff]
  | error e => simp

theorem wp_scanRegExp {patternPrefix : Option UChar}
    {Q : Option (Option (Identifier × Identifier)) → ParserState → Prop} :
    parser.wp C own (Program.perform (S := parserInterface) (.scanRegExp patternPrefix)) Q s =
      ((∀ r s', parserStep (.scanRegExp patternPrefix) s = .ok (r, s') → Q (some r) s') ∧
        ∀ e, parserStep (.scanRegExp patternPrefix) s = .error e →
          C.excuses (.op (.scanRegExp patternPrefix)) s e ∨ own e) := by
  have hd : ¬ C.dead (.scanRegExp patternPrefix) s := fun h => by cases Ordinary.dead_eq h
  have hs : parser.step (.scanRegExp patternPrefix) s =
    parserStep (.scanRegExp patternPrefix) s := rfl
  refine Eq.trans (wp_perform (M := parser) (C := C) _) ?_
  simp only [hd, not_false_eq_true, forall_const, hs,
    forbids_false (C := C) (s := s) (o := .scanRegExp patternPrefix) id, false_imp_iff,
    implies_true, true_and]
  cases parserStep (.scanRegExp patternPrefix) s with
  | ok rs => simp [Prod.ext_iff]
  | error e => simp

omit [Ordinary C] in
/-- A call, and what follows it. -/
theorem wp_parse {p : Production} {f : Option p.Ret → Parse α}
    {Q : Option α → ParserState → Prop} (hpre : C.pre p s)
    (h : ∀ r s', parser.Returns p s r s' → C.post p s r s' → parser.wp C own (f r) Q s') :
    parser.wp C own (parse p >>= f) Q s := by
  rw [wp_bind]
  exact ⟨hpre, h⟩

theorem wp_tokenType {Q : Option JSTokenType → ParserState → Prop} :
    parser.wp C own tokenType Q s = Q (some s.token.type) s := by
  simp [tokenType, wp_perform_ok ⟨by simp, id⟩ (rfl : parserStep .token s = .ok (s.token, s))]

theorem wp_tokenData {Q : Option JSTokenData → ParserState → Prop} :
    parser.wp C own tokenData Q s = Q (some s.token.data) s := by
  simp [tokenData, wp_perform_ok ⟨by simp, id⟩ (rfl : parserStep .token s = .ok (s.token, s))]

theorem wp_tokenLine {Q : Option Nat → ParserState → Prop} :
    parser.wp C own tokenLine Q s = Q (some s.token.info.line) s := by
  simp [tokenLine, wp_perform_ok ⟨by simp, id⟩ (rfl : parserStep .token s = .ok (s.token, s))]

theorem wp_isToken {t : JSTokenType} {Q : Option Bool → ParserState → Prop} :
    parser.wp C own (isToken t) Q s = Q (some (decide (s.token.type = t))) s := by
  simp [isToken, wp_perform_ok ⟨by simp, id⟩ (rfl : parserStep .token s = .ok (s.token, s))]

theorem wp_hasError {Q : Option Bool → ParserState → Prop} :
    parser.wp C own hasError Q s = Q (some s.error) s :=
  wp_perform_ok ⟨by simp, id⟩ (rfl : parserStep .hasError s = .ok (s.error, s))

theorem wp_tokenCount {Q : Option Nat → ParserState → Prop} :
    parser.wp C own tokenCount Q s = Q (some s.tokenCount) s :=
  wp_perform_ok ⟨by simp, id⟩ (rfl : parserStep .tokenCount s = .ok (s.tokenCount, s))

theorem wp_syntaxAlreadyValidated {Q : Option Bool → ParserState → Prop} :
    parser.wp C own syntaxAlreadyValidated Q s = Q (some s.syntaxAlreadyValidated) s :=
  wp_perform_ok ⟨by simp, id⟩
    (rfl : parserStep .syntaxAlreadyValidated s = .ok (s.syntaxAlreadyValidated, s))

theorem wp_getRegs {Q : Option Registers → ParserState → Prop} :
    parser.wp C own getRegs Q s = Q (some s.regs) s :=
  wp_perform_ok ⟨by simp, id⟩ (rfl : parserStep .getRegs s = .ok (s.regs, s))

theorem wp_modifyRegs {f : Registers → Registers} {Q : Option Unit → ParserState → Prop} :
    parser.wp C own (modifyRegs f) Q s = Q (some ()) { s with regs := f s.regs } := by
  simp [modifyRegs, wp_getRegs, wp_perform_ok ⟨by simp, id⟩
    (rfl : parserStep (.setRegs (f s.regs)) s = .ok ((), { s with regs := f s.regs }))]

theorem wp_setError {Q : Option Unit → ParserState → Prop} :
    parser.wp C own setError Q s = (¬ C.dead .setError s → Q (some ()) s.failed) := by
  refine Eq.trans (wp_perform (M := parser) (C := C) _) ?_
  simp only [forbids_false (C := C) (s := s) (o := .setError) id, false_imp_iff,
    implies_true, true_and]
  rfl

theorem wp_crash (e : Crash) {Q : Option α → ParserState → Prop} :
    parser.wp C own (crash e) Q s = (C.excuses (.op (.crash e)) s e ∨ own e) := by
  have hd : ¬ C.dead (.crash e) s := fun h => by cases Ordinary.dead_eq h
  have hs : parser.step (.crash e) s = .error e := rfl
  simp only [crash, wp, hd, not_false_eq_true, forall_const, hs,
    forbids_false (C := C) (s := s) (o := .crash e) id, false_imp_iff, implies_true,
    true_and]

theorem wp_fail {Q : Option α → ParserState → Prop} :
    parser.wp C own fail Q s = (¬ C.dead .setError s → Q none s.failed) := by
  simp [fail, returnNull, wp_setError]

theorem wp_failIfFalse {c : Bool} {Q : Option Unit → ParserState → Prop} :
    parser.wp C own (failIfFalse c) Q s =
      if c then Q (some ()) s else ¬ C.dead .setError s → Q none s.failed := by
  cases c <;> simp [failIfFalse, wp_fail]

theorem wp_failIfNull {r : Option α} {Q : Option α → ParserState → Prop} :
    parser.wp C own (failIfNull r) Q s =
      match r with
      | some a => Q (some a) s
      | none => ¬ C.dead .setError s → Q none s.failed := by
  cases r <;> simp [failIfNull, wp_fail]

omit [Ordinary C] in
theorem wp_orReturnNull {r : Option α} {Q : Option α → ParserState → Prop} :
    parser.wp C own (orReturnNull r) Q s = Q r s := by
  cases r <;> rfl

end Parse

end HammerJS
