import HammerJS.Procs.Reaches
import HammerJS.Reflect.ParserLogic

/-!
# What the code of productions comes to

The commands and macros of the parser, read off as what they do to the state.  The
equations are for outcomes that return something, where nothing was missing.

* `parserWith` — the parser with other code for its productions.
* `Gives` — code returns a value, where a relation says what the productions return.
* `gives_next`, `gives_parse` and the rest — one equation for each macro.
-/

namespace HammerJS

open Procs Machine Lexer Parse

variable [Platform]

/-- The commands of the parser, with the code `body` for the productions. -/
def parserWith (body : (p : Production) → Parse p.Ret) :
    Machine parserInterface ParserState Crash where
  step := parserStep
  body := body

/-- What productions return. -/
abbrev Productions := Callees parserInterface ParserState

/-- From `s` the code `x` returns `a` and leaves `s'`, where productions return what
`T` says. -/
def Gives (T : Productions) {α : Type} (x : Parse α) (s : ParserState) (a : α)
    (s' : ParserState) : Prop :=
  Reaches parserStep T x s (some a) s'

section Reached

variable {T : Productions} {α β : Type} {s s' : ParserState} {r : Option β}

/-- A command that does not fail. -/
theorem reaches_command {o : ParserOp} {a : o.Res} {t : ParserState} {f : o.Res → Parse β}
    (h : parserStep o s = .ok (a, t)) :
    Reaches parserStep T (Program.perform (S := parserInterface) o >>= f) s r s' ↔
      Reaches parserStep T (f a) t r s' := by
  constructor
  · rintro ⟨a', t', h', hf⟩
    cases h.symm.trans h'
    exact hf
  · exact fun hf => ⟨a, t, h, hf⟩

theorem reaches_next {lexType : LexType} {f : Unit → Parse β} :
    Reaches parserStep T (next lexType >>= f) s r s' ↔
      ∃ t, s.Next lexType t ∧ Reaches parserStep T (f ()) t r s' := by
  constructor
  · rintro ⟨_, t, h, hf⟩
    exact ⟨t, h, hf⟩
  · rintro ⟨t, h, hf⟩
    exact ⟨(), t, h, hf⟩

theorem reaches_ifToken {t : JSTokenType} {x y : Parse β} :
    Reaches parserStep T (isToken t >>= fun c => if c = true then x else y) s r s' ↔
      if s.token.type = t then Reaches parserStep T x s r s'
      else Reaches parserStep T y s r s' := by
  refine (reaches_command (o := .token) rfl).trans ?_
  by_cases h : s.token.type = t <;> simp [h]

theorem reaches_assertToken {t : JSTokenType} {f : Unit → Parse β} :
    Reaches parserStep T (assertToken t >>= f) s r s' ↔
      s.token.type = t ∧ Reaches parserStep T (f ()) s r s' := by
  refine (reaches_command (o := .token)
    (f := fun u => Parse.assert (decide (u.type = t)) .notMatched >>= f) rfl).trans ?_
  by_cases h : s.token.type = t
  · simp only [h, decide_true, true_and]
    exact Iff.rfl
  · simp only [h, decide_false, false_and, iff_false]
    rintro ⟨a, t, h, -⟩
    cases h

theorem reaches_fail :
    Reaches parserStep T (fail : Parse β) s r s' ↔ r = none ∧ s' = s.failed :=
  reaches_command (o := .setError) rfl

theorem reaches_failIfNull {o : Option α} {f : α → Parse β} :
    Reaches parserStep T (failIfNull o >>= f) s r s' ↔
      (∃ a, o = some a ∧ Reaches parserStep T (f a) s r s') ∨
        o = none ∧ r = none ∧ s' = s.failed := by
  cases o with
  | none =>
      simp only [reduceCtorEq, false_and, exists_false, true_and, false_or]
      exact reaches_command (o := .setError) rfl
  | some a =>
      simp only [Option.some.injEq, exists_eq_left', reduceCtorEq, false_and, or_false]
      exact Iff.rfl

theorem reaches_orReturnNull {o : Option α} {f : α → Parse β} :
    Reaches parserStep T (orReturnNull o >>= f) s r s' ↔
      (∃ a, o = some a ∧ Reaches parserStep T (f a) s r s') ∨ o = none ∧ r = none ∧ s' = s := by
  cases o with
  | none =>
      simp only [reduceCtorEq, false_and, exists_false, true_and, false_or]
      exact Iff.rfl
  | some a =>
      simp only [Option.some.injEq, exists_eq_left', reduceCtorEq, false_and, or_false]
      exact Iff.rfl

theorem reaches_answer {o : Option β} :
    Reaches parserStep T (orReturnNull o) s r s' ↔ r = o ∧ s' = s := by
  cases o <;> exact Iff.rfl

end Reached

section Rules

variable {T : Productions} {α β : Type} {s s' : ParserState} {b : β}

theorem gives_pure {a : β} : Gives T (pure a) s b s' ↔ b = a ∧ s' = s := by
  simp [Gives]

theorem gives_bind {x : Parse α} {f : α → Parse β} :
    Gives T (x >>= f) s b s' ↔ ∃ a t, Gives T x s a t ∧ Gives T (f a) t b s' := by
  simp [Gives, reaches_bind]

theorem gives_pure_bind {a : α} {f : α → Parse β} :
    Gives T (pure a >>= f) s b s' ↔ Gives T (f a) s b s' := Iff.rfl

omit [Platform] in
theorem exists_unit {P : Unit → Prop} : (∃ u, P u) ↔ P () :=
  ⟨fun ⟨_, h⟩ => h, fun h => ⟨(), h⟩⟩

theorem gives_fail : ¬ Gives T (fail : Parse β) s b s' := by
  simp [Gives, reaches_fail]

theorem gives_parse {p : Production} {f : Option p.Ret → Parse β} :
    Gives T (parse p >>= f) s b s' ↔ ∃ r t, T p s r t ∧ Gives T (f r) t b s' := Iff.rfl

theorem gives_next {lexType : LexType} {f : Unit → Parse β} :
    Gives T (next lexType >>= f) s b s' ↔ ∃ t, s.Next lexType t ∧ Gives T (f ()) t b s' :=
  reaches_next

theorem gives_tokenType {f : JSTokenType → Parse β} :
    Gives T (tokenType >>= f) s b s' ↔ Gives T (f s.token.type) s b s' :=
  reaches_command (o := .token) rfl

theorem gives_tokenData {f : JSTokenData → Parse β} :
    Gives T (tokenData >>= f) s b s' ↔ Gives T (f s.token.data) s b s' :=
  reaches_command (o := .token) rfl

theorem gives_isToken {t : JSTokenType} {f : Bool → Parse β} :
    Gives T (isToken t >>= f) s b s' ↔ Gives T (f (decide (s.token.type = t))) s b s' :=
  reaches_command (o := .token) rfl

theorem gives_ifToken {t : JSTokenType} {x y : Parse β} :
    Gives T (isToken t >>= fun c => if c = true then x else y) s b s' ↔
      if s.token.type = t then Gives T x s b s' else Gives T y s b s' :=
  reaches_ifToken

theorem gives_hasError {f : Bool → Parse β} :
    Gives T (hasError >>= f) s b s' ↔ Gives T (f s.error) s b s' :=
  reaches_command (o := .hasError) rfl

theorem gives_getRegs {f : Registers → Parse β} :
    Gives T (getRegs >>= f) s b s' ↔ Gives T (f s.regs) s b s' :=
  reaches_command (o := .getRegs) rfl

theorem gives_modifyRegs {g : Registers → Registers} {f : Unit → Parse β} :
    Gives T (modifyRegs g >>= f) s b s' ↔ Gives T (f ()) { s with regs := g s.regs } b s' :=
  (gives_getRegs (f := fun r =>
    Program.perform (S := parserInterface) (.setRegs (g r)) >>= f)).trans (reaches_command rfl)

theorem gives_setAllowsIn {c : Bool} {f : Unit → Parse β} :
    Gives T (setAllowsIn c >>= f) s b s' ↔
      Gives T (f ()) { s with regs := { s.regs with allowsIn := c } } b s' :=
  gives_modifyRegs

theorem gives_nonLHSCount {f : Nat → Parse β} :
    Gives T (nonLHSCount >>= f) s b s' ↔ Gives T (f s.regs.nonLHSCount) s b s' :=
  gives_getRegs (f := fun r => f r.nonLHSCount)

theorem gives_setNonLHSCount {n : Nat} {f : Unit → Parse β} :
    Gives T (setNonLHSCount n >>= f) s b s' ↔
      Gives T (f ()) { s with regs := { s.regs with nonLHSCount := n } } b s' :=
  gives_modifyRegs

theorem gives_assertToken {t : JSTokenType} {f : Unit → Parse β} :
    Gives T (assertToken t >>= f) s b s' ↔ s.token.type = t ∧ Gives T (f ()) s b s' :=
  reaches_assertToken

theorem gives_failIfNull {o : Option α} {f : α → Parse β} :
    Gives T (failIfNull o >>= f) s b s' ↔ ∃ a, o = some a ∧ Gives T (f a) s b s' := by
  simp [Gives, reaches_failIfNull]

theorem gives_orReturnNull {o : Option α} {f : α → Parse β} :
    Gives T (orReturnNull o >>= f) s b s' ↔ ∃ a, o = some a ∧ Gives T (f a) s b s' := by
  simp [Gives, reaches_orReturnNull]

theorem gives_answer {o : Option β} :
    Gives T (orReturnNull o) s b s' ↔ o = some b ∧ s' = s := by
  rw [Gives, reaches_answer, eq_comm]

theorem gives_failIfFalse {c : Bool} {f : Unit → Parse β} :
    Gives T (failIfFalse c >>= f) s b s' ↔ c = true ∧ Gives T (f ()) s b s' := by
  cases c with
  | true => simp [failIfFalse, gives_pure_bind]
  | false =>
      rw [gives_bind]
      simp [failIfFalse, gives_fail]

theorem gives_matchOrFail {t : JSTokenType} {f : Unit → Parse β} :
    Gives T (matchOrFail t >>= f) s b s' ↔ s.token.type = t ∧ Gives T (f ()) s b s' := by
  rw [gives_bind]
  unfold matchOrFail
  simp only [gives_isToken]
  by_cases h : s.token.type = t
  · simp [h, gives_pure, exists_unit]
  · simp [h, gives_fail]

/-- `consume(t)`, where a failure is not looked at before the end. -/
theorem gives_consume {t : JSTokenType} {x : Parse β} :
    Gives T (consume t >>= fun c => if c = true then x else fail) s b s' ↔
      s.token.type = t ∧ ∃ u, s.Next .identifyReservedWords u ∧ Gives T x u b s' := by
  rw [gives_bind]
  unfold consume
  simp only [gives_isToken]
  by_cases h : s.token.type = t
  · simp only [h, decide_true, if_true, gives_next, gives_pure]
    constructor
    · rintro ⟨c, u, ⟨v, hn, rfl, rfl⟩, hx⟩
      exact ⟨trivial, u, hn, hx⟩
    · rintro ⟨-, u, hn, hx⟩
      exact ⟨true, u, ⟨u, hn, rfl, rfl⟩, hx⟩
  · simp only [h, decide_false, Bool.false_eq_true, if_false, gives_bind, gives_pure, false_and,
      iff_false]
    rintro ⟨c, u, ⟨-, v, -, rfl, rfl⟩, hx⟩
    exact gives_fail hx

theorem gives_consumeOrFail {t : JSTokenType} {f : Unit → Parse β} :
    Gives T (consumeOrFail t >>= f) s b s' ↔
      s.token.type = t ∧ ∃ u, s.Next .identifyReservedWords u ∧ Gives T (f ()) u b s' := by
  rw [gives_bind]
  unfold consumeOrFail
  simp only [gives_consume, gives_pure, exists_unit]
  constructor
  · rintro ⟨u, ⟨ht, v, hn, -, rfl⟩, hx⟩
    exact ⟨ht, u, hn, hx⟩
  · rintro ⟨ht, u, hn, hx⟩
    exact ⟨u, ⟨ht, u, hn, trivial, rfl⟩, hx⟩

end Rules

/-- A production returns what its code gives. -/
theorem parser_returns_iff {p : Production} {s s' : ParserState} {a : p.Ret} :
    parser.Returns p s (some a) s' ↔ Gives parser.Returns (productionBody p) s a s' :=
  returns_iff

end HammerJS
