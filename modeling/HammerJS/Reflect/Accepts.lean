import HammerJS.Procs.Attains
import HammerJS.Reflect.Outcomes

/-!
# Code that parses what it should

The rules of `Attains` for the commands and macros of the parser: what the code of a
production needs to go on, and to end with a value.

* `Accepts` — from a state, the code returns a value, and a condition holds of it.
* `accepts_next`, `accepts_orFail` and the rest — one rule for each macro.
-/

namespace HammerJS

open Procs Machine Lexer Parse

variable [Platform]

/-- From `s` the code `x` returns a value, which satisfies `Q` with the state that is left. -/
abbrev Accepts {α : Type} (x : Parse α) (s : ParserState) (Q : α → ParserState → Prop) : Prop :=
  Attains parserStep parser.Returns x s Q

theorem answers_production {q : Production} {s : ParserState} {Q : q.Ret → ParserState → Prop} :
    parser.Answers q s Q ↔ Accepts (productionBody q) s Q :=
  answers_iff

section Rules

variable {α β : Type} {s t : ParserState} {Q : β → ParserState → Prop}

theorem accepts_pure {a : β} (h : Q a s) : Accepts (pure a) s Q := attains_pure.mpr h

theorem accepts_bind {x : Parse α} {f : α → Parse β} :
    Accepts (x >>= f) s Q ↔ Accepts x s fun a s' => Accepts (f a) s' Q :=
  attains_bind

/-- A command that does not fail. -/
theorem accepts_command_iff {o : ParserOp} {a : o.Res} {f : o.Res → Parse β}
    (ho : parserStep o s = .ok (a, t)) :
    Accepts (Program.perform (S := parserInterface) o >>= f) s Q ↔ Accepts (f a) t Q :=
  attains_perform ho

theorem accepts_command {o : ParserOp} {a : o.Res} {f : o.Res → Parse β}
    (ho : parserStep o s = .ok (a, t)) (hf : Accepts (f a) t Q) :
    Accepts (Program.perform (S := parserInterface) o >>= f) s Q :=
  (accepts_command_iff ho).mpr hf

theorem accepts_pure_bind {a : α} {f : α → Parse β} (h : Accepts (f a) s Q) :
    Accepts (pure a >>= f) s Q := h

/-! ### Calls -/

section Calls

variable {q : Production} {f : q.Ret → Parse β}

theorem accepts_parse {r : Option q.Ret} {f : Option q.Ret → Parse β} (hq : parser.Returns q s r t)
    (hf : Accepts (f r) t Q) : Accepts (parse q >>= f) s Q :=
  attains_invoke hq hf

/-- A call that must return something. -/
theorem accepts_orFail_iff : Accepts (parse q >>= fun r => failIfNull r >>= f) s Q ↔
    parser.Answers q s fun a s' => Accepts (f a) s' Q := by
  constructor
  · rintro ⟨b, s', ⟨r, t, hq, hf⟩, hQ⟩
    obtain ⟨a, rfl, hf⟩ := gives_failIfNull.mp hf
    exact ⟨a, t, hq, b, s', hf, hQ⟩
  · rintro ⟨a, s', hq, hf⟩
    exact accepts_parse hq hf

theorem accepts_orFail (h : parser.Answers q s fun a s' => Accepts (f a) s' Q) :
    Accepts (parse q >>= fun r => failIfNull r >>= f) s Q :=
  accepts_orFail_iff.mpr h

/-- A call that must return something, which is then the answer. -/
theorem accepts_lastOrFail {Q : q.Ret → ParserState → Prop} (h : parser.Answers q s Q) :
    Accepts (parse q >>= fun r => failIfNull r) s Q := by
  obtain ⟨a, s', hq, hQ⟩ := h
  exact accepts_parse hq (accepts_pure hQ)

/-- A call of a loop, or one whose null is returned. -/
theorem accepts_orNull : Accepts (parse q >>= fun r => orReturnNull r >>= f) s Q ↔
    parser.Answers q s fun a s' => Accepts (f a) s' Q := by
  constructor
  · rintro ⟨b, s', ⟨r, t, hq, hf⟩, hQ⟩
    obtain ⟨a, rfl, hf⟩ := gives_orReturnNull.mp hf
    exact ⟨a, t, hq, b, s', hf, hQ⟩
  · rintro ⟨a, s', hq, hf⟩
    exact accepts_parse hq hf

/-- A call whose answer is the answer. -/
theorem accepts_last {Q : q.Ret → ParserState → Prop} :
    Accepts (parse q >>= fun r => orReturnNull r) s Q ↔ parser.Answers q s Q := by
  constructor
  · rintro ⟨b, s', ⟨r, t, hq, hf⟩, hQ⟩
    obtain ⟨rfl, rfl⟩ := gives_answer.mp hf
    exact ⟨b, s', hq, hQ⟩
  · rintro ⟨a, s', hq, hQ⟩
    exact accepts_parse hq (accepts_pure hQ)

end Calls

/-! ### Tokens -/

theorem accepts_next {lexType : LexType} {f : Unit → Parse β} (hn : s.Next lexType t)
    (hf : Accepts (f ()) t Q) : Accepts (next lexType >>= f) s Q :=
  accepts_command (o := .next lexType) hn hf

theorem accepts_next_iff {lexType : LexType} {f : Unit → Parse β} :
    Accepts (next lexType >>= f) s Q ↔ ∃ t, s.Next lexType t ∧ Accepts (f ()) t Q := by
  constructor
  · rintro ⟨a, s', h, hQ⟩
    obtain ⟨t, hn, hf⟩ := reaches_next.mp h
    exact ⟨t, hn, a, s', hf, hQ⟩
  · rintro ⟨t, hn, hf⟩
    exact accepts_next hn hf

theorem accepts_tokenType {f : JSTokenType → Parse β} (hf : Accepts (f s.token.type) s Q) :
    Accepts (tokenType >>= f) s Q :=
  accepts_command (o := .token) (f := fun u => f u.type) rfl hf

theorem accepts_tokenData {f : JSTokenData → Parse β} (hf : Accepts (f s.token.data) s Q) :
    Accepts (tokenData >>= f) s Q :=
  accepts_command (o := .token) (f := fun u => f u.data) rfl hf

theorem accepts_tokenLine {f : Nat → Parse β} (hf : Accepts (f s.token.info.line) s Q) :
    Accepts (tokenLine >>= f) s Q :=
  accepts_command (o := .token) (f := fun u => f u.info.line) rfl hf

theorem accepts_tokenCount {f : Nat → Parse β} (hf : Accepts (f s.tokenCount) s Q) :
    Accepts (tokenCount >>= f) s Q :=
  accepts_command (o := .tokenCount) rfl hf

theorem accepts_isToken {e : JSTokenType} {f : Bool → Parse β}
    (hf : Accepts (f (decide (s.token.type = e))) s Q) : Accepts (isToken e >>= f) s Q :=
  accepts_command (o := .token) (f := fun u => f (decide (u.type = e))) rfl hf

section Branches

variable {e : JSTokenType} {x y : Parse β}

theorem accepts_then_iff (ht : s.token.type = e) :
    Accepts (isToken e >>= fun c => if c = true then x else y) s Q ↔ Accepts x s Q := by
  refine (accepts_command_iff (o := .token)
    (f := fun u => if decide (u.type = e) = true then x else y) rfl).trans ?_
  rw [decide_eq_true ht, if_pos rfl]

theorem accepts_then (ht : s.token.type = e) (hx : Accepts x s Q) :
    Accepts (isToken e >>= fun c => if c = true then x else y) s Q :=
  (accepts_then_iff ht).mpr hx

theorem accepts_else (ht : s.token.type ≠ e) (hy : Accepts y s Q) :
    Accepts (isToken e >>= fun c => if c = true then x else y) s Q := by
  refine accepts_isToken ?_
  rw [decide_eq_false ht]
  exact hy

end Branches

section Macros

variable {e : JSTokenType} {f : Unit → Parse β}

theorem accepts_assert {c : Bool} {crash : Crash} (hc : c = true) (hf : Accepts (f ()) s Q) :
    Accepts (Parse.assert c crash >>= f) s Q := by
  subst hc
  exact hf

theorem accepts_assertToken (ht : s.token.type = e) (hf : Accepts (f ()) s Q) :
    Accepts (assertToken e >>= f) s Q := by
  rw [accepts_bind]
  refine accepts_isToken ?_
  rw [decide_eq_true ht]
  exact accepts_pure hf

theorem accepts_matchOrFail (ht : s.token.type = e) (hf : Accepts (f ()) s Q) :
    Accepts (matchOrFail e >>= f) s Q := by
  rw [accepts_bind]
  exact accepts_then ht (accepts_pure hf)

theorem accepts_consume {f : Bool → Parse β} (ht : s.token.type = e)
    (hn : s.Next .identifyReservedWords t) (hf : Accepts (f true) t Q) :
    Accepts (consume e >>= f) s Q := by
  rw [accepts_bind]
  exact accepts_then ht (accepts_next hn (accepts_pure hf))

theorem accepts_consumeOrFail (ht : s.token.type = e) (hn : s.Next .identifyReservedWords t)
    (hf : Accepts (f ()) t Q) : Accepts (consumeOrFail e >>= f) s Q := by
  rw [accepts_bind]
  exact accepts_consume ht hn (accepts_pure hf)

theorem accepts_failIfFalse {c : Bool} (hc : c = true) (hf : Accepts (f ()) s Q) :
    Accepts (failIfFalse c >>= f) s Q := by
  subst hc
  exact hf

theorem accepts_failIfTrue {c : Bool} (hc : c = false) (hf : Accepts (f ()) s Q) :
    Accepts (failIfTrue c >>= f) s Q := by
  subst hc
  exact hf

theorem accepts_hasError {f : Bool → Parse β} (hf : Accepts (f s.error) s Q) :
    Accepts (hasError >>= f) s Q :=
  accepts_command (o := .hasError) rfl hf

theorem accepts_failIfError (he : s.error = false) (hf : Accepts (f ()) s Q) :
    Accepts (hasError >>= fun e => failIfTrue e >>= f) s Q :=
  accepts_hasError (accepts_failIfTrue he hf)

end Macros

/-- What `autoSemiColon()` answers where no semicolon stands. -/
def ParserState.allowsOmission (s : ParserState) : Bool :=
  s.token.type = .closeBrace || s.token.type = .eofTok || s.lexer.terminator

theorem accepts_autoSemiColon {f : Bool → Parse β} (ht : s.token.type = .semicolon)
    (hn : s.Next .identifyReservedWords t) (hf : Accepts (f true) t Q) :
    Accepts (autoSemiColon >>= f) s Q := by
  rw [accepts_bind]
  exact accepts_then ht (accepts_next hn (accepts_pure hf))

theorem accepts_noSemiColon {f : Bool → Parse β} (ht : s.token.type ≠ .semicolon)
    (hf : Accepts (f s.allowsOmission) s Q) : Accepts (autoSemiColon >>= f) s Q := by
  rw [accepts_bind]
  refine accepts_else ht (accepts_tokenType ?_)
  exact accepts_command (o := .prevTerminator) rfl (accepts_pure hf)

/-! ### Registers -/

theorem accepts_getRegs {f : Registers → Parse β} (hf : Accepts (f s.regs) s Q) :
    Accepts (getRegs >>= f) s Q :=
  accepts_command (o := .getRegs) rfl hf

theorem accepts_modifyRegs_iff {g : Registers → Registers} {f : Unit → Parse β} :
    Accepts (modifyRegs g >>= f) s Q ↔ Accepts (f ()) { s with regs := g s.regs } Q :=
  (accepts_command_iff (o := .getRegs) (f := fun r =>
    Program.perform (S := parserInterface) (.setRegs (g r)) >>= f) rfl).trans
    (accepts_command_iff (o := .setRegs (g s.regs)) rfl)

theorem accepts_modifyRegs {g : Registers → Registers} {f : Unit → Parse β}
    (hf : Accepts (f ()) { s with regs := g s.regs } Q) : Accepts (modifyRegs g >>= f) s Q :=
  accepts_modifyRegs_iff.mpr hf

theorem accepts_allowsIn {f : Bool → Parse β} (hf : Accepts (f s.regs.allowsIn) s Q) :
    Accepts (allowsIn >>= f) s Q :=
  accepts_getRegs (f := fun r => f r.allowsIn) hf

theorem accepts_setAllowsIn {c : Bool} {f : Unit → Parse β}
    (hf : Accepts (f ()) { s with regs := { s.regs with allowsIn := c } } Q) :
    Accepts (setAllowsIn c >>= f) s Q :=
  accepts_modifyRegs hf

theorem accepts_nonLHSCount_iff {f : Nat → Parse β} :
    Accepts (nonLHSCount >>= f) s Q ↔ Accepts (f s.regs.nonLHSCount) s Q :=
  accepts_command_iff (o := .getRegs) (f := fun r => f r.nonLHSCount) rfl

theorem accepts_nonLHSCount {f : Nat → Parse β} (hf : Accepts (f s.regs.nonLHSCount) s Q) :
    Accepts (nonLHSCount >>= f) s Q :=
  accepts_nonLHSCount_iff.mpr hf

theorem accepts_setNonLHSCount {n : Nat} {f : Unit → Parse β}
    (hf : Accepts (f ()) { s with regs := { s.regs with nonLHSCount := n } } Q) :
    Accepts (setNonLHSCount n >>= f) s Q :=
  accepts_modifyRegs hf

theorem accepts_bumpNonLHSCount {f : Unit → Parse β}
    (hf : Accepts (f ())
      { s with regs := { s.regs with nonLHSCount := s.regs.nonLHSCount + 1 } } Q) :
    Accepts (bumpNonLHSCount >>= f) s Q :=
  accepts_modifyRegs hf

theorem accepts_getStacks {f : BuilderStacks → Parse β} (hf : Accepts (f s.regs.context) s Q) :
    Accepts (getStacks >>= f) s Q :=
  accepts_getRegs (f := fun r => f r.context) hf

theorem accepts_modifyStacks {g : BuilderStacks → BuilderStacks} {f : Unit → Parse β}
    (hf : Accepts (f ()) { s with regs := { s.regs with context := g s.regs.context } } Q) :
    Accepts (modifyStacks g >>= f) s Q :=
  accepts_modifyRegs hf

end Rules

end HammerJS
