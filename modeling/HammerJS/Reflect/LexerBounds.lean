import HammerJS.Reflect.LexSafety

/-!
# The lexer stays inside the source

Any sequence of calls of `Lexer::lex` and `Lexer::scanRegExp` on a source, also after
an error and with characters left in the buffers.

* `Lexer.Bounded` — `m_code` is in the source, and `m_current` the character there.
* `LexerCall` — a call, with the assertions at its entry compiled in or not.
* `calls_bounded` — every assertion but those at the entries holds, and the lexer
  stays bounded.
-/

namespace HammerJS

open Procs Lexer

variable [Platform]

/-! ## Calls -/

/-- `m_codeStart ≤ m_code ≤ m_codeEnd`, and `m_current` is the character at `m_code`,
or `-1` at the end alone. -/
structure Lexer.Bounded (source : List UChar) (l : Lexer) : Prop where
  codeStart : l.codeStart = source
  code : l.code <:+ source
  current : l.current = codeUnit l.code
  atEnd : l.current = -1 ↔ l.code = []

/-- A call of one of the two entry points of the lexer. -/
inductive LexerCall where
  | lex (lexType : LexType) (old : JSToken)
  | scanRegExp (patternPrefix : Option UChar)

/-- The call, in a build that checks no assertion at the entry. -/
def LexerCall.run : LexerCall → LexM Unit
  | .lex lexType old => do
      modify fun l => { l with terminator := false }
      let _ ← lexFrom lexType old (← bound)
  | .scanRegExp patternPrefix => do
      match patternPrefix with
      | some c => record16 c.toNat
      | none => pure ()
      let _ ← scanPattern

/-- The call, with its assertions. -/
def LexerCall.runAsserted : LexerCall → LexM Unit
  | .lex lexType old => do
      let _ ← Lexer.lex lexType old
  | .scanRegExp patternPrefix => do
      let _ ← Lexer.scanRegExp patternPrefix

/-! ## One call -/

omit [Platform] in
theorem Lexer.Reached.bounded {source : List UChar} {l l' : Lexer} (h : l.Bounded source)
    (hr : Reached l l') : l'.Bounded source := by
  refine ⟨hr.codeStart.trans h.codeStart, hr.suffix.trans h.code, hr.valid, ?_⟩
  rw [hr.valid]
  exact codeUnit_eq_neg_one

omit [Platform] in
theorem setCode_bounded (source : List UChar) : (setCode source).Bounded source :=
  ⟨rfl, List.suffix_rfl, rfl, codeUnit_eq_neg_one⟩

omit [Platform] in
/-- `shift()`, which alone moves `m_code` and `m_current`, moves both. -/
theorem shift_bounded {source : List UChar} {l l' : Lexer} (h : l.Bounded source)
    (hs : shift l = .ok ((), l')) : l'.Bounded source := by
  have hshift : Succeeds shift l fun _ l' => Reached l l' := by
    rw [succeeds_shift]
    refine ⟨fun hend => ?_, advance_moved.reached⟩
    simp [shift, getCurrent, Lexer.assert, hend, bind, StateT.bind, Except.bind, get, getThe,
      MonadStateOf.get, StateT.get, pure, StateT.pure, Except.pure, throw, throwThe,
      MonadExceptOf.throw, StateT.lift] at hs
  exact (hshift.of_eq hs).bounded h

/-- A call on a bounded lexer fails no assertion inside it. -/
theorem run_succeeds (call : LexerCall) {source : List UChar} {l : Lexer}
    (h : l.Bounded source) : Succeeds call.run l fun _ l' => l'.Bounded source := by
  cases call with
  | lex lexType old =>
      have hlex := lexStart_succeeds lexType old (l := l) h.current
      simp only [LexerCall.run, succeeds_bind] at hlex ⊢
      exact hlex.mono fun _ _ hmod => hmod.mono fun _ _ hfrom => hfrom.mono fun _ _ hlexed =>
        (succeeds_pure _).mpr (hlexed.1.reached.bounded h)
  | scanRegExp patternPrefix =>
      have hscan : ∀ b, Succeeds scanPattern { l with buffer16 := b } fun _ l' =>
          l'.Bounded source := fun b =>
        (scanPattern_succeeds (l := { l with buffer16 := b }) h.current).mono fun _ _ hm =>
          (((Moved.refl h.current).buffers l.buffer8 b).trans hm.1).reached.bounded h
      simp only [LexerCall.run]
      cases patternPrefix with
      | none =>
          simp only [succeeds_bind, succeeds_pure]
          exact hscan l.buffer16
      | some c =>
          simp only [succeeds_bind, succeeds_pure, succeeds_record16]
          exact ⟨recordable_toNat c, hscan _⟩

omit [Platform] in
/-- An assertion that fails stops the routine, and one that holds does nothing. -/
theorem assert_bind {β : Type} (c : Bool) (e : Crash) (x : LexM β) (l : Lexer) :
    (do Lexer.assert c e; x) l = if c = true then x l else .error e := by
  cases c <;> rfl

/-- A call with its assertions does the same, or fails at its entry. -/
theorem runAsserted_cases (call : LexerCall) (l : Lexer) :
    call.runAsserted l = call.run l ∨ call.runAsserted l = .error .lexEntry ∨
      call.runAsserted l = .error .scanRegExpEntry := by
  cases call with
  | lex lexType old =>
      have hlex : (LexerCall.lex lexType old).runAsserted l =
          (do Lexer.assert (!l.error && l.buffer8.isEmpty && l.buffer16.isEmpty) .lexEntry
              (LexerCall.lex lexType old).run) l := by
        simp only [LexerCall.runAsserted, Lexer.lex, bind_assoc]
        rfl
      rw [hlex, assert_bind]
      split
      · exact Or.inl rfl
      · exact Or.inr (Or.inl rfl)
  | scanRegExp patternPrefix =>
      have hscan : (LexerCall.scanRegExp patternPrefix).runAsserted l =
          (do Lexer.assert l.buffer16.isEmpty .scanRegExpEntry
              match patternPrefix with
              | some c => do
                  Lexer.assert (!isLineTerminator c.toNat) .scanRegExpEntry
                  Lexer.assert ((c.toNat : Int) != chr '/') .scanRegExpEntry
                  Lexer.assert ((c.toNat : Int) != chr '[') .scanRegExpEntry
                  (LexerCall.scanRegExp (some c)).run
              | none => (LexerCall.scanRegExp none).run) l := by
        cases patternPrefix <;>
        · simp only [LexerCall.runAsserted, Lexer.scanRegExp, bind_assoc]
          rfl
      rw [hscan, assert_bind]
      split
      · cases patternPrefix with
        | none => exact Or.inl rfl
        | some c =>
            simp only [assert_bind]
            repeat' split
            · exact Or.inl rfl
            all_goals exact Or.inr (Or.inr rfl)
      · exact Or.inr (Or.inr rfl)

/-! ## Sequences of calls -/

/-- Make some calls, one after the other. -/
def runLexerCalls (run : LexerCall → LexM Unit) : List LexerCall → LexM Unit
  | [] => pure ()
  | call :: calls => do
      run call
      runLexerCalls run calls

theorem runLexerCalls_succeeds (calls : List LexerCall) {source : List UChar} {l : Lexer}
    (h : l.Bounded source) :
    Succeeds (runLexerCalls LexerCall.run calls) l fun _ l' => l'.Bounded source := by
  induction calls generalizing l with
  | nil => exact (succeeds_pure _).mpr h
  | cons call calls ih =>
      simp only [runLexerCalls, succeeds_bind]
      exact (run_succeeds call h).mono fun _ l' h' => ih h'

theorem runLexerCalls_asserted (calls : List LexerCall) (l : Lexer) :
    runLexerCalls LexerCall.runAsserted calls l = runLexerCalls LexerCall.run calls l ∨
      runLexerCalls LexerCall.runAsserted calls l = .error .lexEntry ∨
      runLexerCalls LexerCall.runAsserted calls l = .error .scanRegExpEntry := by
  induction calls generalizing l with
  | nil => exact Or.inl rfl
  | cons call calls ih =>
      have hcons : ∀ run : LexerCall → LexM Unit, runLexerCalls run (call :: calls) l =
          (run call l).bind fun r => runLexerCalls run calls r.2 := fun _ => rfl
      simp only [hcons]
      rcases runAsserted_cases call l with h | h | h
      · rw [h]
        cases call.run l with
        | error e => exact Or.inl rfl
        | ok r => exact ih r.2
      · exact Or.inr (Or.inl (by rw [h]; rfl))
      · exact Or.inr (Or.inr (by rw [h]; rfl))

/-- **The lexer stays inside the source.**  Whatever calls are made, no assertion
inside them fails, and the lexer is bounded after each of them and after each
`shift()`; with the assertions at their entries, the calls do the same or stop there. -/
theorem calls_bounded (source : List UChar) (calls : List LexerCall) :
    (∃ l, runLexerCalls LexerCall.run calls (setCode source) = .ok ((), l) ∧ l.Bounded source) ∧
      (∀ l l', l.Bounded source → shift l = .ok ((), l') → l'.Bounded source) ∧
      (runLexerCalls LexerCall.runAsserted calls (setCode source) =
          runLexerCalls LexerCall.run calls (setCode source) ∨
        runLexerCalls LexerCall.runAsserted calls (setCode source) = .error .lexEntry ∨
        runLexerCalls LexerCall.runAsserted calls (setCode source) = .error .scanRegExpEntry) := by
  refine ⟨?_, fun l l' => shift_bounded, runLexerCalls_asserted calls (setCode source)⟩
  obtain ⟨_, l, hrun, h⟩ := runLexerCalls_succeeds calls (setCode_bounded source)
  exact ⟨l, hrun, h⟩

end HammerJS
