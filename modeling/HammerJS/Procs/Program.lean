import Mathlib.Tactic.Common

/-!
# Programs with procedures

A small language for imperative code with mutually recursive procedures.  A
`Program` is a tree of primitive commands and procedure calls; it says nothing
about the state it runs on, so that one program can be run on different states
and reasoned about by induction on its commands.

* `Interface` — the commands a program may issue, the procedures it may call,
  and the type of what each of them returns.
* `Program` — the programs over an interface, with their monad.
* `Machine` — a meaning for an interface: what a command does to the state, and
  the body of each procedure.
* `Machine.run` — running a procedure with a bounded depth of nested calls.
* `Machine.Returns` — what a procedure returns, whatever depth it needs.
* `Machine.Visits` — the commands and calls that a run goes through, each with
  the state it was issued in.
-/

namespace Procs

/-- The commands and procedures a family of programs is written over. -/
structure Interface where
  /-- The primitive commands. -/
  Op : Type
  /-- What a command answers. -/
  Res : Op → Type
  /-- The names of the procedures, with their arguments. -/
  Proc : Type
  /-- What a procedure returns, when it returns something. -/
  Ret : Proc → Type

/-- A program over `S` computing an `α`.  `quit` leaves the enclosing procedure
without a value, as `return 0` does; a caller receives the outcome of a
procedure as an `Option`. -/
inductive Program (S : Interface) (α : Type) : Type where
  /-- Return a value. -/
  | pure (a : α)
  /-- Leave the enclosing procedure without a value. -/
  | quit
  /-- Issue a command and go on with its answer. -/
  | op (o : S.Op) (k : S.Res o → Program S α)
  /-- Call a procedure and go on with what it returned. -/
  | call (p : S.Proc) (k : Option (S.Ret p) → Program S α)

namespace Program

variable {S : Interface} {α β : Type}

/-- Sequencing.  A program that quits does not reach its continuation. -/
def bind (x : Program S α) (f : α → Program S β) : Program S β :=
  match x with
  | .pure a => f a
  | .quit => .quit
  | .op o k => .op o fun r => (k r).bind f
  | .call p k => .call p fun r => (k r).bind f

instance : Monad (Program S) where
  pure := .pure
  bind := .bind

/-- Issue one command. -/
def perform (o : S.Op) : Program S (S.Res o) := .op o .pure

/-- Call one procedure. -/
def invoke (p : S.Proc) : Program S (Option (S.Ret p)) := .call p .pure

end Program

/-- How a run ends: with the value returned (`none` after `quit`) and the final
state, with a fault, or by exhausting the allowed depth of calls. -/
inductive Outcome (σ ε α : Type) : Type where
  | done (r : Option α) (s : σ)
  | fault (e : ε)
  | timeout

/-- A command or a call, as it occurs in a run. -/
inductive Event (S : Interface) : Type where
  | op (o : S.Op)
  | call (p : S.Proc)

/-- A meaning for an interface over states `σ` and faults `ε`. -/
structure Machine (S : Interface) (σ ε : Type) where
  /-- The effect of one command. -/
  step : (o : S.Op) → σ → Except ε (S.Res o × σ)
  /-- The code of each procedure. -/
  body : (p : S.Proc) → Program S (S.Ret p)

namespace Machine

variable {S : Interface} {σ ε α β : Type} (M : Machine S σ ε)

/-- Run a program, given what the procedures it calls do. -/
def exec (callee : (p : S.Proc) → σ → Outcome σ ε (S.Ret p)) :
    Program S α → σ → Outcome σ ε α
  | .pure a, s => .done (some a) s
  | .quit, s => .done none s
  | .op o k, s =>
      match M.step o s with
      | .ok (r, s') => exec callee (k r) s'
      | .error e => .fault e
  | .call p k, s =>
      match callee p s with
      | .done r s' => exec callee (k r) s'
      | .fault e => .fault e
      | .timeout => .timeout

/-- Run a procedure with at most `n` nested calls. -/
def run : Nat → (p : S.Proc) → σ → Outcome σ ε (S.Ret p)
  | 0, _, _ => .timeout
  | n + 1, p, s => M.exec (run n) (M.body p) s

/-- Called in `s`, the procedure `p` returns `r` and leaves `s'`. -/
def Returns (p : S.Proc) (s : σ) (r : Option (S.Ret p)) (s' : σ) : Prop :=
  ∃ n, M.run n p s = .done r s'

/-- The events of one program, given those of the procedures it calls:
`execVisits … x s e t` says that running `x` from `s` issues `e` in state `t`. -/
def execVisits (callee : (p : S.Proc) → σ → Outcome σ ε (S.Ret p))
    (within : S.Proc → σ → Event S → σ → Prop) : Program S α → σ → Event S → σ → Prop
  | .pure _, _, _, _ => False
  | .quit, _, _, _ => False
  | .op o k, s, e, t =>
      (e = .op o ∧ t = s) ∨
        match M.step o s with
        | .ok (r, s') => execVisits callee within (k r) s' e t
        | .error _ => False
  | .call p k, s, e, t =>
      (e = .call p ∧ t = s) ∨ within p s e t ∨
        match callee p s with
        | .done r s' => execVisits callee within (k r) s' e t
        | _ => False

/-- `M.Visits n p s e t`: the run of `p` from `s` with call depth `n` issues `e`
in state `t`. -/
def Visits : Nat → S.Proc → σ → Event S → σ → Prop
  | 0, _, _, _, _ => False
  | n + 1, p, s, e, t => M.execVisits (M.run n) (Visits n) (M.body p) s e t

/-- Whether one of the events of a program satisfies `test`, given whether one of
those of a procedure it calls does. -/
def execAny (callee : (p : S.Proc) → σ → Outcome σ ε (S.Ret p)) (within : S.Proc → σ → Bool)
    (test : Event S → σ → Bool) : Program S α → σ → Bool
  | .pure _, _ => false
  | .quit, _ => false
  | .op o k, s =>
      test (.op o) s ||
        match M.step o s with
        | .ok (r, s') => execAny callee within test (k r) s'
        | .error _ => false
  | .call p k, s =>
      test (.call p) s || within p s ||
        match callee p s with
        | .done r s' => execAny callee within test (k r) s'
        | _ => false

/-- Search the events of a run for one that satisfies `test`. -/
def visitsAny (test : Event S → σ → Bool) : Nat → S.Proc → σ → Bool
  | 0, _, _ => false
  | n + 1, p, s => M.execAny (M.run n) (visitsAny test n) test (M.body p) s

/-- The search finds an event of the run. -/
theorem visits_of_any (test : Event S → σ → Bool) (n : Nat) (p : S.Proc) (s : σ)
    (h : M.visitsAny test n p s = true) : ∃ e t, M.Visits n p s e t ∧ test e t = true := by
  induction n generalizing p s with
  | zero => cases h
  | succ n ih =>
      have key : ∀ {β : Type} (x : Program S β) (u : σ),
          M.execAny (M.run n) (M.visitsAny test n) test x u = true →
            ∃ e t, M.execVisits (M.run n) (M.Visits n) x u e t ∧ test e t = true := by
        intro β x
        induction x with
        | pure a => intro _ hx; cases hx
        | quit => intro _ hx; cases hx
        | op o k ihx =>
            intro u hx
            simp only [execAny, Bool.or_eq_true] at hx
            simp only [execVisits]
            rcases hx with hx | hx
            · exact ⟨.op o, u, Or.inl ⟨rfl, rfl⟩, hx⟩
            · cases ho : M.step o u with
              | error e => rw [ho] at hx; cases hx
              | ok rs =>
                  rw [ho] at hx
                  obtain ⟨e, t, hv, ht⟩ := ihx rs.1 rs.2 hx
                  exact ⟨e, t, Or.inr hv, ht⟩
        | call q k ihx =>
            intro u hx
            simp only [execAny, Bool.or_eq_true] at hx
            simp only [execVisits]
            rcases hx with (hx | hx) | hx
            · exact ⟨.call q, u, Or.inl ⟨rfl, rfl⟩, hx⟩
            · obtain ⟨e, t, hv, ht⟩ := ih q u hx
              exact ⟨e, t, Or.inr (Or.inl hv), ht⟩
            · cases hq : M.run n q u with
              | fault e => rw [hq] at hx; cases hx
              | timeout => rw [hq] at hx; cases hx
              | done r s' =>
                  rw [hq] at hx
                  obtain ⟨e, t, hv, ht⟩ := ihx r s' hx
                  exact ⟨e, t, Or.inr (Or.inr hv), ht⟩
      exact key (M.body p) s h

/-- Refining what the callees do where they answered before keeps the outcome. -/
theorem exec_mono {callee callee' : (p : S.Proc) → σ → Outcome σ ε (S.Ret p)}
    (h : ∀ p s, callee p s ≠ .timeout → callee' p s = callee p s)
    (x : Program S α) (s : σ) (hx : M.exec callee x s ≠ .timeout) :
    M.exec callee' x s = M.exec callee x s := by
  induction x generalizing s with
  | pure a => rfl
  | quit => rfl
  | op o k ih =>
      simp only [exec] at hx ⊢
      cases hs : M.step o s with
      | ok rs => rw [hs] at hx; exact ih rs.1 rs.2 hx
      | error e => rfl
  | call p k ih =>
      simp only [exec] at hx ⊢
      have hp : callee p s ≠ .timeout := by
        intro hc
        rw [hc] at hx
        exact hx rfl
      rw [h p s hp]
      cases hc : callee p s with
      | done r s' => rw [hc] at hx; exact ih r s' hx
      | fault e => rfl
      | timeout => rfl

/-- One more level of calls changes no outcome that was reached. -/
theorem run_succ_of_ne_timeout (n : Nat) (p : S.Proc) (s : σ)
    (h : M.run n p s ≠ .timeout) : M.run (n + 1) p s = M.run n p s := by
  induction n generalizing p s with
  | zero => exact absurd rfl h
  | succ n ih => exact M.exec_mono (fun q t hq => ih q t hq) (M.body p) s h

/-- The outcome of a run that ends does not depend on the depth allowed. -/
theorem run_mono {n m : Nat} (hnm : n ≤ m) (p : S.Proc) (s : σ)
    (h : M.run n p s ≠ .timeout) : M.run m p s = M.run n p s := by
  induction hnm with
  | refl => rfl
  | @step m _ ih => rw [M.run_succ_of_ne_timeout m p s (by rw [ih]; exact h), ih]

/-- Runs of different depths do not disagree. -/
theorem run_agree {n m : Nat} {p : S.Proc} {s : σ} (hn : M.run n p s ≠ .timeout)
    (hm : M.run m p s ≠ .timeout) : M.run n p s = M.run m p s := by
  rcases Nat.le_total n m with h | h
  · exact (M.run_mono h p s hn).symm
  · exact M.run_mono h p s hm

/-- What a procedure returns is determined. -/
theorem Returns.unique {p : S.Proc} {s s₁ s₂ : σ} {r₁ r₂ : Option (S.Ret p)}
    (h₁ : M.Returns p s r₁ s₁) (h₂ : M.Returns p s r₂ s₂) : r₁ = r₂ ∧ s₁ = s₂ := by
  obtain ⟨n, hn⟩ := h₁
  obtain ⟨m, hm⟩ := h₂
  have h := M.run_agree (n := n) (m := m) (p := p) (s := s) (by simp [hn]) (by simp [hm])
  rw [hn, hm] at h
  exact ⟨by injection h, by injection h⟩

end Machine

end Procs
