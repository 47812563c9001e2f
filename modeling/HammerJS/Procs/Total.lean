import Mathlib.Tactic.Common

/-!
# Routines that succeed

A routine in `StateT σ (Except ε)` passes a state along and may stop with an
error.  `Succeeds x s Q` says that `x` started in `s` does not stop, and that its
answer and the state it leaves satisfy `Q`.

* One equation for each way to build a routine, for `simp`.
* `Succeeds.mono`, `Succeeds.and` — rules for the condition.
-/

namespace Procs

variable {σ ε α β : Type}

/-- From `s`, the routine `x` succeeds with an answer and a state that satisfy `Q`. -/
def Succeeds (x : StateT σ (Except ε) α) (s : σ) (Q : α → σ → Prop) : Prop :=
  ∃ a s', x s = .ok (a, s') ∧ Q a s'

variable {x : StateT σ (Except ε) α} {s : σ} {Q Q' : α → σ → Prop}

@[simp] theorem succeeds_pure (a : α) :
    Succeeds (pure a : StateT σ (Except ε) α) s Q ↔ Q a s := by
  constructor
  · rintro ⟨b, t, h, hq⟩
    cases h
    exact hq
  · exact fun h => ⟨a, s, rfl, h⟩

@[simp] theorem succeeds_bind (x : StateT σ (Except ε) α) (f : α → StateT σ (Except ε) β)
    (Q : β → σ → Prop) :
    Succeeds (x >>= f) s Q ↔ Succeeds x s fun a s' => Succeeds (f a) s' Q := by
  have hrun : (x >>= f) s = (x s >>= fun r => f r.1 r.2) := rfl
  constructor
  · rintro ⟨b, t, h, hq⟩
    rw [hrun] at h
    cases hx : x s with
    | error e => rw [hx] at h; cases h
    | ok r => rw [hx] at h; exact ⟨r.1, r.2, hx, b, t, h, hq⟩
  · rintro ⟨a, s', hx, b, t, h, hq⟩
    exact ⟨b, t, by rw [hrun, hx]; exact h, hq⟩

@[simp] theorem succeeds_map (f : α → β) (x : StateT σ (Except ε) α) (Q : β → σ → Prop) :
    Succeeds (f <$> x) s Q ↔ Succeeds x s fun a s' => Q (f a) s' := by
  rw [← bind_pure_comp]
  simp only [succeeds_bind, succeeds_pure]

@[simp] theorem succeeds_get {Q : σ → σ → Prop} :
    Succeeds (get : StateT σ (Except ε) σ) s Q ↔ Q s s :=
  succeeds_pure (ε := ε) (s := s) (Q := Q) s

@[simp] theorem succeeds_modify (f : σ → σ) {Q : Unit → σ → Prop} :
    Succeeds (modify f : StateT σ (Except ε) Unit) s Q ↔ Q () (f s) :=
  succeeds_pure (ε := ε) (s := f s) (Q := Q) ()

@[simp] theorem succeeds_throw (e : ε) :
    Succeeds (throw e : StateT σ (Except ε) α) s Q ↔ False := by
  constructor
  · rintro ⟨a, t, h, -⟩
    cases h
  · exact False.elim

theorem succeeds_ite (c : Prop) [Decidable c] (x y : StateT σ (Except ε) α) :
    Succeeds (if c then x else y) s Q ↔ if c then Succeeds x s Q else Succeeds y s Q := by
  split <;> rfl

/-- A weaker condition is met more often. -/
theorem Succeeds.mono (h : Succeeds x s Q) (hq : ∀ a s', Q a s' → Q' a s') :
    Succeeds x s Q' := by
  obtain ⟨a, s', hx, ha⟩ := h
  exact ⟨a, s', hx, hq a s' ha⟩

/-- What succeeds does not fail. -/
theorem Succeeds.of_eq {a : α} {s' : σ} (h : Succeeds x s Q) (hx : x s = .ok (a, s')) :
    Q a s' := by
  obtain ⟨b, t, hx', hq⟩ := h
  rw [hx] at hx'
  cases hx'
  exact hq

end Procs
