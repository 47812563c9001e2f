import HammerJS.Procs.Total

/-!
# Routines that may stop

`Yields x s Q` says of a routine in `StateT σ (Except ε)` that, started in `s`, it
answers and leaves a state that satisfy `Q`, if it does not stop with an error.

* One equation for each way to build a routine, for `simp`.
* `Yields.mono`, `Yields.of_eq` — rules for the condition.
* `Grows` — a routine never makes a number of the state smaller.
-/

namespace Procs

variable {σ ε α β : Type}

/-- From `s`, the routine `x` stops, or its answer and its last state satisfy `Q`. -/
def Yields (x : StateT σ (Except ε) α) (s : σ) (Q : α → σ → Prop) : Prop :=
  ∀ a s', x s = .ok (a, s') → Q a s'

variable {x : StateT σ (Except ε) α} {s : σ} {Q Q' : α → σ → Prop}

theorem Yields.of_eq {a : α} {s' : σ} (h : Yields x s Q) (hx : x s = .ok (a, s')) : Q a s' :=
  h a s' hx

/-- A weaker condition is met more often. -/
theorem Yields.mono (h : Yields x s Q) (hq : ∀ a s', Q a s' → Q' a s') : Yields x s Q' :=
  fun a s' hx => hq a s' (h a s' hx)

@[simp] theorem yields_pure (a : α) :
    Yields (pure a : StateT σ (Except ε) α) s Q ↔ Q a s := by
  constructor
  · exact fun h => h a s rfl
  · rintro h b t hx
    cases hx
    exact h

@[simp] theorem yields_bind (x : StateT σ (Except ε) α) (f : α → StateT σ (Except ε) β)
    (Q : β → σ → Prop) :
    Yields (x >>= f) s Q ↔ Yields x s fun a s' => Yields (f a) s' Q := by
  have hrun : (x >>= f) s = (x s >>= fun r => f r.1 r.2) := rfl
  constructor
  · intro h a s' hx b t hb
    exact h b t (by rw [hrun, hx]; exact hb)
  · intro h b t hb
    rw [hrun] at hb
    cases hx : x s with
    | error e => rw [hx] at hb; cases hb
    | ok r => rw [hx] at hb; exact h r.1 r.2 hx b t hb

@[simp] theorem yields_map (f : α → β) (x : StateT σ (Except ε) α) (Q : β → σ → Prop) :
    Yields (f <$> x) s Q ↔ Yields x s fun a s' => Q (f a) s' := by
  rw [← bind_pure_comp]
  simp only [yields_bind, yields_pure]

@[simp] theorem yields_get {Q : σ → σ → Prop} :
    Yields (get : StateT σ (Except ε) σ) s Q ↔ Q s s :=
  yields_pure (s := s) (Q := Q) s

@[simp] theorem yields_modify (f : σ → σ) {Q : Unit → σ → Prop} :
    Yields (modify f : StateT σ (Except ε) Unit) s Q ↔ Q () (f s) :=
  yields_pure (s := f s) (Q := Q) ()

@[simp] theorem yields_throw (e : ε) :
    Yields (throw e : StateT σ (Except ε) α) s Q ↔ True := by
  constructor
  · exact fun _ => trivial
  · rintro - a t hx
    cases hx

theorem yields_ite (c : Prop) [Decidable c] (x y : StateT σ (Except ε) α) :
    Yields (if c then x else y) s Q ↔ if c then Yields x s Q else Yields y s Q := by
  split <;> rfl

/-! ## What a routine does not make smaller -/

/-- Whatever state the routine starts in, it does not make `f` smaller. -/
def Grows (f : σ → Nat) (x : StateT σ (Except ε) α) : Prop :=
  ∀ s, Yields x s fun _ s' => f s ≤ f s'

namespace Grows

variable {f : σ → Nat} {x y : StateT σ (Except ε) α}

theorem pure (a : α) : Grows f (pure a : StateT σ (Except ε) α) :=
  fun s => (yields_pure a).mpr (Nat.le_refl (f s))

theorem get : Grows f (get : StateT σ (Except ε) σ) :=
  fun s => yields_get.mpr (Nat.le_refl (f s))

theorem modify {g : σ → σ} (h : ∀ s, f s ≤ f (g s)) :
    Grows f (modify g : StateT σ (Except ε) Unit) :=
  fun s => (yields_modify g).mpr (h s)

theorem throw (e : ε) : Grows f (throw e : StateT σ (Except ε) α) :=
  fun _ => (yields_throw e).mpr trivial

theorem bind {g : α → StateT σ (Except ε) β} (hx : Grows f x) (hg : ∀ a, Grows f (g a)) :
    Grows f (x >>= g) := by
  intro s
  rw [yields_bind]
  exact (hx s).mono fun a t ht => (hg a t).mono fun _ _ h => Nat.le_trans ht h

theorem ite {c : Prop} [Decidable c] (hx : Grows f x) (hy : Grows f y) :
    Grows f (if c then x else y) := by
  by_cases hc : c
  · rw [if_pos hc]
    exact hx
  · rw [if_neg hc]
    exact hy

theorem le (h : Grows f x) {s s' : σ} {a : α} (hx : x s = .ok (a, s')) : f s ≤ f s' :=
  (h s).of_eq hx

end Grows

end Procs
