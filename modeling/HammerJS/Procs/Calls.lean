import HammerJS.Procs.Logic
import HammerJS.Procs.Reaches

/-!
# The calls of a run

The calls that the code of a procedure makes itself, and the calls that are made in a
whole run.

* `Machine.Calls` — a program itself calls a procedure.
* `Machine.issues_bind`, `Machine.calls_of_silent` — it does so in one of its parts.
* `Machine.visits_induct` — induction along the calls of a run.
-/

namespace Procs

/-- The program makes no calls. -/
def Program.Silent {S : Interface} {α : Type} : Program S α → Prop
  | .pure _ => True
  | .quit => True
  | .op _ k => ∀ a, Silent (k a)
  | .call _ _ => False

namespace Program

variable {S : Interface} {α β : Type}

theorem silent_perform (o : S.Op) : (perform o).Silent := fun _ => trivial

theorem Silent.bind {x : Program S α} {f : α → Program S β} (hx : x.Silent)
    (hf : ∀ a, (f a).Silent) : (x >>= f).Silent := by
  change (x.bind f).Silent
  induction x with
  | pure a => exact hf a
  | quit => trivial
  | op o k ih => exact fun a => ih a (hx a)
  | call p k ih => exact hx.elim

end Program

namespace Machine

variable {S : Interface} {σ ε α β : Type} {M : Machine S σ ε}

/-- The program `x`, started in `s`, itself calls `q` in the state `t`. -/
abbrev Calls (M : Machine S σ ε) (x : Program S α) (s : σ) (q : S.Proc) (t : σ) : Prop :=
  M.Issues (fun _ => False) x s (.call q) t

section Rules

variable {s t : σ} {q : S.Proc}

theorem calls_invoke {p : S.Proc} : M.Calls (.invoke p) s q t ↔ q = p ∧ t = s := by
  constructor
  · rintro (⟨h, rfl⟩ | ⟨a, u, -, h⟩)
    · cases h
      exact ⟨rfl, rfl⟩
    · exact h.elim
  · rintro ⟨rfl, rfl⟩
    exact Or.inl ⟨rfl, rfl⟩

/-- A sequence issues the events of its first part, and those of its rest where the first part
ends. -/
theorem issues_bind {e : Event S} {x : Program S α} {f : α → Program S β}
    (h : M.Issues (fun _ => False) (x >>= f) s e t) : M.Issues (fun _ => False) x s e t ∨
      ∃ a u, Reaches M.step M.Returns x s (some a) u ∧
        M.Issues (fun _ => False) (f a) u e t := by
  change M.Issues _ (x.bind f) s e t at h
  induction x generalizing s with
  | pure a => exact Or.inr ⟨a, s, ⟨rfl, rfl⟩, h⟩
  | quit => exact h.elim
  | op o k ih =>
      rcases h with h | ⟨halive, a, u, ho, h⟩
      · exact Or.inl (Or.inl h)
      · rcases ih a h with h | ⟨b, v, hx, h⟩
        · exact Or.inl (Or.inr ⟨halive, a, u, ho, h⟩)
        · exact Or.inr ⟨b, v, ⟨a, u, ho, hx⟩, h⟩
  | call p k ih =>
      rcases h with h | ⟨a, u, hp, h⟩
      · exact Or.inl (Or.inl h)
      · rcases ih a h with h | ⟨b, v, hx, h⟩
        · exact Or.inl (Or.inr ⟨a, u, hp, h⟩)
        · exact Or.inr ⟨b, v, ⟨a, u, hp.returns, hx⟩, h⟩

/-- What its first part issues a sequence issues. -/
theorem Issues.left {dead : S.Op → Prop} {e : Event S} {x : Program S α} {f : α → Program S β}
    (h : M.Issues dead x s e t) : M.Issues dead (x >>= f) s e t := by
  change M.Issues dead (x.bind f) s e t
  induction x generalizing s with
  | pure a => exact h.elim
  | quit => exact h.elim
  | op o k ih =>
      rcases h with h | ⟨halive, a, u, ho, h⟩
      · exact Or.inl h
      · exact Or.inr ⟨halive, a, u, ho, ih a h⟩
  | call p k ih =>
      rcases h with h | ⟨a, u, hp, h⟩
      · exact Or.inl h
      · exact Or.inr ⟨a, u, hp, ih a h⟩

theorem not_calls_of_silent {x : Program S α} (hx : x.Silent) : ¬ M.Calls x s q t := by
  induction x generalizing s with
  | pure a => exact fun h => h
  | quit => exact fun h => h
  | op o k ih =>
      rintro (⟨h, -⟩ | ⟨-, a, u, -, h⟩)
      · cases h
      · exact ih a (hx a) h
  | call p k ih => exact hx.elim

/-- Behind a part that makes no calls. -/
theorem calls_of_silent {x : Program S α} {f : α → Program S β} (hx : x.Silent)
    (h : M.Calls (x >>= f) s q t) :
    ∃ a u, Reaches M.step M.Returns x s (some a) u ∧ M.Calls (f a) u q t := by
  rcases issues_bind h with h | h
  · exact absurd h (not_calls_of_silent hx)
  · exact h

end Rules

/-- What a program ends with, it reaches. -/
theorem Finishes.reaches {dead : S.Op → Prop} {x : Program S α} {s s' : σ} {r : Option α}
    (h : M.Finishes dead x s r s') : Reaches M.step M.Returns x s r s' := by
  induction x generalizing s with
  | pure a => exact h
  | quit => exact h
  | op o k ih =>
      obtain ⟨-, a, t, ho, h⟩ := h
      exact ⟨a, t, ho, ih a h⟩
  | call p k ih =>
      obtain ⟨a, t, hp, h⟩ := h
      exact ⟨a, t, hp.returns, ih a h⟩

/-- An event of a run is issued by its own code, or within a call of it. -/
theorem issues_of_visits {n : Nat} {p : S.Proc} {s t : σ} {e : Event S}
    (h : M.Visits (n + 1) p s e t) : M.Issues (fun _ => False) (M.body p) s e t ∨
      ∃ q u, M.Calls (M.body p) s q u ∧ M.Visits n q u e t := by
  have key : ∀ {β : Type} (x : Program S β) (v : σ), M.execVisits (M.run n) (M.Visits n) x v e t →
      M.Issues (fun _ => False) x v e t ∨ ∃ q u, M.Calls x v q u ∧ M.Visits n q u e t := by
    intro β x
    induction x with
    | pure a => intro v h; exact h.elim
    | quit => intro v h; exact h.elim
    | op o k ih =>
        intro v h
        simp only [execVisits] at h
        rcases h with h | h
        · exact Or.inl (Or.inl h)
        · cases ho : M.step o v with
          | error e => rw [ho] at h; exact h.elim
          | ok r =>
              rw [ho] at h
              rcases ih r.1 r.2 h with h | ⟨q, u, hq, h⟩
              · exact Or.inl (Or.inr ⟨id, r.1, r.2, ho, h⟩)
              · exact Or.inr ⟨q, u, Or.inr ⟨id, r.1, r.2, ho, hq⟩, h⟩
    | call p' k ih =>
        intro v h
        simp only [execVisits] at h
        rcases h with h | h | h
        · exact Or.inl (Or.inl h)
        · exact Or.inr ⟨p', v, Or.inl ⟨rfl, rfl⟩, h⟩
        · cases hr : M.run n p' v with
          | fault e => rw [hr] at h; exact h.elim
          | timeout => rw [hr] at h; exact h.elim
          | done r v' =>
              rw [hr] at h
              have hreturns : M.ReturnsWithout (fun _ => False) p' v r v' :=
                ⟨n, hr, fun _ _ _ h => h⟩
              rcases ih r v' h with h | ⟨q, u, hq, h⟩
              · exact Or.inl (Or.inr ⟨r, v', hreturns, h⟩)
              · exact Or.inr ⟨q, u, Or.inr ⟨r, v', hreturns, hq⟩, h⟩
  exact key (M.body p) s h

/-- **Induction along the calls.**  What passes from every call to the calls that it makes
itself, passes from the first call of a run to all others. -/
theorem visits_induct {P : S.Proc → σ → Prop}
    (hP : ∀ p s q t, P p s → M.Calls (M.body p) s q t → P q t)
    {n : Nat} {p q : S.Proc} {s t : σ} (hp : P p s) (h : M.Visits n p s (.call q) t) : P q t := by
  induction n generalizing p s with
  | zero => exact h.elim
  | succ n ih =>
      rcases issues_of_visits h with h | ⟨q', u, hq', h⟩
      · exact hP p s q t hp h
      · exact ih (hP p s q' u hp hq') h

end Machine

end Procs
