import HammerJS.Procs.Program

/-!
# The outcomes of programs

What programs and procedures end with, as relations that name no depth of calls.

* `Reaches` — a program ends with a value in a state, where a relation says what
  the calls that it makes end with.
* `Machine.returns_iff` — a procedure returns what its body reaches.
* `Machine.Returns.induct` — induction on what procedures return.
-/

namespace Procs

variable {S : Interface} {σ ε α β : Type}

/-- What calls end with: the procedure, the state it is called in, what it returns
and the state it leaves. -/
abbrev Callees (S : Interface) (σ : Type) := (p : S.Proc) → σ → Option (S.Ret p) → σ → Prop

/-- Started in `s`, a program ends with `r` in `s'`, where calls end as `T` says. -/
def Reaches (step : (o : S.Op) → σ → Except ε (S.Res o × σ)) (T : Callees S σ) :
    Program S α → σ → Option α → σ → Prop
  | .pure a, s, r, s' => r = some a ∧ s' = s
  | .quit, s, r, s' => r = none ∧ s' = s
  | .op o k, s, r, s' => ∃ a t, step o s = .ok (a, t) ∧ Reaches step T (k a) t r s'
  | .call p k, s, r, s' => ∃ a t, T p s a t ∧ Reaches step T (k a) t r s'

section Rules

variable {step : (o : S.Op) → σ → Except ε (S.Res o × σ)} {T T' : Callees S σ} {s s' : σ}

@[simp] theorem reaches_pure {a : α} {r : Option α} :
    Reaches step T (pure a : Program S α) s r s' ↔ r = some a ∧ s' = s := Iff.rfl

@[simp] theorem reaches_quit {r : Option α} :
    Reaches step T (.quit : Program S α) s r s' ↔ r = none ∧ s' = s := Iff.rfl

@[simp] theorem reaches_perform {o : S.Op} {r : Option (S.Res o)} :
    Reaches step T (.perform o) s r s' ↔ ∃ a, step o s = .ok (a, s') ∧ r = some a := by
  constructor
  · rintro ⟨a, t, h, rfl, rfl⟩
    exact ⟨a, h, rfl⟩
  · rintro ⟨a, h, rfl⟩
    exact ⟨a, s', h, rfl, rfl⟩

/-- A sequence ends where its rest does, unless its first part quits. -/
theorem reaches_bind {x : Program S α} {f : α → Program S β} {r : Option β} :
    Reaches step T (x >>= f) s r s' ↔
      (∃ a t, Reaches step T x s (some a) t ∧ Reaches step T (f a) t r s') ∨
        r = none ∧ Reaches step T x s none s' := by
  change Reaches step T (x.bind f) s r s' ↔ _
  induction x generalizing s with
  | pure a => simp [Program.bind, Reaches]
  | quit => simp [Program.bind, Reaches]
  | op o k ih =>
      simp only [Program.bind, Reaches, ih]
      constructor
      · rintro ⟨a, t, h, ⟨b, u, hk, hf⟩ | ⟨hr, hk⟩⟩
        · exact Or.inl ⟨b, u, ⟨a, t, h, hk⟩, hf⟩
        · exact Or.inr ⟨hr, a, t, h, hk⟩
      · rintro (⟨b, u, ⟨a, t, h, hk⟩, hf⟩ | ⟨hr, a, t, h, hk⟩)
        · exact ⟨a, t, h, Or.inl ⟨b, u, hk, hf⟩⟩
        · exact ⟨a, t, h, Or.inr ⟨hr, hk⟩⟩
  | call p k ih =>
      simp only [Program.bind, Reaches, ih]
      constructor
      · rintro ⟨a, t, h, ⟨b, u, hk, hf⟩ | ⟨hr, hk⟩⟩
        · exact Or.inl ⟨b, u, ⟨a, t, h, hk⟩, hf⟩
        · exact Or.inr ⟨hr, a, t, h, hk⟩
      · rintro (⟨b, u, ⟨a, t, h, hk⟩, hf⟩ | ⟨hr, a, t, h, hk⟩)
        · exact ⟨a, t, h, Or.inl ⟨b, u, hk, hf⟩⟩
        · exact ⟨a, t, h, Or.inr ⟨hr, hk⟩⟩

/-- Where calls may end in more ways, so may programs. -/
theorem Reaches.mono (hT : ∀ p s r s', T p s r s' → T' p s r s') {x : Program S α}
    {r : Option α} (h : Reaches step T x s r s') : Reaches step T' x s r s' := by
  induction x generalizing s with
  | pure a => exact h
  | quit => exact h
  | op o k ih =>
      obtain ⟨a, t, ho, h⟩ := h
      exact ⟨a, t, ho, ih a h⟩
  | call p k ih =>
      obtain ⟨a, t, hp, h⟩ := h
      exact ⟨a, t, hT p s a t hp, ih a h⟩

/-- What every command and every call respects relates the two ends. -/
theorem Reaches.relates {R : σ → σ → Prop} (hrefl : ∀ s, R s s)
    (htrans : ∀ s t u, R s t → R t u → R s u)
    (hstep : ∀ o s a s', step o s = .ok (a, s') → R s s')
    (hT : ∀ p s r s', T p s r s' → R s s') {x : Program S α} {r : Option α}
    (h : Reaches step T x s r s') : R s s' := by
  induction x generalizing s with
  | pure a =>
      obtain ⟨-, rfl⟩ := h
      exact hrefl s'
  | quit =>
      obtain ⟨-, rfl⟩ := h
      exact hrefl s'
  | op o k ih =>
      obtain ⟨a, t, ho, h⟩ := h
      exact htrans s t s' (hstep o s a t ho) (ih a h)
  | call p k ih =>
      obtain ⟨a, t, hp, h⟩ := h
      exact htrans s t s' (hT p s a t hp) (ih a h)

end Rules

namespace Machine

variable {M : Machine S σ ε}

theorem reaches_of_exec {T : Callees S σ} {n : Nat}
    (hT : ∀ p s r s', M.run n p s = .done r s' → T p s r s') {x : Program S α} {s s' : σ}
    {r : Option α} (h : M.exec (M.run n) x s = .done r s') : Reaches M.step T x s r s' := by
  induction x generalizing s with
  | pure a =>
      cases h
      exact ⟨rfl, rfl⟩
  | quit =>
      cases h
      exact ⟨rfl, rfl⟩
  | op o k ih =>
      simp only [exec] at h
      cases ho : M.step o s with
      | error e => rw [ho] at h; cases h
      | ok a => rw [ho] at h; exact ⟨a.1, a.2, ho, ih a.1 h⟩
  | call p k ih =>
      simp only [exec] at h
      cases hp : M.run n p s with
      | fault e => rw [hp] at h; cases h
      | timeout => rw [hp] at h; cases h
      | done a t => rw [hp] at h; exact ⟨a, t, hT p s a t hp, ih a h⟩

theorem exec_of_reaches {x : Program S α} {s s' : σ} {r : Option α}
    (h : Reaches M.step M.Returns x s r s') : ∃ n, M.exec (M.run n) x s = .done r s' := by
  induction x generalizing s with
  | pure a =>
      obtain ⟨rfl, rfl⟩ := h
      exact ⟨0, rfl⟩
  | quit =>
      obtain ⟨rfl, rfl⟩ := h
      exact ⟨0, rfl⟩
  | op o k ih =>
      obtain ⟨a, t, ho, h⟩ := h
      obtain ⟨n, hn⟩ := ih a h
      exact ⟨n, by simp only [exec, ho]; exact hn⟩
  | call p k ih =>
      obtain ⟨a, t, ⟨m, hm⟩, h⟩ := h
      obtain ⟨n, hn⟩ := ih a h
      -- the deeper of the two depths serves both the call and the rest
      have hp : M.run (max m n) p s = .done a t := by
        rw [M.run_mono (Nat.le_max_left m n) p s (by simp [hm]), hm]
      have hk : M.exec (M.run (max m n)) (k a) t = .done r s' := by
        rw [M.exec_mono (fun q u hq => M.run_mono (Nat.le_max_right m n) q u hq) (k a) t (by simp [hn]),
          hn]
      exact ⟨max m n, by simp only [exec, hp]; exact hk⟩

/-- **A procedure returns what its body reaches.** -/
theorem returns_iff {p : S.Proc} {s s' : σ} {r : Option (S.Ret p)} :
    M.Returns p s r s' ↔ Reaches M.step M.Returns (M.body p) s r s' := by
  constructor
  · rintro ⟨n, h⟩
    cases n with
    | zero => cases h
    | succ n => exact reaches_of_exec (fun p s r s' h => ⟨n, h⟩) h
  · intro h
    obtain ⟨n, hn⟩ := exec_of_reaches h
    exact ⟨n + 1, hn⟩

/-- A run whose calls may nest once less deeply. -/
theorem reaches_of_run {n : Nat} {p : S.Proc} {s s' : σ} {r : Option (S.Ret p)}
    (h : M.run (n + 1) p s = .done r s') :
    Reaches M.step (fun q t a u => M.run n q t = .done a u) (M.body p) s r s' :=
  reaches_of_exec (fun _ _ _ _ hq => hq) h

/-- What every body keeps true of what its calls return is true of what is returned. -/
theorem Returns.induct {T : Callees S σ}
    (hT : ∀ p s r s', Reaches M.step (fun p s r s' => M.Returns p s r s' ∧ T p s r s')
      (M.body p) s r s' → T p s r s')
    {p : S.Proc} {s s' : σ} {r : Option (S.Ret p)} (h : M.Returns p s r s') : T p s r s' := by
  obtain ⟨n, h⟩ := h
  induction n generalizing p s s' with
  | zero => cases h
  | succ n ih => exact hT p s r s' (reaches_of_exec (fun q t a u hq => ⟨⟨n, hq⟩, ih hq⟩) h)

/-- Two machines that agree on commands return the same where the bodies of one keep
to what the other returns. -/
theorem Returns.of_bodies {N : Machine S σ ε} (hstep : N.step = M.step)
    (hbody : ∀ p s r s', Reaches M.step N.Returns (M.body p) s r s' →
      Reaches M.step N.Returns (N.body p) s r s')
    {p : S.Proc} {s s' : σ} {r : Option (S.Ret p)} (h : M.Returns p s r s') :
    N.Returns p s r s' := by
  refine h.induct fun p s r s' h => ?_
  rw [returns_iff, hstep]
  exact hbody p s r s' (h.mono fun q t a u hq => hq.2)

end Machine

end Procs
