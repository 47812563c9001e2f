import HammerJS.Procs.Program

/-!
# Rules for programs with procedures

The proof rules for `Procs.Program`, over an arbitrary interface and machine.

* `Contract` and `Machine.wp` — what is expected of each procedure, and the
  weakest condition under which a program meets a postcondition when the
  procedures it calls meet theirs.
* `Machine.run_sound` — if every body meets its contract, every run does, unless
  it issues a command at which it is given up.
* `Machine.run_total` — if moreover every call made decreases a measure, every
  run ends, within a depth that the measure bounds.
* `Machine.run_blame` — a run that faults went through an event that excuses the
  fault; `Machine.visits_fault` is the converse.
* `Machine.Issues` — the events that the code of one call issues itself; by
  `Machine.visits_pre` and `Machine.Respects.issues` every call of a run meets its
  precondition, and is related to the call that issues it.
* `Machine.run_relates`, `Machine.visits_relates` — what every command of a machine
  preserves is preserved by every run.
* `Machine.run_keeps`, `Machine.visits_keeps`, `Machine.visits_of_broken` — what the
  commands of one run preserve, and what they break.
-/

namespace Procs

/-- What is expected of the procedures of an interface. -/
structure Contract (S : Interface) (σ ε : Type) where
  /-- What a caller guarantees. -/
  pre : S.Proc → σ → Prop
  /-- What the procedure guarantees, of the state it was called in, its outcome
  and the state it left. -/
  post : (p : S.Proc) → σ → Option (S.Ret p) → σ → Prop
  /-- The faults that an event excuses, of the state it occurred in. -/
  excuses : Event S → σ → ε → Prop
  /-- The faults that a command counts as in a state, although it may succeed. -/
  forbids : S.Op → σ → ε → Prop
  /-- The commands at which a run is given up: nothing is claimed of a run that
  issues one. -/
  dead : S.Op → σ → Prop

namespace Contract

variable {S : Interface} {σ ε : Type}

/-- The contract under which only calls that `R` allows may be made. -/
def calling (C : Contract S σ ε) (R : S.Proc → σ → Prop) : Contract S σ ε :=
  { C with pre := fun p s => C.pre p s ∧ R p s }

/-- What two contracts say of the same calls; faults are those of the first. -/
def and (C D : Contract S σ ε) : Contract S σ ε :=
  { C with
    pre := fun p s => C.pre p s ∧ D.pre p s
    post := fun p s r s' => C.post p s r s' ∧ D.post p s r s' }

/-- A contract that gives no run up. -/
def NeverDead (C : Contract S σ ε) : Prop := ∀ o s, ¬ C.dead o s

end Contract

/-- The outcome of a run that was not cut short. -/
def Outcome.Ends {σ ε α : Type} : Outcome σ ε α → Prop
  | .timeout => False
  | _ => True

namespace Machine

variable {S : Interface} {σ ε α β : Type} (M : Machine S σ ε)

/-- The weakest condition on the state for a program to meet `Q`, when the
procedures it calls meet the contract `C`, and every fault of its own commands,
and every fault that one of them counts as, is excused by the command or is among
`own`. -/
def wp (C : Contract S σ ε) (own : ε → Prop) :
    Program S α → (Option α → σ → Prop) → σ → Prop
  | .pure a, Q, s => Q (some a) s
  | .quit, Q, s => Q none s
  | .op o k, Q, s =>
      ¬ C.dead o s →
        (∀ e, C.forbids o s e → C.excuses (.op o) s e ∨ own e) ∧
        match M.step o s with
        | .ok (r, s') => wp C own (k r) Q s'
        | .error e => C.excuses (.op o) s e ∨ own e
  | .call p k, Q, s =>
      C.pre p s ∧ ∀ r s', M.Returns p s r s' → C.post p s r s' → wp C own (k r) Q s'

variable {M} {C : Contract S σ ε} {own : ε → Prop} {Q Q' : Option α → σ → Prop} {s : σ}

@[simp] theorem wp_pure (a : α) :
    M.wp C own (pure a : Program S α) Q s = Q (some a) s := rfl

@[simp] theorem wp_quit : M.wp C own (.quit : Program S α) Q s = Q none s := rfl

theorem wp_perform (o : S.Op) {Q : Option (S.Res o) → σ → Prop} :
    M.wp C own (.perform o) Q s =
      (¬ C.dead o s →
        (∀ e, C.forbids o s e → C.excuses (.op o) s e ∨ own e) ∧
        match M.step o s with
        | .ok (r, s') => Q (some r) s'
        | .error e => C.excuses (.op o) s e ∨ own e) := by
  simp only [Program.perform, wp]

/-- What the rest of a sequence must meet. -/
def andThen (M : Machine S σ ε) (C : Contract S σ ε) (own : ε → Prop) (f : α → Program S β)
    (Q : Option β → σ → Prop) : Option α → σ → Prop
  | some a, s => M.wp C own (f a) Q s
  | none, s => Q none s

@[simp] theorem andThen_some (f : α → Program S β) (Q : Option β → σ → Prop) (a : α) :
    andThen M C own f Q (some a) s = M.wp C own (f a) Q s := rfl

@[simp] theorem andThen_none (f : α → Program S β) (Q : Option β → σ → Prop) :
    andThen M C own f Q none s = Q none s := rfl

/-- The condition for a sequence is the condition for its first part to reach
the condition for the rest. -/
@[simp] theorem wp_bind (x : Program S α) (f : α → Program S β) (Q : Option β → σ → Prop) :
    M.wp C own (x >>= f) Q s = M.wp C own x (andThen M C own f Q) s := by
  change M.wp C own (x.bind f) Q s = _
  induction x generalizing s with
  | pure a => rfl
  | quit => rfl
  | op o k ih =>
      simp only [Program.bind, wp]
      cases M.step o s with
      | ok rs => simp only [ih]
      | error e => rfl
  | call p k ih => simp only [Program.bind, wp, ih]

@[simp] theorem wp_ite (c : Prop) [Decidable c] (x y : Program S α) :
    M.wp C own (if c then x else y) Q s =
      if c then M.wp C own x Q s else M.wp C own y Q s := by
  split <;> rfl

/-- A weaker postcondition is met more often. -/
theorem wp_mono {x : Program S α} (h : ∀ r s', Q r s' → Q' r s') (hx : M.wp C own x Q s) :
    M.wp C own x Q' s := by
  induction x generalizing s with
  | pure a => exact h _ _ hx
  | quit => exact h _ _ hx
  | op o k ih =>
      simp only [wp] at hx ⊢
      intro hd
      obtain ⟨hforbids, hx⟩ := hx hd
      refine ⟨hforbids, ?_⟩
      cases hs : M.step o s with
      | ok rs => rw [hs] at hx; exact ih rs.1 hx
      | error e => rw [hs] at hx; exact hx
  | call p k ih => exact ⟨hx.1, fun r s' hr hp => ih r (hx.2 r s' hr hp)⟩

/-- A postcondition for every value of some auxiliary variables. -/
theorem wp_forall {ι : Sort*} [Nonempty ι] {Q : ι → Option α → σ → Prop} {x : Program S α}
    (h : ∀ i, M.wp C own x (Q i) s) : M.wp C own x (fun r s' => ∀ i, Q i r s') s := by
  induction x generalizing s with
  | pure a => exact h
  | quit => exact h
  | op o k ih =>
      simp only [wp] at h ⊢
      intro hd
      refine ⟨(h (Classical.arbitrary ι) hd).1, ?_⟩
      have h := fun i => (h i hd).2
      cases hs : M.step o s with
      | ok rs => rw [hs] at h; exact ih rs.1 h
      | error e => rw [hs] at h; exact h (Classical.arbitrary ι)
  | call p k ih =>
      exact ⟨(h (Classical.arbitrary ι)).1, fun r s' hr hp => ih r fun i => (h i).2 r s' hr hp⟩

/-- Nothing is asked of a program when nothing is asked of its calls and its
faults, and nothing is promised. -/
theorem wp_trivial (hpre : ∀ p s, C.pre p s) (hown : ∀ e, own e) (x : Program S α) :
    M.wp C own x (fun _ _ => True) s := by
  induction x generalizing s with
  | pure a => trivial
  | quit => trivial
  | op o k ih =>
      simp only [wp]
      intro _
      refine ⟨fun e _ => Or.inr (hown e), ?_⟩
      cases M.step o s with
      | ok rs => exact ih rs.1
      | error e => exact Or.inr (hown e)
  | call p k ih => exact ⟨hpre p s, fun r _ _ _ => ih r⟩

/-! ## Runs meet the contracts their bodies meet -/

/-- Every body meets its contract. -/
def Correct (M : Machine S σ ε) (C : Contract S σ ε) : Prop :=
  ∀ p s, C.pre p s → M.wp C (C.excuses (.call p) s) (M.body p) (C.post p s) s

/-- Some command of a program is one at which its run is given up. -/
def ExecDead (M : Machine S σ ε) (C : Contract S σ ε) (n : Nat) (x : Program S α) (s : σ) : Prop :=
  ∃ o t, M.execVisits (M.run n) (M.Visits n) x s (.op o) t ∧ C.dead o t

/-- Some command of a run is one at which it is given up. -/
def Dead (M : Machine S σ ε) (C : Contract S σ ε) (n : Nat) (p : S.Proc) (s : σ) : Prop :=
  ∃ o t, M.Visits n p s (.op o) t ∧ C.dead o t

/-- A program meets what its weakest precondition promises, when the callees
meet `C` wherever its precondition holds. -/
theorem exec_sound {n : Nat}
    (hc : ∀ p s, C.pre p s → ¬ Dead M C n p s → ∀ r s', M.run n p s = .done r s' → C.post p s r s')
    (x : Program S α) (h : M.wp C own x Q s) (hd : ¬ ExecDead M C n x s)
    {r : Option α} {s' : σ} (hx : M.exec (M.run n) x s = .done r s') : Q r s' := by
  induction x generalizing s with
  | pure a => cases hx; exact h
  | quit => cases hx; exact h
  | op o k ih =>
      simp only [wp] at h
      simp only [exec] at hx
      have hd' : ¬ C.dead o s := fun hdead =>
        hd ⟨o, s, by simp [execVisits], hdead⟩
      cases ho : M.step o s with
      | error e => rw [ho] at hx; cases hx
      | ok rs =>
          have h := (h hd').2
          rw [ho] at h hx
          refine ih rs.1 h ?_ hx
          rintro ⟨o', t, hv, hdead⟩
          exact hd ⟨o', t, by simp only [execVisits, ho]; exact Or.inr hv, hdead⟩
  | call p k ih =>
      obtain ⟨hpre, hk⟩ := h
      simp only [exec] at hx
      have hd' : ¬ Dead M C n p s := by
        rintro ⟨o, t, hv, hdead⟩
        exact hd ⟨o, t, by simp only [execVisits]; exact Or.inr (Or.inl hv), hdead⟩
      cases ho : M.run n p s with
      | fault e => rw [ho] at hx; cases hx
      | timeout => rw [ho] at hx; cases hx
      | done r1 s1 =>
          rw [ho] at hx
          refine ih r1 (hk r1 s1 ⟨n, ho⟩ (hc p s hpre hd' r1 s1 ho)) ?_ hx
          rintro ⟨o, t, hv, hdead⟩
          exact hd ⟨o, t, by simp only [execVisits, ho]; exact Or.inr (Or.inr hv), hdead⟩

/-- **Soundness.**  If every body meets its contract, so does every run that is
not given up, however deep its calls may nest. -/
theorem run_sound (hbody : Correct M C) {n : Nat} {p : S.Proc} {s s' : σ}
    {r : Option (S.Ret p)} (hp : C.pre p s) (hd : ¬ Dead M C n p s)
    (h : M.run n p s = .done r s') : C.post p s r s' := by
  induction n generalizing p s s' with
  | zero => cases h
  | succ n ih => exact exec_sound (fun q t hq hd r1 t1 => ih hq hd) (M.body p) (hbody p s hp) hd h

/-- Under a contract that gives no run up, what a procedure returns meets its
postcondition. -/
theorem Returns.post (hn : C.NeverDead) (hbody : Correct M C) {p : S.Proc} {s s' : σ}
    {r : Option (S.Ret p)} (hp : C.pre p s) (h : M.Returns p s r s') : C.post p s r s' := by
  obtain ⟨n, h⟩ := h
  exact run_sound hbody hp (fun ⟨o, t, _, hd⟩ => hn o t hd) h

/-! ## Termination -/

/-- A program ends when the callees end wherever they may be called. -/
theorem exec_ends {R : S.Proc → σ → Prop} {n : Nat} (hn : C.NeverDead)
    (hc : ∀ p s, C.pre p s → R p s →
      (M.run n p s).Ends ∧ ∀ r s', M.run n p s = .done r s' → C.post p s r s')
    (x : Program S α) (h : M.wp (C.calling R) own x Q s) : (M.exec (M.run n) x s).Ends := by
  induction x generalizing s with
  | pure a => trivial
  | quit => trivial
  | op o k ih =>
      simp only [wp] at h
      simp only [exec]
      have h := (h (hn o s)).2
      cases ho : M.step o s with
      | error e => trivial
      | ok rs => rw [ho] at h; exact ih rs.1 h
  | call p k ih =>
      obtain ⟨⟨hpre, hlt⟩, hk⟩ := h
      obtain ⟨hends, hpost⟩ := hc p s hpre hlt
      simp only [exec]
      cases ho : M.run n p s with
      | fault e => trivial
      | timeout => rw [ho] at hends; exact hends
      | done r s' => exact ih r (hk r s' ⟨n, ho⟩ (hpost r s' ho))

/-- Which calls are made is not needed for what a program achieves. -/
theorem wp_of_calling {R : S.Proc → σ → Prop} {x : Program S α}
    (h : M.wp (C.calling R) own x Q s) : M.wp C own x Q s := by
  induction x generalizing s with
  | pure a => exact h
  | quit => exact h
  | op o k ih =>
      simp only [wp] at h ⊢
      intro hd
      obtain ⟨hforbids, h⟩ := h hd
      refine ⟨hforbids, ?_⟩
      cases ho : M.step o s with
      | error e => rw [ho] at h; exact h
      | ok rs => rw [ho] at h; exact ih rs.1 h
  | call p k ih => exact ⟨h.1.1, fun r s' hrun hr => ih r (h.2 r s' hrun hr)⟩

/-- Every body meets its contract, and makes only calls that `R` relates to the
call it serves. -/
def Respects (M : Machine S σ ε) (C : Contract S σ ε) (R : S.Proc → σ → S.Proc → σ → Prop) :
    Prop :=
  ∀ p s, C.pre p s →
    M.wp (C.calling (R p s)) (C.excuses (.call p) s) (M.body p) (C.post p s) s

/-- Two conditions for two contracts. -/
theorem wp_and {D : Contract S σ ε} {R : S.Proc → σ → Prop} {own' : ε → Prop} (hn : D.NeverDead)
    {x : Program S α} (h : M.wp (C.calling R) own x Q s) (h' : M.wp D own' x Q' s) :
    M.wp ((C.and D).calling R) own x (fun r s' => Q r s' ∧ Q' r s') s := by
  induction x generalizing s with
  | pure a => exact ⟨h, h'⟩
  | quit => exact ⟨h, h'⟩
  | op o k ih =>
      simp only [wp] at h h' ⊢
      intro hd
      obtain ⟨hforbids, h⟩ := h hd
      have h' := (h' (hn o s)).2
      refine ⟨hforbids, ?_⟩
      cases ho : M.step o s with
      | error e => rw [ho] at h; exact h
      | ok rs => rw [ho] at h h'; exact ih rs.1 h h'
  | call p k ih =>
      exact ⟨⟨⟨h.1.1, h'.1⟩, h.1.2⟩,
        fun r s' hrun hr => ih r (h.2 r s' hrun hr.1) (h'.2 r s' hrun hr.2)⟩

variable {R : S.Proc → σ → S.Proc → σ → Prop}

theorem Respects.correct (h : Respects M C R) : Correct M C :=
  fun p s hp => wp_of_calling (h p s hp)

/-- **Total correctness.**  If every body meets its contract while calling only
procedures of smaller measure, a run whose depth exceeds its measure ends. -/
theorem run_total {μ : S.Proc → σ → Nat} (hn : C.NeverDead) (hbody : Respects M C R)
    (hμR : ∀ p s q t, R p s q t → μ q t < μ p s)
    (n : Nat) (p : S.Proc) (s : σ) (hp : C.pre p s) (hμ : μ p s < n) :
    (M.run n p s).Ends := by
  induction n generalizing p s with
  | zero => exact absurd hμ (Nat.not_lt_zero _)
  | succ n ih =>
      refine exec_ends hn (R := R p s) (fun q t hq hR => ?_) (M.body p) (hbody p s hp)
      have hlt := hμR p s q t hR
      exact ⟨ih q t hq (by omega), fun r t' h => Returns.post hn hbody.correct hq ⟨n, h⟩⟩

/-! ## The events of one call -/

/-- Called in `s`, the procedure `p` returns `r` and leaves `s'`, and no command of
its run is one that `dead` names. -/
def ReturnsWithout (M : Machine S σ ε) (dead : S.Op → Prop) (p : S.Proc) (s : σ)
    (r : Option (S.Ret p)) (s' : σ) : Prop :=
  ∃ n, M.run n p s = .done r s' ∧ ∀ o t, M.Visits n p s (.op o) t → ¬ dead o

/-- The events that a program issues itself, not through the calls it makes, before
any command that `dead` names. -/
def Issues (M : Machine S σ ε) (dead : S.Op → Prop) :
    Program S α → σ → Event S → σ → Prop
  | .pure _, _, _, _ => False
  | .quit, _, _, _ => False
  | .op o k, s, e, t =>
      (e = .op o ∧ t = s) ∨ ¬ dead o ∧ ∃ r s', M.step o s = .ok (r, s') ∧ Issues M dead (k r) s' e t
  | .call p k, s, e, t =>
      (e = .call p ∧ t = s) ∨
        ∃ r s', M.ReturnsWithout dead p s r s' ∧ Issues M dead (k r) s' e t

theorem ReturnsWithout.returns {dead : S.Op → Prop} {p : S.Proc} {s s' : σ}
    {r : Option (S.Ret p)} (h : M.ReturnsWithout dead p s r s') : M.Returns p s r s' := by
  obtain ⟨n, h, -⟩ := h
  exact ⟨n, h⟩

/-- What a call returns meets its postcondition, if no command of the call is one at
which the run is given up. -/
theorem ReturnsWithout.post (hbody : Correct M C) {dead : S.Op → Prop}
    (hdead : ∀ o s, C.dead o s → dead o) {p : S.Proc} {s s' : σ} {r : Option (S.Ret p)}
    (hp : C.pre p s) (h : M.ReturnsWithout dead p s r s') : C.post p s r s' := by
  obtain ⟨n, h, halive⟩ := h
  exact run_sound hbody hp (fun ⟨o, t, hv, hd⟩ => halive o t hv (hdead o t hd)) h

/-- Started in `s`, the program `x` ends with `r` in `s'`, without any command that
`dead` names. -/
def Finishes (M : Machine S σ ε) (dead : S.Op → Prop) :
    Program S α → σ → Option α → σ → Prop
  | .pure a, s, r, s' => r = some a ∧ s' = s
  | .quit, s, r, s' => r = none ∧ s' = s
  | .op o k, s, r, s' =>
      ¬ dead o ∧ ∃ a t, M.step o s = .ok (a, t) ∧ Finishes M dead (k a) t r s'
  | .call p k, s, r, s' => ∃ a t, M.ReturnsWithout dead p s a t ∧ Finishes M dead (k a) t r s'

theorem Finishes.bind {dead : S.Op → Prop} {x : Program S α} {f : α → Program S β} {s t u : σ}
    {a : α} {r : Option β} (hx : M.Finishes dead x s (some a) u)
    (hf : M.Finishes dead (f a) u r t) : M.Finishes dead (x >>= f) s r t := by
  change M.Finishes dead (x.bind f) s r t
  induction x generalizing s with
  | pure b =>
      obtain ⟨hb, rfl⟩ := hx
      cases hb
      exact hf
  | quit => cases hx.1
  | op o k ih =>
      obtain ⟨halive, b, s', ho, hx⟩ := hx
      exact ⟨halive, b, s', ho, ih b hx⟩
  | call p k ih =>
      obtain ⟨b, s', hr, hx⟩ := hx
      exact ⟨b, s', hr, ih b hx⟩

/-- What a program issues after its first part. -/
theorem Issues.bind {dead : S.Op → Prop} {x : Program S α} {f : α → Program S β} {s t u : σ}
    {a : α} {e : Event S} (hx : M.Finishes dead x s (some a) u)
    (hf : M.Issues dead (f a) u e t) : M.Issues dead (x >>= f) s e t := by
  change M.Issues dead (x.bind f) s e t
  induction x generalizing s with
  | pure b =>
      obtain ⟨hb, rfl⟩ := hx
      cases hb
      exact hf
  | quit => cases hx.1
  | op o k ih =>
      obtain ⟨halive, b, s', ho, hx⟩ := hx
      exact Or.inr ⟨halive, b, s', ho, ih b hx⟩
  | call p k ih =>
      obtain ⟨b, s', hr, hx⟩ := hx
      exact Or.inr ⟨b, s', hr, ih b hx⟩

/-- A run that is not cut short goes through the events that its code issues. -/
theorem Issues.visits {dead : S.Op → Prop} {p : S.Proc} {s t : σ} {e : Event S} {n : Nat}
    (h : M.Issues dead (M.body p) s e t) (hn : M.run n p s ≠ .timeout) : M.Visits n p s e t := by
  cases n with
  | zero => exact absurd rfl hn
  | succ n =>
      have key : ∀ {β : Type} (x : Program S β) (u : σ), M.Issues dead x u e t →
          M.exec (M.run n) x u ≠ .timeout →
            M.execVisits (M.run n) (M.Visits n) x u e t := by
        intro β x
        induction x with
        | pure a => intro _ hx; exact hx.elim
        | quit => intro _ hx; exact hx.elim
        | op o k ih =>
            intro u hx hne
            simp only [execVisits]
            rcases hx with hx | ⟨-, r, u', ho, hx⟩
            · exact Or.inl hx
            · simp only [exec, ho] at hne
              simp only [ho]
              exact Or.inr (ih r u' hx hne)
        | call q k ih =>
            intro u hx hne
            simp only [execVisits]
            rcases hx with hx | ⟨r, u', ⟨m, hm, -⟩, hx⟩
            · exact Or.inl hx
            · have hq : M.run n q u ≠ .timeout := by
                intro hq
                simp only [exec, hq] at hne
                exact hne rfl
              have hrun : M.run n q u = .done r u' := by
                rw [M.run_agree hq (by simp [hm] : M.run m q u ≠ .timeout), hm]
              simp only [exec, hrun] at hne
              simp only [hrun]
              exact Or.inr (Or.inr (ih r u' hx hne))
      exact key (M.body p) s h hn

/-- The events of a call that a run goes through are events of the run, and so is
its end. -/
theorem visits_call {n : Nat} {p q : S.Proc} {s t : σ} (hv : M.Visits n p s (.call q) t) :
    ∃ m, (∀ e u, M.Visits m q t e u → M.Visits n p s e u) ∧
      (M.run m q t = .timeout → M.run n p s = .timeout) := by
  induction n generalizing p s with
  | zero => exact hv.elim
  | succ n ih =>
      have key : ∀ {β : Type} (x : Program S β) (v : σ),
          M.execVisits (M.run n) (M.Visits n) x v (.call q) t →
            ∃ m, (∀ e u, M.Visits m q t e u → M.execVisits (M.run n) (M.Visits n) x v e u) ∧
              (M.run m q t = .timeout → M.exec (M.run n) x v = .timeout) := by
        intro β x
        induction x with
        | pure a => intro _ hx; exact hx.elim
        | quit => intro _ hx; exact hx.elim
        | op o k ihx =>
            intro v hx
            simp only [execVisits, reduceCtorEq, false_and, false_or] at hx
            cases ho : M.step o v with
            | error e => rw [ho] at hx; exact hx.elim
            | ok rs =>
                rw [ho] at hx
                obtain ⟨m, hm, hend⟩ := ihx rs.1 rs.2 hx
                refine ⟨m, fun e u hu => ?_, fun h => ?_⟩
                · simp only [execVisits, ho]
                  exact Or.inr (hm e u hu)
                · simp only [exec, ho]
                  exact hend h
        | call p' k ihx =>
            intro v hx
            simp only [execVisits, Event.call.injEq] at hx
            rcases hx with ⟨rfl, rfl⟩ | hx | hx
            · refine ⟨n, fun e u hu => ?_, fun h => ?_⟩
              · simp only [execVisits]
                exact Or.inr (Or.inl hu)
              · simp only [exec, h]
            · obtain ⟨m, hm, hend⟩ := ih hx
              refine ⟨m, fun e u hu => ?_, fun h => ?_⟩
              · simp only [execVisits]
                exact Or.inr (Or.inl (hm e u hu))
              · simp only [exec, hend h]
            · cases ho : M.run n p' v with
              | fault e => rw [ho] at hx; exact hx.elim
              | timeout => rw [ho] at hx; exact hx.elim
              | done r s' =>
                  rw [ho] at hx
                  obtain ⟨m, hm, hend⟩ := ihx r s' hx
                  refine ⟨m, fun e u hu => ?_, fun h => ?_⟩
                  · simp only [execVisits, ho]
                    exact Or.inr (Or.inr (hm e u hu))
                  · simp only [exec, ho]
                    exact hend h
      exact key (M.body p) s hv

/-- A call that a program issues is one it may make. -/
theorem Issues.related {R : S.Proc → σ → Prop} (hbody : Correct M C) {dead : S.Op → Prop}
    (hdead : ∀ o s, C.dead o s → dead o) {x : Program S α}
    (h : M.wp (C.calling R) own x Q s) {q : S.Proc} {t : σ}
    (hx : M.Issues dead x s (.call q) t) : C.pre q t ∧ R q t := by
  induction x generalizing s with
  | pure a => exact hx.elim
  | quit => exact hx.elim
  | op o k ih =>
      simp only [Issues, reduceCtorEq, false_and, false_or] at hx
      obtain ⟨halive, r, s', ho, hx⟩ := hx
      simp only [wp] at h
      have h := (h fun hd => halive (hdead o s hd)).2
      rw [ho] at h
      exact ih r h hx
  | call p k ih =>
      obtain ⟨⟨hpre, hR⟩, hk⟩ := h
      simp only [Issues, Event.call.injEq] at hx
      rcases hx with ⟨rfl, rfl⟩ | ⟨r, s', hr, hx⟩
      · exact ⟨hpre, hR⟩
      · exact ih r (hk r s' hr.returns (hr.post hbody hdead hpre)) hx

/-- The calls that a procedure issues are related to its own. -/
theorem Respects.issues (hbody : Respects M C R) {dead : S.Op → Prop}
    (hdead : ∀ o s, C.dead o s → dead o) {p q : S.Proc} {s t : σ} (hp : C.pre p s)
    (h : M.Issues dead (M.body p) s (.call q) t) : C.pre q t ∧ R p s q t :=
  h.related hbody.correct hdead (hbody p s hp)

/-! ## Faults and the events that lead to them -/

/-- What is blamed for a fault: `own`, or an event that excuses it. -/
def Blamed (C : Contract S σ ε) (own : Prop) (visits : Event S → σ → Prop) (e : ε) : Prop :=
  own ∨ ∃ ev t, visits ev t ∧ C.excuses ev t e

theorem Blamed.mono {own : Prop} {visits visits' : Event S → σ → Prop} {e : ε}
    (h : Blamed C own visits e) (hv : ∀ ev t, visits ev t → visits' ev t) :
    Blamed C own visits' e := by
  rcases h with h | ⟨ev, t, hev, he⟩
  · exact Or.inl h
  · exact Or.inr ⟨ev, t, hv ev t hev, he⟩

/-- What a run of `x`, or of a procedure, satisfies: every call meets the
precondition of its procedure, and every fault, and every fault that a command
counts as, can be blamed on something. -/
structure Accounted (C : Contract S σ ε) (own : ε → Prop) (visits : Event S → σ → Prop)
    (outcome : Outcome σ ε α) : Prop where
  pre : ∀ q t, visits (.call q) t → C.pre q t
  fault : ∀ e, outcome = .fault e → Blamed C (own e) visits e
  forbids : ∀ o t, visits (.op o) t → ∀ e, C.forbids o t e → Blamed C (own e) visits e

theorem exec_accounted (hn : C.NeverDead) {n : Nat} (hbody : Correct M C)
    (ih : ∀ p s, C.pre p s →
      Accounted C (C.excuses (.call p) s) (M.Visits n p s) (M.run n p s))
    (x : Program S α) (h : M.wp C own x Q s) :
    Accounted C own (M.execVisits (M.run n) (M.Visits n) x s) (M.exec (M.run n) x s) := by
  induction x generalizing s with
  | pure a => exact ⟨fun _ _ hx => hx.elim, fun _ hx => (by cases hx), fun _ _ hx => hx.elim⟩
  | quit => exact ⟨fun _ _ hx => hx.elim, fun _ hx => (by cases hx), fun _ _ hx => hx.elim⟩
  | op o k ihx =>
      simp only [wp] at h
      obtain ⟨hforbids, h⟩ := h (hn o s)
      have hself : M.execVisits (M.run n) (M.Visits n) (.op o k) s (.op o) s := by
        simp [execVisits]
      have hown : ∀ e, C.excuses (.op o) s e ∨ own e →
          Blamed C (own e) (M.execVisits (M.run n) (M.Visits n) (.op o k) s) e := by
        rintro e (he | he)
        · exact Or.inr ⟨_, s, hself, he⟩
        · exact Or.inl he
      cases ho : M.step o s with
      | error e' =>
          rw [ho] at h
          refine ⟨fun q t hx => ?_, fun e he => ?_, fun o' t hx e he => ?_⟩
          · simp [execVisits, ho] at hx
          · simp only [exec, ho] at he
            cases he
            exact hown e' h
          · simp only [execVisits, ho, or_false, Event.op.injEq] at hx
            obtain ⟨rfl, rfl⟩ := hx
            exact hown e (hforbids e he)
      | ok rs =>
          rw [ho] at h
          have hrest := ihx rs.1 h
          have hmono : ∀ ev t, M.execVisits (M.run n) (M.Visits n) (k rs.1) rs.2 ev t →
              M.execVisits (M.run n) (M.Visits n) (.op o k) s ev t := by
            intro ev t hx
            simp only [execVisits, ho]
            exact Or.inr hx
          refine ⟨fun q t hx => ?_, fun e he => ?_, fun o' t hx e he => ?_⟩
          · simp only [execVisits, ho, reduceCtorEq, false_and, false_or] at hx
            exact hrest.pre q t hx
          · simp only [exec, ho] at he
            exact (hrest.fault e he).mono hmono
          · simp only [execVisits, ho, Event.op.injEq] at hx
            rcases hx with ⟨rfl, rfl⟩ | hx
            · exact hown e (hforbids e he)
            · exact (hrest.forbids o' t hx e he).mono hmono
  | call p k ihx =>
      obtain ⟨hp, hk⟩ := h
      have hcall := ih p s hp
      have hself : M.execVisits (M.run n) (M.Visits n) (.call p k) s (.call p) s := by
        simp [execVisits]
      have hwithin : ∀ ev t, M.Visits n p s ev t →
          M.execVisits (M.run n) (M.Visits n) (.call p k) s ev t := by
        intro ev t hx
        simp only [execVisits]
        exact Or.inr (Or.inl hx)
      have hinner : ∀ e, Blamed C (C.excuses (.call p) s e) (M.Visits n p s) e →
          Blamed C (own e) (M.execVisits (M.run n) (M.Visits n) (.call p k) s) e := by
        rintro e (he | ⟨ev, t, hv, he⟩)
        · exact Or.inr ⟨_, s, hself, he⟩
        · exact Or.inr ⟨ev, t, hwithin ev t hv, he⟩
      have hlater : ∀ r s', M.run n p s = .done r s' →
          Accounted C own (M.execVisits (M.run n) (M.Visits n) (k r) s')
            (M.exec (M.run n) (k r) s') ∧
          ∀ ev t, M.execVisits (M.run n) (M.Visits n) (k r) s' ev t →
            M.execVisits (M.run n) (M.Visits n) (.call p k) s ev t := by
        intro r s' ho
        refine ⟨ihx r (hk r s' ⟨n, ho⟩ (Returns.post hn hbody hp ⟨n, ho⟩)), fun ev t hx => ?_⟩
        simp only [execVisits, ho]
        exact Or.inr (Or.inr hx)
      refine ⟨fun q t hx => ?_, fun e he => ?_, fun o t hx e he => ?_⟩
      · simp only [execVisits, Event.call.injEq] at hx
        rcases hx with ⟨rfl, rfl⟩ | hx | hx
        · exact hp
        · exact hcall.pre q t hx
        · cases ho : M.run n p s with
          | fault e => rw [ho] at hx; exact hx.elim
          | timeout => rw [ho] at hx; exact hx.elim
          | done r s' => rw [ho] at hx; exact (hlater r s' ho).1.pre q t hx
      · simp only [exec] at he
        cases ho : M.run n p s with
        | timeout => rw [ho] at he; cases he
        | fault e' =>
            rw [ho] at he
            cases he
            exact hinner _ (hcall.fault _ ho)
        | done r s' =>
            rw [ho] at he
            exact ((hlater r s' ho).1.fault e he).mono (hlater r s' ho).2
      · simp only [execVisits, reduceCtorEq, false_and, false_or] at hx
        rcases hx with hx | hx
        · exact hinner e (hcall.forbids o t hx e he)
        · cases ho : M.run n p s with
          | fault e => rw [ho] at hx; exact hx.elim
          | timeout => rw [ho] at hx; exact hx.elim
          | done r s' =>
              rw [ho] at hx
              exact ((hlater r s' ho).1.forbids o t hx e he).mono (hlater r s' ho).2

theorem run_accounted (hn : C.NeverDead) (hbody : Correct M C) (n : Nat) (p : S.Proc) (s : σ)
    (hp : C.pre p s) : Accounted C (C.excuses (.call p) s) (M.Visits n p s) (M.run n p s) := by
  induction n generalizing p s with
  | zero => exact ⟨fun _ _ hv => hv.elim, fun _ h => (by cases h), fun _ _ hv => hv.elim⟩
  | succ n ih => exact exec_accounted hn hbody (fun q t => ih q t) (M.body p) (hbody p s hp)

/-- Every call that a run goes through meets the precondition of its procedure. -/
theorem visits_pre (hn : C.NeverDead) (hbody : Correct M C) {n : Nat} {p : S.Proc} {s : σ}
    (hp : C.pre p s) {q : S.Proc} {t : σ} (hv : M.Visits n p s (.call q) t) : C.pre q t :=
  (run_accounted hn hbody n p s hp).pre q t hv

/-- **Blame.**  A fault of a run is excused by the call itself, or by an event
that the run went through. -/
theorem run_blame (hn : C.NeverDead) (hbody : Correct M C) {n : Nat} {p : S.Proc} {s : σ}
    (hp : C.pre p s) {e : ε} (h : M.run n p s = .fault e) :
    Blamed C (C.excuses (.call p) s e) (M.Visits n p s) e :=
  (run_accounted hn hbody n p s hp).fault e h

/-- A fault that a command of a run counts as is excused likewise. -/
theorem visits_blame (hn : C.NeverDead) (hbody : Correct M C) {n : Nat} {p : S.Proc} {s : σ}
    (hp : C.pre p s) {o : S.Op} {t : σ} (hv : M.Visits n p s (.op o) t) {e : ε}
    (he : C.forbids o t e) : Blamed C (C.excuses (.call p) s e) (M.Visits n p s) e :=
  (run_accounted hn hbody n p s hp).forbids o t hv e he

/-- The run of a procedure that goes through a call which faults, faults, provided
every shallower run of that call ends. -/
theorem visits_fault {n : Nat} {p : S.Proc} {s : σ} {q : S.Proc} {t : σ}
    (hv : M.Visits n p s (.call q) t) (hends : ∀ r s', ¬ M.Returns q t r s')
    (h : M.run n p s ≠ .timeout) : ∃ e, M.run n p s = .fault e := by
  induction n generalizing p s with
  | zero => exact hv.elim
  | succ n ih =>
      have key : ∀ {β : Type} (x : Program S β) (u : σ),
          M.execVisits (M.run n) (M.Visits n) x u (.call q) t →
            M.exec (M.run n) x u ≠ .timeout → ∃ e, M.exec (M.run n) x u = .fault e := by
        intro β x
        induction x with
        | pure a => intro _ hx; exact hx.elim
        | quit => intro _ hx; exact hx.elim
        | op o k ihx =>
            intro u hx hne
            simp only [execVisits, reduceCtorEq, false_and, false_or] at hx
            simp only [exec] at hne ⊢
            cases ho : M.step o u with
            | error e => exact ⟨e, rfl⟩
            | ok rs => rw [ho] at hx hne; exact ihx rs.1 rs.2 hx hne
        | call p' k ihx =>
            intro u hx hne
            simp only [execVisits, Event.call.injEq] at hx
            simp only [exec] at hne ⊢
            cases ho : M.run n p' u with
            | fault e => exact ⟨e, rfl⟩
            | timeout => rw [ho] at hne; exact absurd rfl hne
            | done r s' =>
                rw [ho] at hx hne
                rcases hx with ⟨rfl, rfl⟩ | hx | hx
                · exact absurd ⟨n, ho⟩ (hends r s')
                · obtain ⟨e, he⟩ := ih hx (by simp [ho])
                  rw [ho] at he
                  cases he
                · exact ihx r s' hx hne
      exact key (M.body p) s hv h

/-! ## What every command preserves -/

/-- A reflexive and transitive relation that every command respects relates the
start and the end of every program. -/
theorem exec_relates {R : σ → σ → Prop} (hrefl : ∀ s, R s s)
    (htrans : ∀ s t u, R s t → R t u → R s u)
    (hstep : ∀ o s r s', M.step o s = .ok (r, s') → R s s')
    {callee : (p : S.Proc) → σ → Outcome σ ε (S.Ret p)}
    (hc : ∀ p s r s', callee p s = .done r s' → R s s')
    (x : Program S α) {s s' : σ} {r : Option α}
    (hx : M.exec callee x s = .done r s') : R s s' := by
  induction x generalizing s with
  | pure a => cases hx; exact hrefl _
  | quit => cases hx; exact hrefl _
  | op o k ih =>
      simp only [exec] at hx
      cases ho : M.step o s with
      | ok rs => rw [ho] at hx; exact htrans _ _ _ (hstep o _ rs.1 rs.2 ho) (ih rs.1 hx)
      | error e => rw [ho] at hx; cases hx
  | call p k ih =>
      simp only [exec] at hx
      cases hp : callee p s with
      | done r1 s1 => rw [hp] at hx; exact htrans _ _ _ (hc p _ r1 s1 hp) (ih r1 hx)
      | fault e => rw [hp] at hx; cases hx
      | timeout => rw [hp] at hx; cases hx

/-- A reflexive and transitive relation that every command respects relates the
start and the end of every run. -/
theorem run_relates {R : σ → σ → Prop} (hrefl : ∀ s, R s s)
    (htrans : ∀ s t u, R s t → R t u → R s u)
    (hstep : ∀ o s r s', M.step o s = .ok (r, s') → R s s')
    (n : Nat) (p : S.Proc) {s s' : σ} {r : Option (S.Ret p)}
    (h : M.run n p s = .done r s') : R s s' := by
  induction n generalizing p s s' with
  | zero => cases h
  | succ n ih =>
      exact exec_relates hrefl htrans hstep (fun q t r1 t1 hq => ih q hq) (M.body p) h

/-- A reflexive and transitive relation that every command respects relates every
state in which a command is issued, and the state the command left, to the start
and the end of the run. -/
theorem visits_relates {R : σ → σ → Prop} (hrefl : ∀ s, R s s)
    (htrans : ∀ s t u, R s t → R t u → R s u)
    (hstep : ∀ o s r s', M.step o s = .ok (r, s') → R s s')
    {n : Nat} {p : S.Proc} {s s' t t' : σ} {o : S.Op} {a : S.Res o} {r : Option (S.Ret p)}
    (hv : M.Visits n p s (.op o) t) (ho : M.step o t = .ok (a, t'))
    (h : M.run n p s = .done r s') : R s t ∧ R t' s' := by
  induction n generalizing p s s' with
  | zero => cases h
  | succ n ih =>
      have key : ∀ {β : Type} (x : Program S β) (u : σ) (b : Option β),
          M.execVisits (M.run n) (M.Visits n) x u (.op o) t →
            M.exec (M.run n) x u = .done b s' → R u t ∧ R t' s' := by
        intro β x
        induction x with
        | pure a => intro _ _ hx; exact hx.elim
        | quit => intro _ _ hx; exact hx.elim
        | op o' k ihx =>
            intro u b hx hr
            simp only [execVisits, Event.op.injEq] at hx
            simp only [exec] at hr
            cases ho' : M.step o' u with
            | error e => rw [ho'] at hr; cases hr
            | ok rs =>
                rw [ho'] at hx hr
                rcases hx with ⟨rfl, rfl⟩ | hx
                · rw [ho] at ho'
                  cases ho'
                  refine ⟨hrefl _, exec_relates hrefl htrans hstep (fun q t r1 t1 hq =>
                    run_relates hrefl htrans hstep n q hq) (k a) hr⟩
                · obtain ⟨h₁, h₂⟩ := ihx rs.1 rs.2 b hx hr
                  exact ⟨htrans _ _ _ (hstep o' u rs.1 rs.2 ho') h₁, h₂⟩
        | call q k ihx =>
            intro u b hx hr
            simp only [execVisits, reduceCtorEq, false_and, false_or] at hx
            simp only [exec] at hr
            cases hq : M.run n q u with
            | fault e => rw [hq] at hr; cases hr
            | timeout => rw [hq] at hr; cases hr
            | done r1 s1 =>
                rw [hq] at hx hr
                have h₁ := run_relates hrefl htrans hstep n q hq
                have h₂ := exec_relates hrefl htrans hstep (fun q t r1 t1 hq =>
                  run_relates hrefl htrans hstep n q hq) (k r1) hr
                rcases hx with hx | hx
                · obtain ⟨h₃, h₄⟩ := ih hx hq
                  exact ⟨h₃, htrans _ _ _ h₄ h₂⟩
                · obtain ⟨h₃, h₄⟩ := ihx r1 s1 b hx hr
                  exact ⟨htrans _ _ _ h₁ h₃, h₄⟩
      exact key (M.body p) s r hv h

/-! ## What the commands of a run preserve -/

/-- The commands that `visits` reports preserve `I`. -/
def Keeping (M : Machine S σ ε) (I : σ → Prop) (visits : Event S → σ → Prop) : Prop :=
  ∀ o t a t', visits (.op o) t → M.step o t = .ok (a, t') → I t → I t'

theorem Keeping.mono {I : σ → Prop} {visits visits' : Event S → σ → Prop}
    (h : M.Keeping I visits') (hv : ∀ e t, visits e t → visits' e t) : M.Keeping I visits :=
  fun o t a t' hvisit => h o t a t' (hv _ t hvisit)

theorem exec_keeps {I : σ → Prop} {n : Nat}
    (hc : ∀ p s r s', M.run n p s = .done r s' → I s → M.Keeping I (M.Visits n p s) → I s')
    (x : Program S α) {s s' : σ} {r : Option α} (hx : M.exec (M.run n) x s = .done r s')
    (hs : I s) (hkeep : M.Keeping I (M.execVisits (M.run n) (M.Visits n) x s)) : I s' := by
  induction x generalizing s with
  | pure a => cases hx; exact hs
  | quit => cases hx; exact hs
  | op o k ih =>
      simp only [exec] at hx
      cases ho : M.step o s with
      | error e => rw [ho] at hx; cases hx
      | ok rs =>
          rw [ho] at hx
          have hfirst : I rs.2 := hkeep o s rs.1 rs.2 (by simp [execVisits]) ho hs
          refine ih rs.1 hx hfirst (hkeep.mono fun e t hv => ?_)
          simp only [execVisits, ho]
          exact Or.inr hv
  | call q k ih =>
      simp only [exec] at hx
      cases ho : M.run n q s with
      | fault e => rw [ho] at hx; cases hx
      | timeout => rw [ho] at hx; cases hx
      | done r1 s1 =>
          rw [ho] at hx
          have hcall : I s1 := by
            refine hc q s r1 s1 ho hs (hkeep.mono fun e t hv => ?_)
            simp only [execVisits]
            exact Or.inr (Or.inl hv)
          refine ih r1 hx hcall (hkeep.mono fun e t hv => ?_)
          simp only [execVisits, ho]
          exact Or.inr (Or.inr hv)

/-- What every command of a run preserves, the run preserves. -/
theorem run_keeps {I : σ → Prop} (n : Nat) (p : S.Proc) (s : σ) (r : Option (S.Ret p)) (s' : σ)
    (h : M.run n p s = .done r s') (hs : I s) (hkeep : M.Keeping I (M.Visits n p s)) : I s' := by
  induction n generalizing p s s' with
  | zero => cases h
  | succ n ih => exact exec_keeps (fun q t r1 t1 => ih q t r1 t1) (M.body p) h hs hkeep

/-- If a run breaks an invariant, one of the commands it visits does. -/
theorem visits_of_broken {I : σ → Prop} (n : Nat) (p : S.Proc) (s s' : σ)
    (r : Option (S.Ret p)) (h : M.run n p s = .done r s') (hs : I s) (hs' : ¬ I s') :
    ∃ o t a t', M.Visits n p s (.op o) t ∧ M.step o t = .ok (a, t') ∧ I t ∧ ¬ I t' := by
  by_contra hnone
  refine hs' (run_keeps n p s r s' h hs fun o t a t' hv ho ht => ?_)
  by_contra ht'
  exact hnone ⟨o, t, a, t', hv, ho, ht, ht'⟩

/-- What one command of a run established, and every command preserves, holds at the
end of the run. -/
theorem visits_keeps {I : σ → Prop} {n : Nat} {p : S.Proc} {s s' t t' : σ} {o : S.Op}
    {a : S.Res o} {r : Option (S.Ret p)} (h : M.run n p s = .done r s')
    (hv : M.Visits n p s (.op o) t) (ho : M.step o t = .ok (a, t')) (ht' : I t')
    (hkeep : M.Keeping I (M.Visits n p s)) : I s' := by
  induction n generalizing p s s' with
  | zero => cases h
  | succ n ih =>
      have key : ∀ {β : Type} (x : Program S β) (u : σ) (b : Option β),
          M.exec (M.run n) x u = .done b s' →
          M.execVisits (M.run n) (M.Visits n) x u (.op o) t →
          M.Keeping I (M.execVisits (M.run n) (M.Visits n) x u) → I s' := by
        intro β x
        induction x with
        | pure c => intro _ _ _ hx; exact hx.elim
        | quit => intro _ _ _ hx; exact hx.elim
        | op o' k ihx =>
            intro u b hr hx hkeep
            simp only [exec] at hr
            cases ho' : M.step o' u with
            | error e => rw [ho'] at hr; cases hr
            | ok rs =>
                rw [ho'] at hr
                have hrest : M.Keeping I (M.execVisits (M.run n) (M.Visits n) (k rs.1) rs.2) :=
                  hkeep.mono fun e v hv => by simp only [execVisits, ho']; exact Or.inr hv
                simp only [execVisits, ho', Event.op.injEq] at hx
                rcases hx with ⟨rfl, rfl⟩ | hx
                · rw [ho] at ho'
                  cases ho'
                  exact exec_keeps (fun q v r1 v1 => run_keeps n q v r1 v1) (k a) hr ht' hrest
                · exact ihx rs.1 rs.2 b hr hx hrest
        | call q k ihx =>
            intro u b hr hx hkeep
            simp only [exec] at hr
            cases hq : M.run n q u with
            | fault e => rw [hq] at hr; cases hr
            | timeout => rw [hq] at hr; cases hr
            | done r1 s1 =>
                rw [hq] at hr
                have hcall : M.Keeping I (M.Visits n q u) :=
                  hkeep.mono fun e v hv => by simp only [execVisits]; exact Or.inr (Or.inl hv)
                have hrest : M.Keeping I (M.execVisits (M.run n) (M.Visits n) (k r1) s1) :=
                  hkeep.mono fun e v hv => by simp only [execVisits, hq]; exact Or.inr (Or.inr hv)
                simp only [execVisits, hq, reduceCtorEq, false_and, false_or] at hx
                rcases hx with hx | hx
                · have hs1 := ih hq hx hcall
                  exact exec_keeps (fun q v r1 v1 => run_keeps n q v r1 v1) (k r1) hr hs1 hrest
                · exact ihx r1 s1 b hr hx hrest
      exact key (M.body p) s r h hv hkeep

end Machine

end Procs
