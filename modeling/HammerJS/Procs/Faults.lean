import HammerJS.Procs.Calls

/-!
# Where a run faults

A run that faults does so at its last command, which is issued by the code of one of
its calls.

* `Machine.LastState` — the state in which the last event of a run occurs.
* `Machine.run_fault` — the call whose code issues the command that faults.
* `Machine.Issues.accounted`, `Machine.Issues.not_reaches` — a fault is accounted for by
  the weakest precondition of the code that issues it, and what issues it does not return.
* `Machine.broken_of_visits` — where an invariant is lost before an event.
-/

namespace Procs

namespace Machine

variable {S : Interface} {σ ε α : Type} {M : Machine S σ ε}

/-- Of the events that `visits` reports, from `s` on, none comes after the state `v`: what
the commands keep holds in `v`, where it held in `s` or after one of them. -/
structure LastState (M : Machine S σ ε) (visits : Event S → σ → Prop) (s v : σ) : Prop where
  start : ∀ I : σ → Prop, M.Keeping I visits → I s → I v
  later : ∀ I : σ → Prop, M.Keeping I visits → ∀ o t a t', visits (.op o) t →
    M.step o t = .ok (a, t') → I t' → I v

/-- The command `o` faults in the state `v`, the last one of a run, and is issued by the
code that `code` gives. -/
structure FaultsAt (M : Machine S σ ε) (visits : Event S → σ → Prop) (s : σ)
    (code : Event S → σ → Prop) (e : ε) (o : S.Op) (v : σ) : Prop where
  issued : code (.op o) v
  visited : visits (.op o) v
  step : M.step o v = .error e
  last : M.LastState visits s v

/-- The same run, seen from a program that starts with a command. -/
theorem LastState.op {n : Nat} {o : S.Op} {k : S.Res o → Program S α} {a : S.Res o} {s t v : σ}
    (ho : M.step o s = .ok (a, t))
    (h : M.LastState (M.execVisits (M.run n) (M.Visits n) (k a) t) t v) :
    M.LastState (M.execVisits (M.run n) (M.Visits n) (.op o k) s) s v := by
  have hrest : ∀ ev u, M.execVisits (M.run n) (M.Visits n) (k a) t ev u →
      M.execVisits (M.run n) (M.Visits n) (.op o k) s ev u := by
    intro ev u hu
    simp only [execVisits, ho]
    exact Or.inr hu
  have hself : M.execVisits (M.run n) (M.Visits n) (.op o k) s (.op o) s := by
    simp [execVisits]
  refine ⟨fun I hkeep hs => ?_, fun I hkeep o' u b u' hu hstep hI => ?_⟩
  · exact h.start I (hkeep.mono hrest) (hkeep o s a t hself ho hs)
  · simp only [execVisits, ho, Event.op.injEq] at hu
    rcases hu with ⟨rfl, rfl⟩ | hu
    · rw [ho] at hstep
      cases hstep
      exact h.start I (hkeep.mono hrest) hI
    · exact h.later I (hkeep.mono hrest) o' u b u' hu hstep hI

/-- The same run, seen from a program that starts with a call that returns. -/
theorem LastState.returned {n : Nat} {p : S.Proc} {k : Option (S.Ret p) → Program S α}
    {r : Option (S.Ret p)} {s t v : σ} (hp : M.run n p s = .done r t)
    (h : M.LastState (M.execVisits (M.run n) (M.Visits n) (k r) t) t v) :
    M.LastState (M.execVisits (M.run n) (M.Visits n) (.call p k) s) s v := by
  have hrest : ∀ ev u, M.execVisits (M.run n) (M.Visits n) (k r) t ev u →
      M.execVisits (M.run n) (M.Visits n) (.call p k) s ev u := by
    intro ev u hu
    simp only [execVisits, hp]
    exact Or.inr (Or.inr hu)
  have hwithin : ∀ ev u, M.Visits n p s ev u →
      M.execVisits (M.run n) (M.Visits n) (.call p k) s ev u := by
    intro ev u hu
    simp only [execVisits]
    exact Or.inr (Or.inl hu)
  refine ⟨fun I hkeep hs => ?_, fun I hkeep o u b u' hu hstep hI => ?_⟩
  · exact h.start I (hkeep.mono hrest) (run_keeps n p s r t hp hs (hkeep.mono hwithin))
  · simp only [execVisits, hp, reduceCtorEq, false_and, false_or] at hu
    rcases hu with hu | hu
    · exact h.start I (hkeep.mono hrest) (visits_keeps hp hu hstep hI (hkeep.mono hwithin))
    · exact h.later I (hkeep.mono hrest) o u b u' hu hstep hI

/-- The same run, seen from a program that starts with a call that faults. -/
theorem LastState.called {n : Nat} {p : S.Proc} {k : Option (S.Ret p) → Program S α} {e : ε}
    {s v : σ} (hp : M.run n p s = .fault e) (h : M.LastState (M.Visits n p s) s v) :
    M.LastState (M.execVisits (M.run n) (M.Visits n) (.call p k) s) s v := by
  have hwithin : ∀ ev u, M.Visits n p s ev u →
      M.execVisits (M.run n) (M.Visits n) (.call p k) s ev u := by
    intro ev u hu
    simp only [execVisits]
    exact Or.inr (Or.inl hu)
  refine ⟨fun I hkeep hs => h.start I (hkeep.mono hwithin) hs,
    fun I hkeep o u b u' hu hstep hI => ?_⟩
  simp only [execVisits, hp, reduceCtorEq, false_and, false_or, or_false] at hu
  exact h.later I (hkeep.mono hwithin) o u b u' hu hstep hI

/-- A program faults at a command of its own, or within a call of the run. -/
theorem exec_fault {n : Nat}
    (ih : ∀ p s e, M.run n p s = .fault e → ∃ q u o v, (q = p ∧ u = s ∨ M.Visits n p s (.call q) u) ∧
      M.FaultsAt (M.Visits n p s) s (M.Issues (fun _ => False) (M.body q) u) e o v)
    (x : Program S α) {s : σ} {e : ε} (h : M.exec (M.run n) x s = .fault e) :
    (∃ o v, M.FaultsAt (M.execVisits (M.run n) (M.Visits n) x s) s
      (M.Issues (fun _ => False) x s) e o v) ∨
    ∃ q u o v, M.execVisits (M.run n) (M.Visits n) x s (.call q) u ∧
      M.FaultsAt (M.execVisits (M.run n) (M.Visits n) x s) s
        (M.Issues (fun _ => False) (M.body q) u) e o v := by
  induction x generalizing s with
  | pure a => cases h
  | quit => cases h
  | op o k ihx =>
      simp only [exec] at h
      cases ho : M.step o s with
      | error e' =>
          rw [ho] at h
          cases h
          have hself : M.execVisits (M.run n) (M.Visits n) (.op o k) s (.op o) s := by
            simp [execVisits]
          refine Or.inl ⟨o, s, Or.inl ⟨rfl, rfl⟩, hself, ho, fun I _ hs => hs,
            fun I _ o' u b u' hu hstep _ => ?_⟩
          simp only [execVisits, ho, or_false, Event.op.injEq] at hu
          obtain ⟨rfl, rfl⟩ := hu
          rw [ho] at hstep
          cases hstep
      | ok rs =>
          rw [ho] at h
          have hrest : ∀ ev u, M.execVisits (M.run n) (M.Visits n) (k rs.1) rs.2 ev u →
              M.execVisits (M.run n) (M.Visits n) (.op o k) s ev u := by
            intro ev u hu
            simp only [execVisits, ho]
            exact Or.inr hu
          rcases ihx rs.1 h with ⟨o', v, hf⟩ | ⟨q, u, o', v, hq, hf⟩
          · exact Or.inl ⟨o', v, Or.inr ⟨id, rs.1, rs.2, ho, hf.issued⟩, hrest _ v hf.visited,
              hf.step, .op ho hf.last⟩
          · exact Or.inr ⟨q, u, o', v, hrest _ u hq, hf.issued, hrest _ v hf.visited, hf.step,
              .op ho hf.last⟩
  | call p k ihx =>
      simp only [exec] at h
      cases hp : M.run n p s with
      | timeout => rw [hp] at h; cases h
      | fault e' =>
          rw [hp] at h
          cases h
          obtain ⟨q, u, o, v, hq, hf⟩ := ih p s e hp
          have hcall : M.execVisits (M.run n) (M.Visits n) (.call p k) s (.call q) u := by
            simp only [execVisits, Event.call.injEq]
            exact hq.imp id Or.inl
          have hvisited : M.execVisits (M.run n) (M.Visits n) (.call p k) s (.op o) v := by
            simp only [execVisits]
            exact Or.inr (Or.inl hf.visited)
          exact Or.inr ⟨q, u, o, v, hcall, hf.issued, hvisited, hf.step, .called hp hf.last⟩
      | done r t =>
          rw [hp] at h
          have hrest : ∀ ev u, M.execVisits (M.run n) (M.Visits n) (k r) t ev u →
              M.execVisits (M.run n) (M.Visits n) (.call p k) s ev u := by
            intro ev u hu
            simp only [execVisits, hp]
            exact Or.inr (Or.inr hu)
          have hreturns : M.ReturnsWithout (fun _ => False) p s r t :=
            ⟨n, hp, fun _ _ _ hdead => hdead⟩
          rcases ihx r h with ⟨o, v, hf⟩ | ⟨q, u, o, v, hq, hf⟩
          · exact Or.inl ⟨o, v, Or.inr ⟨r, t, hreturns, hf.issued⟩, hrest _ v hf.visited, hf.step,
              .returned hp hf.last⟩
          · exact Or.inr ⟨q, u, o, v, hrest _ u hq, hf.issued, hrest _ v hf.visited, hf.step,
              .returned hp hf.last⟩

/-- **Where a run faults.**  A run that faults comes to a call, which may be the first, whose
code issues the command that faults; it is the last command of the run. -/
theorem run_fault {n : Nat} {p : S.Proc} {s : σ} {e : ε} (h : M.run n p s = .fault e) :
    ∃ q u o v, (q = p ∧ u = s ∨ M.Visits n p s (.call q) u) ∧
      M.FaultsAt (M.Visits n p s) s (M.Issues (fun _ => False) (M.body q) u) e o v := by
  induction n generalizing p s e with
  | zero => cases h
  | succ n ih =>
      rcases exec_fault (fun p s e => ih) (M.body p) h with ⟨o, v, hf⟩ | ⟨q, u, o, v, hq, hf⟩
      · exact ⟨p, s, o, v, Or.inl ⟨rfl, rfl⟩, hf⟩
      · exact ⟨q, u, o, v, Or.inr hq, hf⟩

/-- A fault of a command that a program issues itself is excused, as its weakest
precondition says. -/
theorem Issues.accounted {C : Contract S σ ε} {own : ε → Prop} {Q : Option α → σ → Prop}
    (hn : C.NeverDead)
    (hpost : ∀ p s r s', C.pre p s → M.Returns p s r s' → C.post p s r s')
    {x : Program S α} {s : σ} (h : M.wp C own x Q s)
    {o : S.Op} {v : σ} (hx : M.Issues (fun _ => False) x s (.op o) v) {e : ε}
    (he : M.step o v = .error e) : C.excuses (.op o) v e ∨ own e := by
  induction x generalizing s with
  | pure a => exact hx.elim
  | quit => exact hx.elim
  | op o' k ih =>
      simp only [wp] at h
      have h := (h (hn o' s)).2
      rcases hx with ⟨ho, rfl⟩ | ⟨-, a, t, ho, hx⟩
      · cases ho
        rw [he] at h
        exact h
      · rw [ho] at h
        exact ih a h hx
  | call p k ih =>
      obtain ⟨hp, hk⟩ := h
      rcases hx with ⟨ho, -⟩ | ⟨r, t, hr, hx⟩
      · cases ho
      · exact ih r (hk r t hr.returns (hpost p s r t hp hr.returns)) hx

/-- A program that issues a command that faults ends with nothing. -/
theorem Issues.not_reaches {x : Program S α} {s s' v : σ} {o : S.Op} {e : ε} {r : Option α}
    (hx : M.Issues (fun _ => False) x s (.op o) v) (he : M.step o v = .error e) :
    ¬ Reaches M.step M.Returns x s r s' := by
  induction x generalizing s with
  | pure a => exact hx.elim
  | quit => exact hx.elim
  | op o' k ih =>
      rintro ⟨a, t, ho, h⟩
      rcases hx with ⟨heq, rfl⟩ | ⟨-, b, u, ho', hx⟩
      · cases heq
        rw [he] at ho
        cases ho
      · rw [ho] at ho'
        cases ho'
        exact ih a hx h
  | call p k ih =>
      rintro ⟨a, t, hp, h⟩
      rcases hx with ⟨heq, -⟩ | ⟨b, u, hp', hx⟩
      · cases heq
      · obtain ⟨rfl, rfl⟩ := Returns.unique M hp hp'.returns
        exact ih a hx h

/-- What holds at the start of a run, and its commands keep, holds at its events. -/
theorem visits_of_start {I : σ → Prop} {n : Nat} {p : S.Proc} {s t : σ} {ev : Event S}
    (hv : M.Visits n p s ev t) (hs : I s) (hkeep : M.Keeping I (M.Visits n p s)) : I t := by
  induction n generalizing p s with
  | zero => exact hv.elim
  | succ n ih =>
      have key : ∀ {β : Type} (x : Program S β) (u : σ),
          M.execVisits (M.run n) (M.Visits n) x u ev t → I u →
            M.Keeping I (M.execVisits (M.run n) (M.Visits n) x u) → I t := by
        intro β x
        induction x with
        | pure a => intro _ hx; exact hx.elim
        | quit => intro _ hx; exact hx.elim
        | op o k ihx =>
            intro u hx hu hkeep
            simp only [execVisits] at hx
            rcases hx with ⟨-, rfl⟩ | hx
            · exact hu
            · cases ho : M.step o u with
              | error e => rw [ho] at hx; exact hx.elim
              | ok rs =>
                  rw [ho] at hx
                  refine ihx rs.1 rs.2 hx (hkeep o u rs.1 rs.2 (by simp [execVisits]) ho hu)
                    (hkeep.mono fun e v hv => ?_)
                  simp only [execVisits, ho]
                  exact Or.inr hv
        | call q k ihx =>
            intro u hx hu hkeep
            have hwithin : M.Keeping I (M.Visits n q u) := hkeep.mono fun e v hv => by
              simp only [execVisits]
              exact Or.inr (Or.inl hv)
            simp only [execVisits] at hx
            rcases hx with ⟨-, rfl⟩ | hx | hx
            · exact hu
            · exact ih hx hu hwithin
            · cases hq : M.run n q u with
              | fault e => rw [hq] at hx; exact hx.elim
              | timeout => rw [hq] at hx; exact hx.elim
              | done r u' =>
                  rw [hq] at hx
                  refine ihx r u' hx (run_keeps n q u r u' hq hu hwithin)
                    (hkeep.mono fun e v hv => ?_)
                  simp only [execVisits, hq]
                  exact Or.inr (Or.inr hv)
      exact key (M.body p) s hv hs hkeep

/-- Where an invariant does not hold at an event of a run, a command of the run broke it. -/
theorem broken_of_visits {I : σ → Prop} {n : Nat} {p : S.Proc} {s t : σ} {ev : Event S}
    (hv : M.Visits n p s ev t) (hs : I s) (ht : ¬ I t) :
    ∃ o u a u', M.Visits n p s (.op o) u ∧ M.step o u = .ok (a, u') ∧ I u ∧ ¬ I u' := by
  by_contra hnone
  refine ht (visits_of_start hv hs fun o u a u' hu ho hI => ?_)
  by_contra hI'
  exact hnone ⟨o, u, a, u', hu, ho, hI, hI'⟩

end Machine

end Procs
