import HammerJS.Procs.Reaches

/-!
# Programs that end as they should

`Attains` is for programs what `Succeeds` is for routines: the program ends with a value,
and the value and the state it leaves satisfy a condition.

* One rule for each way to build a program.
* `Machine.Answers` — the same of a procedure of a machine.
* `answers_iff` — a procedure answers what its body attains.
-/

namespace Procs

variable {S : Interface} {σ ε α β : Type}

/-- Started in `s`, the program ends with a value and a state that satisfy `Q`, where calls end
as `T` says. -/
def Attains (step : (o : S.Op) → σ → Except ε (S.Res o × σ)) (T : Callees S σ)
    (x : Program S α) (s : σ) (Q : α → σ → Prop) : Prop :=
  ∃ a s', Reaches step T x s (some a) s' ∧ Q a s'

section Rules

variable {step : (o : S.Op) → σ → Except ε (S.Res o × σ)} {T : Callees S σ} {s : σ}
  {Q Q' : α → σ → Prop}

theorem attains_pure {a : α} : Attains step T (pure a : Program S α) s Q ↔ Q a s := by
  constructor
  · rintro ⟨b, s', h, hq⟩
    obtain ⟨hb, rfl⟩ := reaches_pure.mp h
    cases hb
    exact hq
  · exact fun h => ⟨a, s, reaches_pure.mpr ⟨rfl, rfl⟩, h⟩

theorem attains_bind {x : Program S α} {f : α → Program S β} {Q : β → σ → Prop} :
    Attains step T (x >>= f) s Q ↔
      Attains step T x s fun a s' => Attains step T (f a) s' Q := by
  constructor
  · rintro ⟨b, s', h, hq⟩
    rcases reaches_bind.mp h with ⟨a, t, hx, hf⟩ | ⟨hb, -⟩
    · exact ⟨a, t, hx, b, s', hf, hq⟩
    · cases hb
  · rintro ⟨a, t, hx, b, s', hf, hq⟩
    exact ⟨b, s', reaches_bind.mpr (Or.inl ⟨a, t, hx, hf⟩), hq⟩

theorem Attains.mono {x : Program S α} (h : Attains step T x s Q)
    (hQ : ∀ a s', Q a s' → Q' a s') : Attains step T x s Q' := by
  obtain ⟨a, s', hx, hq⟩ := h
  exact ⟨a, s', hx, hQ a s' hq⟩

/-- A command that does not fail. -/
theorem attains_perform {o : S.Op} {a : S.Res o} {t : σ} {f : S.Res o → Program S α}
    (ho : step o s = .ok (a, t)) :
    Attains step T (Program.perform o >>= f) s Q ↔ Attains step T (f a) t Q := by
  constructor
  · rintro ⟨b, s', ⟨a', t', ho', hf⟩, hq⟩
    cases ho.symm.trans ho'
    exact ⟨b, s', hf, hq⟩
  · rintro ⟨b, s', hf, hq⟩
    exact ⟨b, s', ⟨a, t, ho, hf⟩, hq⟩

/-- A call. -/
theorem attains_invoke {p : S.Proc} {r : Option (S.Ret p)} {t : σ}
    {f : Option (S.Ret p) → Program S α} (hp : T p s r t) (hf : Attains step T (f r) t Q) :
    Attains step T (Program.invoke p >>= f) s Q := by
  obtain ⟨b, s', hf, hq⟩ := hf
  exact ⟨b, s', ⟨r, t, hp, hf⟩, hq⟩

end Rules

namespace Machine

variable {M : Machine S σ ε} {p : S.Proc} {s : σ}

/-- Called in `s`, the procedure returns something, and the value and the state it leaves
satisfy `Q`. -/
def Answers (M : Machine S σ ε) (p : S.Proc) (s : σ) (Q : S.Ret p → σ → Prop) : Prop :=
  ∃ a s', M.Returns p s (some a) s' ∧ Q a s'

/-- **A procedure answers what its body attains.** -/
theorem answers_iff {Q : S.Ret p → σ → Prop} :
    M.Answers p s Q ↔ Attains M.step M.Returns (M.body p) s Q :=
  exists₂_congr fun _ _ => and_congr_left fun _ => returns_iff

theorem Answers.mono {Q Q' : S.Ret p → σ → Prop} (h : M.Answers p s Q)
    (hQ : ∀ a s', Q a s' → Q' a s') : M.Answers p s Q' := by
  obtain ⟨a, s', hp, hq⟩ := h
  exact ⟨a, s', hp, hQ a s' hq⟩

end Machine

end Procs
