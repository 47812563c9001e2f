import HammerJS.Reflect.ParserLogic

/-!
# Failing productions

A production reports a failure in two ways: it returns null, and it sets
`m_error`.  Some callers look at one of them only, and go on.

* `step_error` — no command clears `m_error`.
* `failureContract` — the two ways agree for `parseSourceElements`, which is what
  `createSyntaxTree` returns.
* `failure_latched` — a failure anywhere in a run reaches its end.
-/

namespace HammerJS

open Procs Machine Parse

variable [Platform]

/-- `m_error` is not cleared between `s` and `s'`. -/
def ErrorKept (s s' : ParserState) : Prop := s.error = true → s'.error = true

omit [Platform] in
theorem ErrorKept.refl (s : ParserState) : ErrorKept s s := id

omit [Platform] in
theorem ErrorKept.trans (s t u : ParserState) (h₁ : ErrorKept s t) (h₂ : ErrorKept t u) :
    ErrorKept s u := h₂ ∘ h₁

/-- A command leaves `m_error` alone, or it is `fail()`, which sets it. -/
theorem step_error {o : ParserOp} {s s' : ParserState} {a : o.Res}
    (h : parserStep o s = .ok (a, s')) :
    s'.error = s.error ∨ (o = .setError ∧ s'.error = true) := by
  cases o with
  | next lexType =>
      left
      simp only [parserStep] at h
      cases hl : Lexer.lex lexType s.token s.lexer with
      | error e => rw [hl] at h; cases h
      | ok r => rw [hl] at h; cases h; rfl
  | scanRegExp patternPrefix =>
      left
      simp only [parserStep] at h
      cases hl : Lexer.scanRegExp patternPrefix s.lexer with
      | error e => rw [hl] at h; cases h
      | ok r => rw [hl] at h; cases h; rfl
  | setError => cases h; exact Or.inr ⟨rfl, rfl⟩
  | crash e => cases h
  | setOffset offset => cases h; exact Or.inl rfl
  | token => cases h; exact Or.inl rfl
  | tokenCount => cases h; exact Or.inl rfl
  | prevTerminator => cases h; exact Or.inl rfl
  | syntaxAlreadyValidated => cases h; exact Or.inl rfl
  | hasError => cases h; exact Or.inl rfl
  | getRegs => cases h; exact Or.inl rfl
  | setRegs regs => cases h; exact Or.inl rfl

theorem step_errorKept (o : ParserOp) (s : ParserState) (a : o.Res) (s' : ParserState)
    (h : parserStep o s = .ok (a, s')) : ErrorKept s s' := by
  intro hs
  rcases step_error h with h' | ⟨-, h'⟩
  · rw [h', hs]
  · exact h'

/-- Whether what a list of statements returned agrees with `m_error`. -/
def failurePost : (p : Production) → Option p.Ret → ParserState → Prop
  | .createSyntaxTree, r, s' => r.isNone = s'.error
  | .sourceElements, r, s' => r.isNone = s'.error
  | .sourceElementsLoop _, r, _ => r.isSome = true
  | _, _, _ => True

/-- The contract of a list of statements; nothing is expected of the other
productions. -/
def failureContract : Contract parserInterface ParserState Crash where
  pre _ _ := True
  post p _ r s' := failurePost p r s'
  excuses _ _ _ := True
  forbids _ _ _ := False
  dead _ _ := False

instance : Ordinary failureContract := ⟨fun h => h.elim, fun h => h.elim⟩

section Bodies

variable {own : Crash → Prop} {s : ParserState}

theorem createSyntaxTree_failure :
    parser.wp failureContract own createSyntaxTree (fun r s' => r.isNone = s'.error) s := by
  simp only [createSyntaxTree, wp_bind, wp_next]
  refine ⟨fun _ _ => Or.inl trivial, fun s₁ _ => wp_parse trivial fun r s₂ _ hr => ?_,
    fun _ _ => Or.inl trivial⟩
  rwa [wp_orReturnNull]

theorem sourceElements_failure :
    parser.wp failureContract own parseSourceElements (fun r s' => r.isNone = s'.error) s := by
  refine wp_parse trivial fun r s₁ _ hr => ?_
  obtain ⟨elements, rfl⟩ := Option.isSome_iff_exists.mp hr
  simp only [wp_bind, wp_orReturnNull, andThen_some, wp_hasError]
  cases he : s₁.error with
  | true => simp [wp_fail, ParserState.failed]
  | false => simp [he]

theorem sourceElementsLoop_failure (elements : Node) :
    parser.wp failureContract own (parseSourceElementsLoop elements)
      (fun r _ => r.isSome = true) s := by
  refine wp_parse trivial fun r s₁ _ _ => ?_
  cases r with
  | none => rfl
  | some statement =>
      refine wp_parse trivial fun r s₂ _ hr => ?_
      rwa [wp_orReturnNull]

end Bodies

theorem failureContract_correct : Correct parser failureContract := by
  intro p s _
  cases p with
  | createSyntaxTree => exact createSyntaxTree_failure
  | sourceElements => exact sourceElements_failure
  | sourceElementsLoop elements => exact sourceElementsLoop_failure elements
  | _ => exact wp_trivial (fun _ _ => trivial) (fun _ => trivial) _

/-- A run of the parser returns null exactly if it ends with `m_error` set. -/
theorem createSyntaxTree_none_iff {s s' : ParserState} {r : Option Node}
    (h : parser.Returns .createSyntaxTree s r s') : r = none ↔ s'.error = true := by
  have hpost : r.isNone = s'.error :=
    Returns.post (fun _ _ hd => hd) failureContract_correct trivial h
  rw [← hpost, Option.isNone_iff_eq_none]

/-- The tree is null exactly if some production executed `fail()`. -/
theorem createSyntaxTree_none_iff_failed {source : List UChar} {n : Nat} {r : Option Node}
    {s' : ParserState}
    (h : parser.run n .createSyntaxTree (initialState source) = .done r s') :
    r = none ↔ ∃ t, parser.Visits n .createSyntaxTree (initialState source) (.op .setError) t := by
  refine (createSyntaxTree_none_iff ⟨n, h⟩).trans ?_
  constructor
  · intro hs'
    obtain ⟨o, t, a, t', hv, ho, ht, ht'⟩ :=
      visits_of_broken (M := parser) (I := fun s : ParserState => s.error = false) n .createSyntaxTree
        (initialState source) s' r h rfl (by simp [hs'])
    rcases step_error ho with he | ⟨rfl, -⟩
    · exact absurd (he.trans ht) ht'
    · exact ⟨t, hv⟩
  · rintro ⟨t, hv⟩
    have hset : parserStep .setError t = .ok ((), t.failed) := rfl
    exact (visits_relates ErrorKept.refl ErrorKept.trans step_errorKept hv hset h).2 rfl

/-- **A failure is latched.**  In every run, `m_error` stays set once a production
has set it, whatever the callers of that production look at; the tree is null
exactly if some production executed `fail()`. -/
theorem failure_latched (source : List UChar) (n : Nat) :
    (∀ p s o t, parser.Visits n p s (.op o) t → ∀ a t', parserStep o t = .ok (a, t') →
      ∀ r s', parser.run n p s = .done r s' →
        (s.error = true → t.error = true) ∧ (t.error = true → t'.error = true) ∧
          (t'.error = true → s'.error = true)) ∧
      ∀ r s', parser.run n .createSyntaxTree (initialState source) = .done r s' →
        (r = none ↔ ∃ t, parser.Visits n .createSyntaxTree (initialState source)
          (.op .setError) t) := by
  constructor
  · intro p s o t hv a t' ho r s' h
    obtain ⟨h₁, h₂⟩ := visits_relates ErrorKept.refl ErrorKept.trans step_errorKept hv ho h
    exact ⟨h₁, step_errorKept o t a t' ho, h₂⟩
  · intro r s' h
    exact createSyntaxTree_none_iff_failed h

end HammerJS
