import HammerJS.Procs.Faults
import HammerJS.Reflect.Exact
import HammerJS.Runs.Termination
import HammerJS.Syntax.StatementsParsed

/-!
# Invalid tokens

What becomes of an invalid token.  Every production but three fails at it.  The header
of a `for` statement skips it after two variables, as if it were the semicolon; the
constant and the accessor that it follows crash.

* `LexProtocol` — what the lexer expects of the parser.
* `MissesInvalid` — a production comes upon an invalid token and does not fail.
* `lexProtocol_iff` — the protocol is met exactly in the parses in which none does.
-/

namespace HammerJS

open Procs Machine Lexer Parse

variable [Platform] {source : List UChar}

/-! ## The protocol -/

/-- What the lexer expects of the parse of a source. -/
structure LexProtocol (source : List UChar) : Prop where
  /-- Once `lex` has returned an invalid token, it is not called again. -/
  stops : ∀ lexType t, Occurs source (.op (.next lexType)) t → t.tokenCount ≠ 0 →
    t.token.type ≠ .errorTok
  /-- The assertions at the entry of `lex` hold at every call. -/
  entry : ∀ lexType t, Occurs source (.op (.next lexType)) t →
    t.lexer.error = false ∧ t.lexer.buffer8 = [] ∧ t.lexer.buffer16 = []
  /-- Of a source in which `lex` finds an invalid token, null is returned. -/
  rejects : ∀ lexType t t', Occurs source (.op (.next lexType)) t → t.Next lexType t' →
    t'.token.type = .errorTok → ∃ s', runParser source = .done none s'

/-- From `s`, where the name of a constant follows, the constant is read up to `s'`, where it
is going to be appended. -/
def ReadsConstant (s s' : ParserState) : Prop :=
  ∃ s₁ s₂, s.Next .identifyReservedWords s₁ ∧ s₁.token.type = .ident ∧
    s₁.Next .identifyReservedWords s₂ ∧
      (s₂.token.type ≠ .equal ∧ s' = s₂ ∨
        s₂.token.type = .equal ∧ ∃ s₃ initializer, s₂.Next .identifyReservedWords s₃ ∧
          parser.Returns .assignmentExpression s₃ initializer s')

/-- From `s`, at the word `get` or `set`, an accessor is read up to `s'`, behind its function. -/
def ReadsAccessor (s s' : ParserState) : Prop :=
  (s.token.data.getIdent = identifierOfChars ['g', 'e', 't'] ∨
      s.token.data.getIdent = identifierOfChars ['s', 'e', 't']) ∧
    (s.token.type = .ident ∨ s.token.type.isKeyword = true) ∧
    ∃ s₁ info, s.Next .ignoreReservedWords s₁ ∧ s₁.token.type = .ident ∧
      parser.Returns (.functionInfo true) s₁ (some info) s'

/-- A production comes upon an invalid token and does not fail: a `for` header, the first
constant of a declaration and an accessor. -/
def MissesInvalid : Production → ParserState → Prop
  | .forStatement, s => SkipsInvalid s
  | .constDeclarationLoop _ _, s => ∃ s', ReadsConstant s s' ∧ s'.token.type = .errorTok
  | .property, s => ∃ s', ReadsAccessor s s' ∧ s'.token.type = .errorTok
  | _, _ => False

/-- Where no invalid token is skipped, `next` is called as it expects. -/
theorem Occurs.ready {lexType : LexType} {t : ParserState}
    (hskips : ∀ u, Occurs source (.call .forStatement) u → ¬ SkipsInvalid u)
    (h : Occurs source (.op (.next lexType)) t) : t.Ready := by
  by_contra hnot
  obtain ⟨ev, u, hu, he⟩ := h.blamed (e := .lexEntry) (Or.inl ⟨rfl, hnot⟩)
  rcases ev with o | p
  · exact he.elim
  · cases p with
    | forStatement => exact hskips u hu he.2
    | constDeclarationLoop a b => cases he.1
    | property => cases he.1
    | _ => exact he.elim

/-- The run of a call in the parse is not cut short. -/
theorem not_timeout_of_call {p : Production} {t : ParserState} {m : Nat}
    (hend : parser.run m p t = .timeout → runParser source = .timeout) :
    parser.run m p t ≠ .timeout := fun htimeout => by
  have hends := runParser_ends source
  rw [hend htimeout] at hends
  exact hends

/-- The current token changes by `next` only. -/
theorem step_token {o : ParserOp} {s s' : ParserState} {a : o.Res}
    (h : parserStep o s = .ok (a, s')) :
    (∃ lexType, o = .next lexType) ∨ s'.token = s.token ∧ s'.tokenCount = s.tokenCount := by
  cases o with
  | next lexType => exact Or.inl ⟨lexType, rfl⟩
  | scanRegExp patternPrefix =>
      simp only [parserStep] at h
      cases hl : Lexer.scanRegExp patternPrefix s.lexer with
      | error e => rw [hl] at h; cases h
      | ok r => rw [hl] at h; cases h; exact Or.inr ⟨rfl, rfl⟩
  | crash e => cases h
  | setOffset offset => cases h; exact Or.inr ⟨rfl, rfl⟩
  | token => cases h; exact Or.inr ⟨rfl, rfl⟩
  | tokenCount => cases h; exact Or.inr ⟨rfl, rfl⟩
  | prevTerminator => cases h; exact Or.inr ⟨rfl, rfl⟩
  | syntaxAlreadyValidated => cases h; exact Or.inr ⟨rfl, rfl⟩
  | hasError => cases h; exact Or.inr ⟨rfl, rfl⟩
  | setError => cases h; exact Or.inr ⟨rfl, rfl⟩
  | getRegs => cases h; exact Or.inr ⟨rfl, rfl⟩
  | setRegs regs => cases h; exact Or.inr ⟨rfl, rfl⟩

/-- The current token is invalid, and was read. -/
def ParserState.Invalid (s : ParserState) : Prop :=
  s.token.type = .errorTok ∧ s.tokenCount ≠ 0

/-- An invalid token stays the current one. -/
theorem invalid_keeps (hskips : ∀ u, Occurs source (.call .forStatement) u → ¬ SkipsInvalid u) :
    parser.Keeping ParserState.Invalid (Occurs source) := by
  intro o t a t' h ho ht
  rcases step_token ho with ⟨lexType, rfl⟩ | ⟨htoken, hcount⟩
  · exact absurd ((h.ready hskips).2 ht.1) ht.2
  · exact ⟨htoken ▸ ht.1, hcount ▸ ht.2⟩

theorem ParserState.Next.tokenCount {s s' : ParserState} {lexType : LexType}
    (hn : s.Next lexType s') : s'.tokenCount = s.tokenCount + 1 := by
  unfold ParserState.Next at hn
  simp only [parserStep] at hn
  cases hlex : lex lexType s.token s.lexer with
  | error e => rw [hlex] at hn; cases hn
  | ok r => rw [hlex] at hn; cases hn; rfl

/-! ## Crashes at an invalid token -/

/-- The contract under which a crash is accounted for, unless the current token is invalid. -/
def atInvalid : Contract parserInterface ParserState Crash where
  pre _ _ := True
  post _ _ _ _ := True
  excuses ev s _ := match ev with
    | .op (.next _) => True
    | .op (.crash _) => s.token.type ≠ .errorTok
    | _ => False
  forbids _ _ _ := False
  dead _ _ := False

instance : Ordinary atInvalid := ⟨fun h => h.elim, fun h => h.elim⟩

section Bodies

variable {own : Crash → Prop} {s : ParserState} {α β : Type} {Q : Option α → ParserState → Prop}

theorem atInvalid_next {lexType : LexType} {f : Unit → Parse α}
    (hf : ∀ s', s.Next lexType s' → parser.wp atInvalid own (f ()) Q s') :
    parser.wp atInvalid own (next lexType >>= f) Q s := by
  rw [wp_bind, wp_next]
  exact ⟨fun _ h => h.elim, hf, fun _ _ => Or.inl trivial⟩

theorem atInvalid_ifToken {t : JSTokenType} {x y : Parse α}
    (hx : s.token.type = t → parser.wp atInvalid own x Q s)
    (hy : s.token.type ≠ t → parser.wp atInvalid own y Q s) :
    parser.wp atInvalid own (isToken t >>= fun b => if b = true then x else y) Q s := by
  rw [wp_bind, wp_isToken, andThen_some, wp_ite]
  by_cases ht : s.token.type = t
  · simpa [ht] using hx ht
  · simpa [ht] using hy ht

theorem atInvalid_ifToken_bind {t : JSTokenType} {x y : Parse β} {f : β → Parse α}
    (hx : s.token.type = t → parser.wp atInvalid own (x >>= f) Q s)
    (hy : s.token.type ≠ t → parser.wp atInvalid own (y >>= f) Q s) :
    parser.wp atInvalid own ((isToken t >>= fun b => if b = true then x else y) >>= f) Q s := by
  rw [wp_bind] at hx hy ⊢
  exact atInvalid_ifToken hx hy

theorem atInvalid_matchOrFail {t : JSTokenType} {f : Unit → Parse α} (hfail : Q none s.failed)
    (hf : s.token.type = t → parser.wp atInvalid own (f ()) Q s) :
    parser.wp atInvalid own (matchOrFail t >>= f) Q s := by
  refine atInvalid_ifToken_bind hf fun _ => ?_
  rw [wp_bind, wp_fail]
  exact fun _ => hfail

theorem atInvalid_tokenData {f : JSTokenData → Parse α}
    (hf : parser.wp atInvalid own (f s.token.data) Q s) :
    parser.wp atInvalid own (tokenData >>= f) Q s := by
  rwa [wp_bind, wp_tokenData]

theorem atInvalid_crash {e : Crash} (hown : s.token.type = .errorTok → own e) :
    parser.wp atInvalid own (crash e) Q s := by
  rw [wp_crash]
  exact (em (s.token.type = .errorTok)).symm.imp id hown

theorem atInvalid_appendConstDecl {f : Node → Parse α} (name : Identifier)
    (initializer : Option Node) (hown : s.token.type = .errorTok → ∀ e, own e) :
    parser.wp atInvalid own (appendConstDecl none name initializer >>= f) Q s := by
  rw [wp_bind]
  exact atInvalid_crash fun h => hown h _

theorem atInvalid_failIfNull {r : Option β} {f : β → Parse α} (hfail : Q none s.failed)
    (hf : ∀ b, r = some b → parser.wp atInvalid own (f b) Q s) :
    parser.wp atInvalid own (failIfNull r >>= f) Q s := by
  rw [wp_bind, wp_failIfNull]
  cases r with
  | none => exact fun _ => hfail
  | some b => exact hf b rfl

theorem atInvalid_failIfFalse {c : Bool} {f : Unit → Parse α} (hfail : Q none s.failed)
    (hf : c = true → parser.wp atInvalid own (f ()) Q s) :
    parser.wp atInvalid own (failIfFalse c >>= f) Q s := by
  rw [wp_bind, wp_failIfFalse]
  cases c with
  | false => exact fun _ => hfail
  | true => exact hf rfl

theorem atInvalid_consumeOrFail {t : JSTokenType} {f : Unit → Parse α}
    (hfail : Q none s.failed.failed)
    (hf : ∀ s', s.Next .identifyReservedWords s' → parser.wp atInvalid own (f ()) Q s') :
    parser.wp atInvalid own (consumeOrFail t >>= f) Q s := by
  unfold consumeOrFail consume
  rw [wp_bind, wp_bind]
  refine atInvalid_ifToken (fun _ => atInvalid_next fun s' h' => hf s' h') fun _ => ?_
  rw [wp_bind, wp_setError]
  intro _
  refine (wp_fail (C := atInvalid)).mpr fun _ => hfail

end Bodies

/-- A constant that is appended at an invalid token. -/
theorem constDeclarationLoop_misses {constDecls : Option Node} {s : ParserState} :
    parser.wp atInvalid (fun _ => MissesInvalid (.constDeclarationLoop constDecls none) s)
      (parseConstDeclarationLoop constDecls none) (fun _ _ => True) s := by
  refine atInvalid_next fun s₁ h₁ => ?_
  refine atInvalid_matchOrFail trivial fun hident => ?_
  refine atInvalid_tokenData ?_
  refine atInvalid_next fun s₂ h₂ => ?_
  refine atInvalid_ifToken_bind (fun hequal => ?_) fun hequal => ?_
  · refine atInvalid_next fun s₃ h₃ => ?_
    refine wp_parse trivial fun r s₄ hr _ => ?_
    exact atInvalid_appendConstDecl _ r fun hinvalid _ =>
      ⟨s₄, ⟨s₁, s₂, h₁, hident, h₂, Or.inr ⟨hequal, s₃, r, h₃, hr⟩⟩, hinvalid⟩
  · exact atInvalid_appendConstDecl s₁.token.data.getIdent none fun hinvalid _ =>
      ⟨s₂, ⟨s₁, s₂, h₁, hident, h₂, Or.inl ⟨hequal, rfl⟩⟩, hinvalid⟩

/-- The value of a property is read without a crash. -/
theorem propertyValue_misses {own : Crash → Prop} {s : ParserState} {g : Node → Node} :
    parser.wp atInvalid own (do
      let node ← failIfNull (← parse .assignmentExpression)
      return g node) (fun _ _ => True) s := by
  refine wp_parse trivial fun r s₁ _ _ => ?_
  exact atInvalid_failIfNull trivial fun node _ => trivial

theorem parseNamedProperty_misses {wasIdent : Bool} {s : ParserState}
    (hident : wasIdent = true → s.token.type = .ident ∨ s.token.type.isKeyword = true) :
    parser.wp atInvalid (fun _ => MissesInvalid .property s) (parseNamedProperty wasIdent)
      (fun _ _ => True) s := by
  refine atInvalid_tokenData ?_
  refine atInvalid_next fun s₁ h₁ => ?_
  refine atInvalid_ifToken (fun _ => atInvalid_next fun s₂ _ => propertyValue_misses) fun _ => ?_
  refine atInvalid_failIfFalse trivial fun hwas => ?_
  refine atInvalid_matchOrFail trivial fun hname => ?_
  rw [wp_ite]
  split
  · rename_i haccessor
    refine wp_parse trivial fun r s₂ hr _ => ?_
    refine atInvalid_failIfNull trivial fun info hinfo => ?_
    subst hinfo
    exact atInvalid_crash fun hinvalid =>
      ⟨s₂, ⟨haccessor, hident hwas, s₁, info, h₁, hname, hr⟩, hinvalid⟩
  · rw [wp_fail]
    exact fun _ => trivial

/-- An accessor whose function is read at an invalid token. -/
theorem property_misses {s : ParserState} :
    parser.wp atInvalid (fun _ => MissesInvalid .property s) parseProperty (fun _ _ => True)
      s := by
  unfold parseProperty
  rw [wp_bind, wp_tokenType, andThen_some]
  split
  case h_1 ht => exact parseNamedProperty_misses fun _ => Or.inl ht
  case h_2 ht => exact parseNamedProperty_misses fun h => by cases h
  case h_3 ht =>
    refine atInvalid_tokenData ?_
    refine atInvalid_next fun s₁ _ => ?_
    exact atInvalid_consumeOrFail trivial fun s₂ _ => propertyValue_misses
  case h_4 =>
    refine atInvalid_failIfFalse trivial fun hkeyword => ?_
    exact parseNamedProperty_misses fun _ => Or.inr hkeyword

/-- A command that faults in the parse with an invalid token as the current one is issued by
a production that misses it. -/
theorem FaultsAt.misses {q : Production} {o : ParserOp} {u v : ParserState} {e : Crash}
    (hpre : Pre q u) {s : ParserState}
    (hf : parser.FaultsAt (Occurs source) s (q.Issues u) e o v)
    (hv : v.token.type = .errorTok) : MissesInvalid q u := by
  have hexcused : Excused (.call q) u e :=
    (hf.issued.accounted safety_neverDead (fun _ _ _ _ hp hr =>
      Returns.post safety_neverDead parser_safe.correct hp hr)
      (parser_safe.correct q u hpre) hf.step).resolve_left id
  -- an assertion of `lex` is no crash of its own
  have hnext : ∀ lexType, o = .next lexType → e = .lexEntry := by
    rintro lexType rfl
    exact Sound.next_crash (Occurs.sound hf.visited) hf.step
  have hcrash : ∀ own : Prop, (atInvalid.excuses (.op o) v e ∨ own) → e ≠ .lexEntry → own := by
    rintro own (he | he) hne
    · cases o with
      | next lexType => exact absurd (hnext lexType rfl) hne
      | crash e' => exact absurd hv he
      | _ => exact he.elim
    · exact he
  cases q with
  | forStatement => exact hexcused.2
  | constDeclarationLoop constDecls tail =>
      obtain ⟨-, rfl⟩ := hpre.start
      exact hcrash _ (hf.issued.accounted (fun _ _ h => h) (fun _ _ _ _ _ _ => trivial)
        constDeclarationLoop_misses hf.step) (by rw [hexcused.1]; simp)
  | property =>
      exact hcrash _ (hf.issued.accounted (fun _ _ h => h) (fun _ _ _ _ _ _ => trivial)
        property_misses hf.step) (by rw [hexcused.1]; simp)
  | _ => exact hexcused.elim

/-- Where no production misses an invalid token, the protocol is met. -/
theorem lexProtocol_of_no_miss
    (hmiss : ∀ p t, Occurs source (.call p) t → ¬ MissesInvalid p t) : LexProtocol source := by
  have hskips : ∀ u, Occurs source (.call .forStatement) u → ¬ SkipsInvalid u :=
    fun u => hmiss .forStatement u
  refine ⟨fun lexType t h hcount ht => hcount ((h.ready hskips).2 ht),
    fun lexType t h => ⟨(h.ready hskips).1.error, (h.ready hskips).1.buffer8,
      (h.ready hskips).1.buffer16⟩, fun lexType t t' h hn ht' => ?_⟩
  have hinvalid : t'.Invalid := ⟨ht', by rw [hn.tokenCount]; exact Nat.succ_ne_zero _⟩
  cases hrun : runParser source with
  | timeout => exact absurd hrun (not_timeout_of_call id)
  | done r s' =>
      cases r with
      | none => exact ⟨s', rfl⟩
      | some tree =>
          have hs' : s'.Invalid := visits_keeps hrun h hn hinvalid (invalid_keeps hskips)
          obtain ⟨-, -, -, hends⟩ := createSyntaxTree_parsed hrun
          rw [hs'.1] at hends
          cases hends
  | fault e =>
      obtain ⟨q, u, o, v, hq, hf⟩ := run_fault hrun
      have hv : v.Invalid :=
        hf.last.later _ (invalid_keeps hskips) (.next lexType) t () t' h hn hinvalid
      rcases hq with ⟨rfl, rfl⟩ | hq
      · exact (FaultsAt.misses (initialState_pre source) hf hv.1).elim
      · exact absurd (FaultsAt.misses (Occurs.pre hq) hf hv.1) (hmiss q u hq)

/-! ## The productions that miss an invalid token -/

section Path

variable {dead : ParserOp → Prop} {s s' : ParserState}

theorem finishes_perform {o : ParserOp} {a : o.Res} (ho : ¬ dead o)
    (hs : parserStep o s = .ok (a, s')) :
    parser.Finishes dead (Program.perform (S := parserInterface) o) s (some a) s' :=
  ⟨ho, a, s', hs, rfl, rfl⟩

variable (hdead : ∀ o, ¬ dead o)
include hdead

theorem finishes_next {lexType : LexType} (hn : s.Next lexType s') :
    parser.Finishes dead (next lexType) s (some ()) s' := finishes_perform (hdead _) hn

theorem finishes_isToken {t : JSTokenType} {b : Bool} (hb : decide (s.token.type = t) = b) :
    parser.Finishes dead (isToken t) s (some b) s :=
  .bind (a := s.token) (finishes_perform (hdead _) rfl) ⟨congrArg some hb.symm, rfl⟩

theorem finishes_assertToken {t : JSTokenType} (ht : s.token.type = t) :
    parser.Finishes dead (assertToken t) s (some ()) s :=
  .bind (finishes_isToken hdead (decide_eq_true ht)) ⟨rfl, rfl⟩

theorem finishes_consumeOrFail {t : JSTokenType} (ht : s.token.type = t)
    (hn : s.Next .identifyReservedWords s') :
    parser.Finishes dead (consumeOrFail t) s (some ()) s' := by
  have hconsume : parser.Finishes dead (consume t) s (some true) s' :=
    .bind (finishes_isToken hdead (decide_eq_true ht))
      (.bind (finishes_next hdead hn) ⟨rfl, rfl⟩)
  exact .bind hconsume ⟨rfl, rfl⟩

theorem finishes_modifyRegs {f : Registers → Registers} :
    parser.Finishes dead (modifyRegs f) s (some ()) { s with regs := f s.regs } :=
  .bind (a := s.regs) (finishes_perform (hdead _) rfl) (finishes_perform (hdead _) rfl)

theorem finishes_nonLHSCount :
    parser.Finishes dead nonLHSCount s (some s.regs.nonLHSCount) s :=
  .bind (a := s.regs) (finishes_perform (hdead _) rfl) ⟨rfl, rfl⟩

theorem finishes_parse {p : Production} {r : Option p.Ret} (hr : parser.Returns p s r s') :
    parser.Finishes dead (parse p) s (some r) s' := by
  obtain ⟨n, hn⟩ := hr
  exact ⟨r, s', ⟨n, hn, fun o _ _ => hdead o⟩, rfl, rfl⟩

theorem finishes_matchOrFail {t : JSTokenType} (ht : s.token.type = t) :
    parser.Finishes dead (matchOrFail t) s (some ()) s := by
  refine .bind (finishes_isToken hdead (decide_eq_true ht)) ?_
  exact ⟨rfl, rfl⟩

theorem finishes_tokenData : parser.Finishes dead tokenData s (some s.token.data) s :=
  .bind (a := s.token) (finishes_perform (hdead _) rfl) ⟨rfl, rfl⟩

theorem finishes_tokenType : parser.Finishes dead tokenType s (some s.token.type) s :=
  .bind (a := s.token) (finishes_perform (hdead _) rfl) ⟨rfl, rfl⟩

theorem finishes_hasError : parser.Finishes dead hasError s (some s.error) s :=
  finishes_perform (hdead _) rfl

end Path

/-- No command makes `m_tokenCount` smaller. -/
theorem step_tokenCount (o : ParserOp) (s : ParserState) (a : o.Res) (s' : ParserState)
    (h : parserStep o s = .ok (a, s')) : s.tokenCount ≤ s'.tokenCount := by
  rcases step_token h with ⟨lexType, rfl⟩ | ⟨-, hcount⟩
  · have hn : s.Next lexType s' := h
    exact hn.tokenCount ▸ Nat.le_succ _
  · exact hcount.ge

/-- The header reads a token after the invalid one. -/
theorem forStatement_issues {t : ParserState} (ht : t.token.type = .for) (h : SkipsInvalid t) :
    ∃ u, Production.forStatement.Issues t (.op (.next .identifyReservedWords)) u ∧ u.Invalid := by
  obtain ⟨s₁, s₂, decls, s₃, hfor, hparen, hnext, hvar, hdecls, herror, hmany, hinvalid⟩ := h
  have hdead : ∀ o : ParserOp, ¬ (fun _ => False) o := fun _ h => h
  refine ⟨{ s₃ with regs := { s₃.regs with allowsIn := true } }, ?_, hinvalid, ?_⟩
  · refine .bind (finishes_assertToken hdead ht) (.bind (finishes_next hdead hfor)
      (.bind (finishes_consumeOrFail hdead hparen hnext) (.bind (finishes_nonLHSCount hdead)
        (.bind (finishes_isToken hdead (decide_eq_true hvar)) ?_))))
    refine .bind (finishes_modifyRegs hdead) (.bind (finishes_parse hdead hdecls)
      (.bind (finishes_modifyRegs hdead) (.bind (finishes_hasError hdead) ?_)))
    simp only [herror, Bool.false_eq_true, if_false]
    refine .bind (a := decls) ⟨rfl, rfl⟩ (.bind (finishes_isToken hdead rfl) ?_)
    rw [if_pos (Or.inl hmany)]
    exact Or.inl ⟨rfl, rfl⟩
  · obtain ⟨n, hn⟩ := hdecls
    have hle := run_relates (M := parser) (R := fun s s' => s.tokenCount ≤ s'.tokenCount)
      (fun _ => le_rfl) (fun _ _ _ => le_trans) step_tokenCount n .varDeclarationList hn
    have hcount := hnext.tokenCount
    change s₃.tokenCount ≠ 0
    change s₂.tokenCount ≤ _ at hle
    omega

/-- The crash of a constant. -/
theorem constDeclarationLoop_issues {constDecls : Option Node} {t s' : ParserState}
    (h : ReadsConstant t s') :
    Production.Issues (.constDeclarationLoop constDecls none) t (.op (.crash .nullNode)) s' := by
  obtain ⟨s₁, s₂, h₁, hident, h₂, hinitializer⟩ := h
  have hdead : ∀ o : ParserOp, ¬ (fun _ => False) o := fun _ h => h
  have hread : ∃ initializer, parser.Finishes (fun _ => False) parseConstInitializer s₂
      (some initializer) s' := by
    rcases hinitializer with ⟨hequal, rfl⟩ | ⟨hequal, s₃, initializer, h₃, hr⟩
    · exact ⟨none, .bind (finishes_isToken hdead (decide_eq_false hequal)) ⟨rfl, rfl⟩⟩
    · exact ⟨initializer, .bind (finishes_isToken hdead (decide_eq_true hequal))
        (.bind (finishes_next hdead h₃) (finishes_parse hdead hr))⟩
  obtain ⟨initializer, hread⟩ := hread
  refine .bind (finishes_next hdead h₁) (.bind (finishes_matchOrFail hdead hident)
    (.bind (finishes_tokenData hdead) (.bind (finishes_next hdead h₂) (.bind hread ?_))))
  exact Or.inl ⟨rfl, rfl⟩

/-- The crash of an accessor. -/
theorem property_issues {t s' : ParserState} (h : ReadsAccessor t s') :
    Production.Issues .property t (.op (.crash .getterOrSetter)) s' := by
  obtain ⟨hword, htype, s₁, info, h₁, hident, hr⟩ := h
  have hdead : ∀ o : ParserOp, ¬ (fun _ => False) o := fun _ h => h
  have hnamed : parser.Issues (fun _ => False) (parseNamedProperty true) t
      (.op (.crash .getterOrSetter)) s' := by
    refine .bind (finishes_tokenData hdead) (.bind (finishes_next hdead h₁)
      (.bind (finishes_isToken hdead (decide_eq_false (by simp [hident]))) ?_))
    refine .bind (a := ()) ⟨rfl, rfl⟩ (.bind (finishes_matchOrFail hdead hident) ?_)
    rw [if_pos hword]
    exact .bind (finishes_parse hdead hr) (.bind (a := info) ⟨rfl, rfl⟩ (Or.inl ⟨rfl, rfl⟩))
  refine .bind (finishes_tokenType hdead) ?_
  rcases htype with htype | hkeyword
  · rw [htype]
    exact hnamed
  · have hother : ∀ type : JSTokenType, type.isKeyword = false → t.token.type ≠ type := by
      rintro type htype rfl
      rw [hkeyword] at htype
      cases htype
    split
    case h_1 ht => exact absurd ht (hother _ rfl)
    case h_2 ht => exact absurd ht (hother _ rfl)
    case h_3 ht => exact absurd ht (hother _ rfl)
    case h_4 =>
      rw [hkeyword]
      exact .bind (a := ()) ⟨rfl, rfl⟩ hnamed

/-- A parse that meets the protocol does not crash at an invalid token. -/
theorem LexProtocol.not_crashes (h : LexProtocol source) {p : Production} {t v : ParserState}
    {e : Crash} (ht : Occurs source (.call p) t) (hstart : t.token.type ≠ .errorTok)
    (hissues : p.Issues t (.op (.crash e)) v) : v.token.type ≠ .errorTok := by
  intro hv
  obtain ⟨m, hwithin, hend⟩ := visits_call ht
  have hvisits : parser.Visits m p t (.op (.crash e)) v :=
    hissues.visits (not_timeout_of_call hend)
  -- the invalid token was read on the way to the crash
  obtain ⟨o, u, a, u', hu, ho, htoken, htoken'⟩ :=
    broken_of_visits (I := fun s : ParserState => s.token.type ≠ .errorTok) hvisits hstart
      (fun hne => hne hv)
  rcases step_token ho with ⟨lexType, rfl⟩ | ⟨hsame, -⟩
  · obtain ⟨s', hdone⟩ := h.rejects lexType u u' (hwithin _ u hu) ho (by simpa using htoken')
    have hreturns : ∀ r s', ¬ parser.Returns p t r s' := fun r s' hr =>
      hissues.not_reaches rfl (returns_iff.mp hr)
    obtain ⟨e', hfault⟩ := visits_fault ht hreturns (not_timeout_of_call id)
    rw [runParser, hfault] at hdone
    cases hdone
  · exact htoken' (by rw [hsame]; exact htoken)

/-- **The protocol is met exactly in the parses in which no production misses an invalid
token.** -/
theorem lexProtocol_iff (source : List UChar) :
    LexProtocol source ↔ ∀ p t, Occurs source (.call p) t → ¬ MissesInvalid p t := by
  refine ⟨fun h p t ht hmiss => ?_, lexProtocol_of_no_miss⟩
  cases p with
  | forStatement =>
      obtain ⟨u, hissues, hinvalid, hcount⟩ := forStatement_issues ht.pre.start hmiss
      obtain ⟨m, hwithin, hend⟩ := visits_call ht
      exact h.stops _ u (hwithin _ u (hissues.visits (not_timeout_of_call hend))) hcount hinvalid
  | constDeclarationLoop constDecls tail =>
      obtain ⟨hreal, rfl⟩ := ht.pre.start
      obtain ⟨s', hread, hinvalid⟩ := hmiss
      refine h.not_crashes ht (fun hne => ?_) (constDeclarationLoop_issues hread) hinvalid
      rw [hne] at hreal
      cases hreal
  | property =>
      obtain ⟨s', hread, hinvalid⟩ := hmiss
      refine h.not_crashes ht (fun hne => ?_) (property_issues hread) hinvalid
      rcases hread.2.1 with htype | htype <;> rw [hne] at htype <;> cases htype
  | _ => exact hmiss

/-- The source `for (var a,b \;);`, with an escape that is not valid. -/
def skippingSource : List UChar :=
  identifierOfChars
    ['f', 'o', 'r', '(', 'v', 'a', 'r', ' ', 'a', ',', 'b', ' ', '\\', ';', ')', ';']

omit [Platform] in
/-- It is accepted, and the token after the invalid one is read. -/
theorem lexProtocol_skipped : ¬ @LexProtocol exactPlatform skippingSource := by
  let _ : Platform := exactPlatform
  intro h
  obtain ⟨e, t, hv, ht⟩ := parser.visits_of_any
    (fun e t => match e with
      | .op (.next _) => t.token.type = .errorTok && t.tokenCount != 0
      | _ => false)
    (callDepth skippingSource) .createSyntaxTree (initialState skippingSource) (by decide +kernel)
  split at ht
  · rename_i lexType
    simp only [Bool.and_eq_true, decide_eq_true_eq, bne_iff_ne] at ht
    exact h.stops lexType t hv ht.2 ht.1
  · cases ht

end HammerJS
