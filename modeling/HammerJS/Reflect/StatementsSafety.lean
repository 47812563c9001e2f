import HammerJS.Reflect.ExpressionsSafety

/-!
# The productions for statements are safe

One lemma for each production of `Statements.lean`, as for those of
`Expressions.lean`, and what they add up to:

* `parser_safe` — every production meets `safety`, and calls only productions of
  smaller measure.
* `runParser_ends` — the parser comes to an end on every source.
-/

namespace HammerJS

open Procs Machine Lexer Parse

variable [Platform] {s : ParserState}

/-! ## Lists of statements -/

theorem createSyntaxTree_safe (hp : Pre .createSyntaxTree s) :
    Safe .createSyntaxTree s createSyntaxTree (Done .createSyntaxTree s) s := by
  obtain ⟨hi, hcount⟩ := hp.start
  unfold createSyntaxTree
  rw [safe_bind]
  unfold Safe
  rw [wp_next]
  refine ⟨?_, ?_, ?_⟩
  · rintro e (⟨-, hnot⟩ | ⟨-, hnot⟩)
    · exact absurd ⟨hi, fun _ => hcount⟩ hnot
    · exact absurd hp.sound hnot
  · intro s₁ hn
    obtain ⟨hsound, hleft⟩ := hp.sound.next hi hn
    have h₁ : Kept .createSyntaxTree s s₁ :=
      (Kept.refl hp.sound).next hsound (hleft.trans (Nat.le_add_right _ _)) hn.regs_error.1
    exact safe_parseLast_first rfl rfl rfl hp h₁ trivial fun a s₂ h₂ _ => h₂.post rfl trivial
  · intro e he
    exact absurd (hp.sound.next_error he) hi.not_stuck

theorem sourceElements_safe (hp : Pre .sourceElements s) :
    Safe .sourceElements s parseSourceElements (Done .sourceElements s) s := by
  refine safe_parseOrNull_first rfl rfl rfl hp (.refl hp.sound) trivial fun elements s₁ h₁ _ => ?_
  refine safe_hasError ?_
  split
  · exact safe_fail h₁
  · exact h₁.post rfl trivial

theorem sourceElementsLoop_safe {elements : Node} (hp : Pre (.sourceElementsLoop elements) s) :
    Safe (.sourceElementsLoop elements) s (parseSourceElementsLoop elements)
      (Done (.sourceElementsLoop elements) s) s := by
  refine safe_parse_first rfl rfl hp (.refl hp.sound) trivial fun statement s₁ h₁ hstatement => ?_
  cases statement with
  | none => exact h₁.post rfl trivial
  | some statement =>
      have h₁ : Past (.sourceElementsLoop elements) s s₁ :=
        ⟨h₁, hstatement.progress (by simp) rfl⟩
      exact safe_parseLast rfl rfl hp h₁ trivial fun r s₂ h₂ _ => h₂.toKept.post rfl trivial

theorem blockStatement_safe (hp : Pre .blockStatement s) :
    Safe .blockStatement s parseBlockStatement (Done .blockStatement s) s := by
  refine safe_assertToken hp.start ?_
  refine safe_next (.refl hp.sound) (hp.start ▸ rfl) fun s₁ _ h₁ => ?_
  refine safe_ifToken (fun ht => ?_) fun _ => ?_
  · exact safe_next h₁.toKept (ht ▸ rfl) fun s₂ _ h₂ => h₂.post trivial
  · refine safe_parseOrFail rfl hp h₁ trivial fun subtree s₂ h₂ _ => ?_
    refine safe_matchOrFail h₂.toKept fun ht => ?_
    exact safe_next h₂.toKept (ht ▸ rfl) fun s₃ _ h₃ => h₃.post trivial

/-! ## Declarations -/

omit [Platform] in
theorem Past.of_post {p q : Production} {s₀ s s' : ParserState} {a : q.Ret} (h : Kept p s₀ s)
    (h' : Post q s (some a) s') (hc : q.consumes = true) (hq : q.slack = 0) : Past p s₀ s' :=
  ⟨h.trans h'.kept hq, lt_of_lt_of_le (h'.progress (by simp) hc) h.left⟩

theorem varDeclaration_safe (hp : Pre .varDeclaration s) :
    Safe .varDeclaration s parseVarDeclaration (Done .varDeclaration s) s := by
  have h := Kept.refl (p := .varDeclaration) hp.sound
  have hstart : s.token.type = .var := hp.start
  refine safe_assertToken hstart ?_
  refine safe_parse_first rfl rfl hp h (show s.token.type.isReal = true by rw [hstart]; rfl)
    fun varDecls s₁ h₁ hdecls => ?_
  refine safe_failIfError h₁ fun _ => ?_
  refine safe_orReturnNull h₁ (fun hnone => hdecls.error hnone rfl) fun decls hsome => ?_
  subst hsome
  exact safe_semicolonOrFail (Past.of_post h hdecls rfl rfl) fun s₂ h₂ => h₂.post trivial

theorem varDeclarationList_safe (hp : Pre .varDeclarationList s) :
    Safe .varDeclarationList s parseVarDeclarationList (Done .varDeclarationList s) s := by
  have h := Kept.refl (p := .varDeclarationList) hp.sound
  exact safe_parseLast_first rfl rfl rfl hp h hp.start
    fun r s₁ _ hr => (Past.of_post h hr rfl rfl).post trivial

theorem varDeclarationLoop_safe {varDecls lastInitializer : Option Node} {declarations : Nat}
    (hp : Pre (.varDeclarationLoop varDecls declarations lastInitializer) s) :
    Safe (.varDeclarationLoop varDecls declarations lastInitializer) s
      (parseVarDeclarationLoop varDecls declarations lastInitializer)
      (Done (.varDeclarationLoop varDecls declarations lastInitializer) s) s := by
  have hcontinue : ∀ decls name init s₁,
      Past (.varDeclarationLoop varDecls declarations lastInitializer) s s₁ →
      Safe (.varDeclarationLoop varDecls declarations lastInitializer) s
        (parseVarDeclarationLoop.continueVarDeclarations decls (declarations + 1) name init)
        (Done (.varDeclarationLoop varDecls declarations lastInitializer) s) s₁ := by
    intro decls name init s₁ h₁
    refine safe_ifToken (fun ht => ?_) fun _ => h₁.post trivial
    exact safe_parseLast rfl rfl hp h₁ (show s₁.token.type.isReal = true by rw [ht]; rfl)
      fun r s₂ h₂ _ => h₂.post trivial
  refine safe_next (.refl hp.sound) hp.start fun s₁ _ h₁ => ?_
  refine safe_matchOrFail h₁.toKept fun ht => safe_tokenData ?_
  refine safe_next h₁.toKept (ht ▸ rfl) fun s₂ _ h₂ => ?_
  refine safe_ifToken (fun ht => ?_) fun _ => hcontinue _ _ _ s₂ h₂
  refine safe_next h₂.toKept (ht ▸ rfl) fun s₃ _ h₃ => ?_
  exact safe_parseOrFail rfl hp h₃ trivial fun initializer s₄ h₄ _ => hcontinue _ _ _ s₄ h₄

theorem constDeclaration_safe (hp : Pre .constDeclaration s) :
    Safe .constDeclaration s parseConstDeclaration (Done .constDeclaration s) s := by
  have h := Kept.refl (p := .constDeclaration) hp.sound
  have hstart : s.token.type = .constToken := hp.start
  refine safe_assertToken hstart ?_
  refine safe_parse_first rfl rfl hp h (show s.token.type.isReal = true by rw [hstart]; rfl)
    fun constDecls s₁ h₁ hdecls => ?_
  refine safe_failIfError h₁ fun _ => ?_
  refine safe_orReturnNull h₁ (fun hnone => hdecls.error hnone rfl) fun decls hsome => ?_
  exact (hdecls.result decls hsome).elim

theorem constDeclarationList_safe (hp : Pre .constDeclarationList s) :
    Safe .constDeclarationList s parseConstDeclarationList (Done .constDeclarationList s) s := by
  have h := Kept.refl (p := .constDeclarationList) hp.sound
  exact safe_parseLast_first rfl rfl rfl hp h ⟨hp.start, rfl⟩
    fun r s₁ _ hr => (hr.result r rfl).elim

/-- The first constant is appended to the null list. -/
theorem appendConstDecl_safe {p : Production} {s₀ : ParserState} {β : Type} {f : Node → Parse β}
    {Q : β → ParserState → Prop} (hexcused : Excused (.call p) s₀ .nullNode) (name : Identifier)
    (initializer : Option Node) :
    Safe p s₀ (appendConstDecl none name initializer >>= f) Q s := by
  rw [safe_bind]
  unfold Safe appendConstDecl
  rw [wp_crash]
  exact Or.inr hexcused

/-- A list of constants fails before its first one, or crashes at it. -/
theorem constDeclarationLoop_safe {constDecls tail : Option Node}
    (hp : Pre (.constDeclarationLoop constDecls tail) s) :
    Safe (.constDeclarationLoop constDecls tail) s (parseConstDeclarationLoop constDecls tail)
      (Done (.constDeclarationLoop constDecls tail) s) s := by
  obtain ⟨hstart, htail⟩ := hp.start
  subst htail
  refine safe_next (.refl hp.sound) hstart fun s₁ hn h₁ => ?_
  refine safe_matchOrFail h₁.toKept fun ht => safe_tokenData ?_
  have hexcused : Excused (.call (.constDeclarationLoop constDecls none)) s .nullNode :=
    ⟨rfl, s₁, hn, ht⟩
  refine safe_next h₁.toKept (ht ▸ rfl) fun s₂ _ h₂ => ?_
  rw [safe_bind]
  refine safe_ifToken (fun ht => ?_) fun _ => ?_
  · refine safe_next h₂.toKept (ht ▸ rfl) fun s₃ _ h₃ => ?_
    refine safe_parse (f := pure) rfl hp h₃ trivial fun initializer s₄ h₄ _ => ?_
    rw [safe_pure]
    exact appendConstDecl_safe hexcused _ initializer
  · rw [safe_pure]
    exact appendConstDecl_safe hexcused _ none

/-! ## Loops -/

theorem doWhileStatement_safe (hp : Pre .doWhileStatement s) :
    Safe .doWhileStatement s parseDoWhileStatement (Done .doWhileStatement s) s := by
  refine safe_assertToken hp.start ?_
  refine safe_next (.refl hp.sound) (hp.start ▸ rfl) fun s₁ _ h₁ => ?_
  refine safe_parseOrFail rfl hp h₁ trivial fun statement s₂ h₂ _ => ?_
  refine safe_consumeOrFail rfl h₂.toKept fun s₃ _ h₃ => ?_
  refine safe_consumeOrFail rfl h₃.toKept fun s₄ _ h₄ => ?_
  refine safe_parseOrFail rfl hp h₄ trivial fun expr s₅ h₅ _ => ?_
  refine safe_consumeOrFail rfl h₅.toKept fun s₆ _ h₆ => ?_
  refine safe_ifToken (fun ht => ?_) fun _ => h₆.post trivial
  exact safe_next h₆.toKept (ht ▸ rfl) fun s₇ _ h₇ => h₇.post trivial

theorem whileStatement_safe (hp : Pre .whileStatement s) :
    Safe .whileStatement s parseWhileStatement (Done .whileStatement s) s := by
  refine safe_assertToken hp.start ?_
  refine safe_next (.refl hp.sound) (hp.start ▸ rfl) fun s₁ _ h₁ => ?_
  refine safe_consumeOrFail rfl h₁.toKept fun s₂ _ h₂ => ?_
  refine safe_parseOrFail rfl hp h₂ trivial fun expr s₃ h₃ _ => ?_
  refine safe_consumeOrFail rfl h₃.toKept fun s₄ _ h₄ => ?_
  exact safe_parseOrFail rfl hp h₄ trivial fun statement s₅ h₅ _ => h₅.post trivial

theorem parseExpressionUnless_safe {p : Production} {s₀ : ParserState} {β : Type}
    {f : Option Node → Parse β} {Q : β → ParserState → Prop} {t : JSTokenType} (hp : Pre p s₀)
    (h : Past p s₀ s) (hf : ∀ expr s', Past p s₀ s' → Safe p s₀ (f expr) Q s') :
    Safe p s₀ (parseExpressionUnless t >>= f) Q s := by
  unfold parseExpressionUnless
  rw [safe_bind]
  refine safe_ifToken (fun _ => hf none s h) fun _ => ?_
  exact safe_parseOrFail rfl hp h trivial fun expr s₁ h₁ _ => hf (some expr) s₁ h₁

theorem parseStandardForLoop_safe {s₀ : ParserState} {decls : Option Node}
    (hp : Pre .forStatement s₀) (h : Past .forStatement s₀ s)
    (hexcused : s.token.type = .errorTok → SkipsInvalid s₀) :
    Safe .forStatement s₀ (parseStandardForLoop decls) (Done .forStatement s₀) s := by
  refine safe_skip h (fun ht => ⟨rfl, hexcused ht⟩) fun s₁ _ h₁ => ?_
  refine parseExpressionUnless_safe hp h₁ fun condition s₂ h₂ => ?_
  refine safe_consumeOrFail rfl h₂.toKept fun s₃ _ h₃ => ?_
  refine parseExpressionUnless_safe hp h₃ fun increment s₄ h₄ => ?_
  refine safe_consumeOrFail rfl h₄.toKept fun s₅ _ h₅ => ?_
  exact safe_parseOrFail rfl hp h₅ trivial fun statement s₆ h₆ _ => h₆.post trivial

/-- The init part of a `for` header is read with `m_allowsIn` unset. -/
theorem withoutIn_safe {q : Production} {s₀ : ParserState} {β : Type}
    {f : Option q.Ret → Parse β} {Q : β → ParserState → Prop} (hin : q.needsIn = false)
    (hq : Production.calls .forStatement q = true) (hnull : q.nullable = false)
    (hp : Pre .forStatement s₀) (h : Past .forStatement s₀ s) (hstart : q.Start { s with regs :=
      { s.regs with allowsIn := false } })
    (hf : ∀ r s₁, parser.Returns q { s with regs := { s.regs with allowsIn := false } } r s₁ →
      (r = none → s₁.error = true) →
        let s' := { s₁ with regs := { s₁.regs with allowsIn := true } }
        Past .forStatement s₀ s' → Safe .forStatement s₀ (f r) Q s') :
    Safe .forStatement s₀ (setAllowsIn false >>= fun _ => parse q >>= fun r =>
      setAllowsIn true >>= fun _ => f r) Q s := by
  refine safe_modifyRegs ?_
  have hsound : Sound { s with regs := { s.regs with allowsIn := false } } :=
    ⟨h.sound.valid, h.sound.idle, h.sound.unary, h.sound.operators⟩
  obtain ⟨-, hslack, hdepth⟩ := Production.calls_iff.mp hq
  have hnested := h.toKept.nested hslack hdepth
  refine wp_parse ⟨⟨hsound, fun hq => (by rw [hin] at hq; cases hq), hstart⟩, ?_,
    fun _ => ⟨⟨h.assignments, h.operands, h.operators, h.unary⟩, hnested.operandDepth,
      hnested.operatorDepth, hnested.unaryDepth, hnested.assignmentDepth⟩,
    fun _ hne => absurd rfl hne⟩ ?_
  · have hprogress := h.progress
    have := q.rank_lt
    simp only [safetyMeasure, ParserState.left] at hprogress ⊢
    omega
  intro r s₁ hreturns hr
  refine safe_modifyRegs (hf r s₁ hreturns (fun hnone => hr.error hnone hnull) ?_)
  have hkept := hr.kept
  have hoperands := hkept.operands
  have hoperators := hkept.operators
  rw [hslack, List.drop_zero] at hoperands hoperators
  exact ⟨⟨⟨h.assignments.trans hkept.assignments, h.operands.trans hoperands,
    h.operators.trans hoperators, h.unary.trans hkept.unary⟩,
    ⟨hkept.sound.valid, hkept.sound.idle, hkept.sound.unary, hkept.sound.operators⟩,
    hkept.left.trans h.left, (hp.allowsIn rfl).symm⟩, lt_of_le_of_lt hkept.left h.progress⟩

theorem parseForVar_safe {s₀ : ParserState} (hp : Pre .forStatement s₀)
    (h : Past .forStatement s₀ s) (ht : s.token.type = .var)
    (hskips : ∀ decls s₃, parser.Returns .varDeclarationList
      { s with regs := { s.regs with allowsIn := false } } (some decls) s₃ →
        s₃.error = false → 1 < decls.declarations → s₃.token.type = .errorTok →
          SkipsInvalid s₀) :
    Safe .forStatement s₀ parseForVar (Done .forStatement s₀) s := by
  have hreal : s.token.type.isReal = true := by rw [ht]; rfl
  refine withoutIn_safe rfl rfl rfl hp h hreal fun decls s₁ hreturns hnone h₁ => safe_hasError ?_
  split
  · exact safe_fail h₁.toKept
  rename_i herror
  refine safe_orReturnNull h₁.toKept hnone fun decls hdecls => ?_
  subst hdecls
  rw [safe_bind]
  unfold Safe
  rw [wp_isToken]
  show Safe _ _ (if _ then _ else _) _ _
  split
  · rename_i hstandard
    refine parseStandardForLoop_safe hp h₁ fun hinvalid =>
      hskips decls s₁ hreturns (Bool.eq_false_iff.mpr herror) ?_ hinvalid
    rcases hstandard with hmany | hsemicolon
    · exact hmany
    · rw [of_decide_eq_true hsemicolon] at hinvalid
      cases hinvalid
  refine safe_consume rfl h₁.toKept (fun _ s₂ _ h₂ => ?_) fun s₂ h₂ => safe_fail h₂
  refine safe_parseOrFail rfl hp h₂ trivial fun expr s₃ h₃ _ => ?_
  refine safe_consumeOrFail rfl h₃.toKept fun s₄ _ h₄ => ?_
  exact safe_parseOrFail rfl hp h₄ trivial fun statement s₅ h₅ _ => h₅.post trivial

theorem parseForInit_safe {s₀ : ParserState} {β : Type} {f : Option Node → Parse β}
    {Q : β → ParserState → Prop} (hp : Pre .forStatement s₀) (h : Past .forStatement s₀ s)
    (hf : ∀ decls s', Past .forStatement s₀ s' → (decls = none → s'.token.type = .semicolon) →
      Safe .forStatement s₀ (f decls) Q s') :
    Safe .forStatement s₀ (parseForInit >>= f) Q s := by
  unfold parseForInit
  rw [safe_bind]
  refine safe_ifToken (fun ht => hf none s h fun _ => ht) fun _ => ?_
  refine withoutIn_safe rfl rfl rfl (q := .expression) hp h trivial fun decls s₁ _ _ h₁ => ?_
  exact safe_failIfNull h₁.toKept fun decls _ => hf (some decls) _ h₁ fun hnone => by cases hnone

theorem forStatement_safe (hp : Pre .forStatement s) :
    Safe .forStatement s parseForStatement (Done .forStatement s) s := by
  refine safe_assertToken hp.start ?_
  refine safe_next (.refl hp.sound) (hp.start ▸ rfl) fun s₁ hfor h₁ => ?_
  refine safe_consumeToken rfl h₁.toKept fun hparen s₂ hnext h₂ => safe_nonLHSCount ?_
  refine safe_ifToken (fun ht => parseForVar_safe hp h₂ ht
    fun decls s₃ hdecls herror hmany hinvalid =>
      ⟨s₁, s₂, decls, s₃, hfor, hparen, hnext, ht, hdecls, herror, hmany, hinvalid⟩) fun _ => ?_
  refine parseForInit_safe hp h₂ fun decls s₃ h₃ hnone => ?_
  refine safe_ifToken (fun ht => parseStandardForLoop_safe hp h₃ fun hinvalid => ?_)
    fun ht => safe_nonLHSCount ?_
  · rw [ht] at hinvalid
    cases hinvalid
  refine safe_failIfFalse h₃.toKept fun _ => ?_
  refine safe_consumeOrFail rfl h₃.toKept fun s₄ _ h₄ => ?_
  refine safe_parseOrFail rfl hp h₄ trivial fun expr s₅ h₅ _ => ?_
  refine safe_consumeOrFail rfl h₅.toKept fun s₆ _ h₆ => ?_
  refine safe_parseOrFail rfl hp h₆ trivial fun statement s₇ h₇ _ => ?_
  exact safe_orReturnNull h₇.toKept (fun hdecls => absurd (hnone hdecls) ht)
    fun decls _ => h₇.post trivial

/-! ## Jumps -/

theorem parseJumpLabel_safe {p : Production} {s₀ : ParserState} {β : Type}
    {f : Option Identifier → Parse β} {Q : β → ParserState → Prop} (h : Past p s₀ s)
    (hf : ∀ label s', Past p s₀ s' → Safe p s₀ (f label) Q s') :
    Safe p s₀ (parseJumpLabel >>= f) Q s := by
  unfold parseJumpLabel
  rw [safe_bind]
  refine safe_autoSemiColon h fun b s₁ h₁ => ?_
  split
  · exact hf none s₁ h₁
  refine safe_matchOrFail h₁.toKept fun ht => safe_tokenData ?_
  refine safe_next h₁.toKept (ht ▸ rfl) fun s₂ _ h₂ => ?_
  exact safe_semicolonOrFail h₂ fun s₃ h₃ => hf _ s₃ h₃

theorem breakStatement_safe (hp : Pre .breakStatement s) :
    Safe .breakStatement s parseBreakStatement (Done .breakStatement s) s := by
  refine safe_assertToken hp.start ?_
  refine safe_next (.refl hp.sound) (hp.start ▸ rfl) fun s₁ _ h₁ => ?_
  exact parseJumpLabel_safe h₁ fun label s₂ h₂ => h₂.post trivial

theorem continueStatement_safe (hp : Pre .continueStatement s) :
    Safe .continueStatement s parseContinueStatement (Done .continueStatement s) s := by
  refine safe_assertToken hp.start ?_
  refine safe_next (.refl hp.sound) (hp.start ▸ rfl) fun s₁ _ h₁ => ?_
  exact parseJumpLabel_safe h₁ fun label s₂ h₂ => h₂.post trivial

theorem returnStatement_safe (hp : Pre .returnStatement s) :
    Safe .returnStatement s parseReturnStatement (Done .returnStatement s) s := by
  refine safe_assertToken hp.start ?_
  refine safe_next (.refl hp.sound) (hp.start ▸ rfl) fun s₁ _ h₁ => ?_
  refine safe_autoSemiColon h₁ fun b s₂ h₂ => ?_
  split
  · exact h₂.post trivial
  · refine safe_parseOrFail rfl hp h₂ trivial fun expr s₃ h₃ _ => ?_
    exact safe_semicolonOrFail h₃ fun s₄ h₄ => h₄.post trivial

theorem throwStatement_safe (hp : Pre .throwStatement s) :
    Safe .throwStatement s parseThrowStatement (Done .throwStatement s) s := by
  refine safe_assertToken hp.start ?_
  refine safe_next (.refl hp.sound) (hp.start ▸ rfl) fun s₁ _ h₁ => ?_
  refine safe_parseOrFail rfl hp h₁ trivial fun expr s₂ h₂ _ => ?_
  exact safe_semicolonOrFail h₂ fun s₃ h₃ => h₃.post trivial

/-! ## Other statements -/

theorem withStatement_safe (hp : Pre .withStatement s) :
    Safe .withStatement s parseWithStatement (Done .withStatement s) s := by
  refine safe_assertToken hp.start ?_
  refine safe_next (.refl hp.sound) (hp.start ▸ rfl) fun s₁ _ h₁ => ?_
  refine safe_consumeOrFail rfl h₁.toKept fun s₂ _ h₂ => ?_
  refine safe_parseOrFail rfl hp h₂ trivial fun expr s₃ h₃ _ => ?_
  refine safe_consumeOrFail rfl h₃.toKept fun s₄ _ h₄ => ?_
  exact safe_parseOrFail rfl hp h₄ trivial fun statement s₅ h₅ _ => h₅.post trivial

theorem switchStatement_safe (hp : Pre .switchStatement s) :
    Safe .switchStatement s parseSwitchStatement (Done .switchStatement s) s := by
  refine safe_assertToken hp.start ?_
  refine safe_next (.refl hp.sound) (hp.start ▸ rfl) fun s₁ _ h₁ => ?_
  refine safe_consumeOrFail rfl h₁.toKept fun s₂ _ h₂ => ?_
  refine safe_parseOrFail rfl hp h₂ trivial fun expr s₃ h₃ _ => ?_
  refine safe_consumeOrFail rfl h₃.toKept fun s₄ _ h₄ => ?_
  refine safe_consumeOrFail rfl h₄.toKept fun s₅ _ h₅ => ?_
  refine safe_parse rfl hp h₅ trivial fun firstClauses s₆ h₆ _ => ?_
  refine safe_failIfError h₆.toKept fun _ => ?_
  refine safe_parse rfl hp h₆ trivial fun defaultClause s₇ h₇ _ => ?_
  refine safe_failIfError h₇.toKept fun _ => ?_
  refine safe_parse rfl hp h₇ trivial fun secondClauses s₈ h₈ _ => ?_
  refine safe_failIfError h₈.toKept fun _ => ?_
  exact safe_consumeOrFail rfl h₈.toKept fun s₉ _ h₉ => h₉.post trivial

theorem parseClause_safe {p : Production} {s₀ : ParserState} {β : Type} {f : Node → Parse β}
    {Q : β → ParserState → Prop} (hp : Pre p s₀) (hin : p.needsIn = true) (h : Kept p s₀ s)
    (ht : s.token.type = .case) (hf : ∀ clause s', Past p s₀ s' → Safe p s₀ (f clause) Q s') :
    Safe p s₀ (parseClause >>= f) Q s := by
  unfold parseClause
  rw [safe_bind]
  refine safe_next h (ht ▸ rfl) fun s₁ _ h₁ => ?_
  refine safe_parseOrFail rfl hp h₁ trivial (fun condition s₂ h₂ _ => ?_)
  refine safe_consumeOrFail rfl h₂.toKept fun s₃ _ h₃ => ?_
  have hq : p.calls .sourceElements = true := by
    rw [Production.calls, hin]
    exact rfl
  exact safe_parseOrFail hq hp h₃ trivial fun statements s₄ h₄ _ => hf _ s₄ h₄

theorem switchClauses_safe (hp : Pre .switchClauses s) :
    Safe .switchClauses s parseSwitchClauses (Done .switchClauses s) s := by
  have h := Kept.refl (p := .switchClauses) hp.sound
  refine safe_ifToken (fun ht => ?_) fun _ => safe_returnNull h fun hnull => by cases hnull
  refine parseClause_safe hp rfl h ht fun clause s₁ h₁ => ?_
  exact safe_parseLast rfl rfl hp h₁ trivial fun r s₂ h₂ _ => h₂.toKept.post rfl trivial

theorem switchClausesLoop_safe {clauseList : Node} (hp : Pre (.switchClausesLoop clauseList) s) :
    Safe (.switchClausesLoop clauseList) s (parseSwitchClausesLoop clauseList)
      (Done (.switchClausesLoop clauseList) s) s := by
  have h := Kept.refl (p := .switchClausesLoop clauseList) hp.sound
  refine safe_ifToken (fun ht => ?_) fun _ => h.post rfl trivial
  refine parseClause_safe hp rfl h ht fun clause s₁ h₁ => ?_
  exact safe_parseLast rfl rfl hp h₁ trivial fun r s₂ h₂ _ => h₂.toKept.post rfl trivial

theorem switchDefaultClause_safe (hp : Pre .switchDefaultClause s) :
    Safe .switchDefaultClause s parseSwitchDefaultClause (Done .switchDefaultClause s) s := by
  have h := Kept.refl (p := .switchDefaultClause) hp.sound
  refine safe_ifToken (fun ht => ?_) fun _ => safe_returnNull h fun hnull => by cases hnull
  refine safe_next h (ht ▸ rfl) fun s₁ _ h₁ => ?_
  refine safe_consumeOrFail rfl h₁.toKept fun s₂ _ h₂ => ?_
  exact safe_parseOrFail rfl hp h₂ trivial fun statements s₃ h₃ _ => h₃.toKept.post rfl trivial

theorem parseCatch_safe {s₀ : ParserState} {β : Type} {f : Identifier × Option Node → Parse β}
    {Q : β → ParserState → Prop} (hp : Pre .tryStatement s₀) (h : Past .tryStatement s₀ s)
    (hf : ∀ r s', Past .tryStatement s₀ s' → Safe .tryStatement s₀ (f r) Q s') :
    Safe .tryStatement s₀ (parseCatch >>= f) Q s := by
  unfold parseCatch
  rw [safe_bind]
  refine safe_ifToken (fun ht => ?_) fun _ => hf _ s h
  refine safe_next h.toKept (ht ▸ rfl) fun s₁ _ h₁ => ?_
  refine safe_consumeOrFail rfl h₁.toKept fun s₂ _ h₂ => ?_
  refine safe_matchOrFail h₂.toKept fun ht => safe_tokenData ?_
  refine safe_next h₂.toKept (ht ▸ rfl) fun s₃ _ h₃ => ?_
  refine safe_consumeOrFail rfl h₃.toKept fun s₄ _ h₄ => ?_
  refine safe_matchOrFail h₄.toKept fun ht => ?_
  exact safe_parseOrFail rfl hp h₄ ht fun catchBlock s₅ h₅ _ => hf _ s₅ h₅

theorem parseFinally_safe {s₀ : ParserState} {β : Type} {f : Option Node → Parse β}
    {Q : β → ParserState → Prop} (hp : Pre .tryStatement s₀) (h : Past .tryStatement s₀ s)
    (hf : ∀ r s', Past .tryStatement s₀ s' → Safe .tryStatement s₀ (f r) Q s') :
    Safe .tryStatement s₀ (parseFinally >>= f) Q s := by
  unfold parseFinally
  rw [safe_bind]
  refine safe_ifToken (fun ht => ?_) fun _ => hf _ s h
  refine safe_next h.toKept (ht ▸ rfl) fun s₁ _ h₁ => ?_
  refine safe_matchOrFail h₁.toKept fun ht => ?_
  exact safe_parseOrFail rfl hp h₁ ht fun finallyBlock s₂ h₂ _ => hf _ s₂ h₂

theorem tryStatement_safe (hp : Pre .tryStatement s) :
    Safe .tryStatement s parseTryStatement (Done .tryStatement s) s := by
  refine safe_assertToken hp.start ?_
  refine safe_next (.refl hp.sound) (hp.start ▸ rfl) fun s₁ _ h₁ => ?_
  refine safe_matchOrFail h₁.toKept fun ht => ?_
  refine safe_parseOrFail rfl hp h₁ ht fun tryBlock s₂ h₂ _ => ?_
  refine parseCatch_safe hp h₂ fun r s₃ h₃ => ?_
  refine parseFinally_safe hp h₃ fun finallyBlock s₄ h₄ => ?_
  exact safe_failIfFalse h₄.toKept fun _ => h₄.post trivial

theorem debuggerStatement_safe (hp : Pre .debuggerStatement s) :
    Safe .debuggerStatement s parseDebuggerStatement (Done .debuggerStatement s) s := by
  refine safe_assertToken hp.start ?_
  refine safe_next (.refl hp.sound) (hp.start ▸ rfl) fun s₁ _ h₁ => ?_
  exact safe_semicolonOrFail h₁ fun s₂ h₂ => h₂.post trivial

theorem expressionOrLabelStatement_safe (hp : Pre .expressionOrLabelStatement s) :
    Safe .expressionOrLabelStatement s parseExpressionOrLabelStatement
      (Done .expressionOrLabelStatement s) s := by
  refine safe_tokenData (safe_tokenCount ?_)
  refine safe_parseOrFail_first rfl rfl rfl hp (.refl hp.sound) trivial fun expression s₁ h₁ _ => ?_
  refine safe_autoSemiColon h₁ fun b s₂ h₂ => ?_
  split
  · exact h₂.post trivial
  refine safe_tokenCount (safe_failIfFalse h₂.toKept fun _ => ?_)
  refine safe_consumeOrFail rfl h₂.toKept fun s₃ _ h₃ => ?_
  exact safe_parseOrFail rfl hp h₃ trivial fun statement s₄ h₄ _ => h₄.post trivial

theorem expressionStatement_safe (hp : Pre .expressionStatement s) :
    Safe .expressionStatement s parseExpressionStatement (Done .expressionStatement s) s := by
  refine safe_parseOrFail_first rfl rfl rfl hp (.refl hp.sound) trivial fun expression s₁ h₁ _ => ?_
  exact safe_semicolonOrFail h₁ fun s₂ h₂ => h₂.post trivial

theorem parseIfPart_safe {p : Production} {s₀ : ParserState} {β : Type}
    {f : Node × (Nat × Nat) × Node → Parse β} {Q : β → ParserState → Prop} (hp : Pre p s₀)
    (hin : p.needsIn = true) (h : Kept p s₀ s)
    (ht : s.token.type = .if) (hf : ∀ r s', Past p s₀ s' → Safe p s₀ (f r) Q s') :
    Safe p s₀ (parseIfPart >>= f) Q s := by
  unfold parseIfPart
  rw [safe_bind]
  refine safe_tokenLine (safe_next h (ht ▸ rfl) fun s₁ _ h₁ => ?_)
  refine safe_consumeOrFail rfl h₁.toKept fun s₂ _ h₂ => ?_
  refine safe_parseOrFail rfl hp h₂ trivial (fun condition s₃ h₃ _ => safe_tokenLine ?_)
  refine safe_consumeOrFail rfl h₃.toKept fun s₄ _ h₄ => ?_
  have hq : p.calls .statement = true := by
    rw [Production.calls, hin]
    exact rfl
  exact safe_parseOrFail hq hp h₄ trivial fun trueBlock s₅ h₅ _ => hf _ s₅ h₅

omit [Platform] in
/-- One branch is left when there is a branch more than conditions. -/
theorem foldIf_eq {exprStack statementStack : List Node} {posStack : List (Nat × Nat)}
    (hpos : posStack.length = exprStack.length)
    (h : statementStack.length = exprStack.length + 1) :
    ∃ node, foldIf exprStack posStack statementStack = pure [node] := by
  induction exprStack generalizing posStack statementStack with
  | nil =>
      obtain ⟨node, rest, rfl⟩ := List.exists_cons_of_length_eq_add_one h
      rw [List.length_cons, List.length_nil] at h
      obtain rfl : rest = [] := List.length_eq_zero_iff.mp (by omega)
      exact ⟨node, rfl⟩
  | cons condition exprStack ih =>
      rw [List.length_cons] at h
      obtain ⟨falseBlock, rest, rfl⟩ := List.exists_cons_of_length_eq_add_one h
      rw [List.length_cons] at h
      obtain ⟨trueBlock, statementStack, rfl⟩ :=
        List.exists_cons_of_length_eq_add_one (show rest.length = exprStack.length + 1 by omega)
      rw [List.length_cons] at h hpos
      obtain ⟨pos, posStack, rfl⟩ := List.exists_cons_of_length_eq_add_one hpos
      rw [List.length_cons] at hpos
      exact ih (by omega) (by rw [List.length_cons]; omega)

omit [Platform] in
/-- The last condition closes over the last branch. -/
theorem closeIf_eq {exprStack statementStack : List Node} {posStack : List (Nat × Nat)}
    (hpos : posStack.length = exprStack.length)
    (h : statementStack.length = exprStack.length) (hne : exprStack ≠ []) :
    ∃ r : List Node × List (Nat × Nat) × List Node,
      closeIf exprStack posStack statementStack = pure r ∧
        r.2.1.length = r.1.length ∧ r.2.2.length = r.1.length + 1 := by
  cases exprStack with
  | nil => exact absurd rfl hne
  | cons condition exprStack =>
      rw [List.length_cons] at h
      obtain ⟨trueBlock, statementStack, rfl⟩ := List.exists_cons_of_length_eq_add_one h
      rw [List.length_cons] at h hpos
      obtain ⟨pos, posStack, rfl⟩ := List.exists_cons_of_length_eq_add_one hpos
      rw [List.length_cons] at hpos
      exact ⟨_, rfl, by dsimp only; omega, by rw [List.length_cons]; omega⟩

theorem foldIf_safe {s₀ : ParserState} {exprStack statementStack : List Node}
    {posStack : List (Nat × Nat)} {g : Node → Node} (hpos : posStack.length = exprStack.length)
    (hlen : statementStack.length = exprStack.length + 1) (h : Past .ifStatement s₀ s) :
    Safe .ifStatement s₀ (foldIf exprStack posStack statementStack >>= fun r =>
      match r with
      | falseBlock :: _ => pure (g falseBlock)
      | [] => crash .emptyVector) (Done .ifStatement s₀) s := by
  obtain ⟨node, hfold⟩ := foldIf_eq hpos hlen
  rw [hfold]
  exact h.post trivial

theorem ifStatement_safe (hp : Pre .ifStatement s) :
    Safe .ifStatement s parseIfStatement (Done .ifStatement s) s := by
  refine safe_assertToken hp.start ?_
  refine parseIfPart_safe hp rfl (.refl hp.sound) hp.start fun first s₁ h₁ => ?_
  refine safe_ifToken (fun ht => ?_) fun _ => h₁.post trivial
  refine safe_parseOrNull rfl rfl hp h₁ ⟨ht ▸ rfl, rfl, rfl⟩ fun r s₂ h₂ hr => ?_
  have hlengths := hr.result r rfl
  obtain ⟨exprStack, posStack, statementStack, trailingElse⟩ := r
  simp only [Production.Result] at hlengths
  obtain ⟨hpos, hlen⟩ := hlengths
  cases trailingElse with
  | true => exact foldIf_safe hpos (by simpa using hlen) h₂
  | false =>
      rw [if_neg (by simp)] at hlen
      obtain ⟨r, hclose, hpos', hlen'⟩ := closeIf_eq hpos hlen.1 hlen.2
      show Safe _ _ (closeIf exprStack posStack statementStack >>= _) _ _
      rw [hclose]
      exact foldIf_safe hpos' hlen' h₂

theorem ifLoop_safe {exprStack statementStack : List Node} {posStack : List (Nat × Nat)}
    (hp : Pre (.ifLoop exprStack posStack statementStack) s) :
    Safe (.ifLoop exprStack posStack statementStack) s
      (parseIfLoop exprStack posStack statementStack)
      (Done (.ifLoop exprStack posStack statementStack) s) s := by
  obtain ⟨hstart, hpos, hlen⟩ := hp.start
  refine safe_next (.refl hp.sound) hstart fun s₁ _ h₁ => ?_
  refine safe_ifToken (fun ht => ?_) fun _ => ?_
  · refine parseIfPart_safe hp rfl h₁.toKept ht fun r s₂ h₂ => ?_
    refine safe_ifToken (fun ht => ?_) fun _ => ?_
    · refine safe_parseLast rfl rfl hp h₂ ⟨ht ▸ rfl, ?_, ?_⟩
        fun r s₃ h₃ hr => h₃.toKept.post rfl ?_
      · rw [List.length_cons, List.length_cons, hpos]
      · rw [List.length_cons, List.length_cons, hlen]
      · exact hr.result r rfl
    · refine h₂.toKept.post rfl ?_
      simp [Production.Result, hpos, hlen]
  · refine safe_parseOrFail rfl hp h₁ trivial fun block s₂ h₂ _ => h₂.toKept.post rfl ?_
    simp [Production.Result, hpos, hlen]

/-! ## Functions -/

theorem formalParameters_safe (hp : Pre .formalParameters s) :
    Safe .formalParameters s parseFormalParameters (Done .formalParameters s) s := by
  refine safe_matchOrFail (.refl hp.sound) fun ht => safe_tokenData ?_
  refine safe_next (.refl hp.sound) (ht ▸ rfl) fun s₁ _ h₁ => ?_
  exact safe_parseOrNull rfl rfl hp h₁ trivial fun rest s₂ h₂ _ => h₂.toKept.post rfl trivial

theorem formalParametersLoop_safe {tail : List Identifier}
    (hp : Pre (.formalParametersLoop tail) s) :
    Safe (.formalParametersLoop tail) s (parseFormalParametersLoop tail)
      (Done (.formalParametersLoop tail) s) s := by
  have h := Kept.refl (p := .formalParametersLoop tail) hp.sound
  refine safe_ifToken (fun ht => ?_) fun _ => h.post rfl trivial
  refine safe_next h (ht ▸ rfl) fun s₁ _ h₁ => ?_
  refine safe_matchOrFail h₁.toKept fun ht => safe_tokenData ?_
  refine safe_next h₁.toKept (ht ▸ rfl) fun s₂ _ h₂ => ?_
  exact safe_parseLast rfl rfl hp h₂ trivial fun r s₃ h₃ _ => h₃.toKept.post rfl trivial

/-- The statements of a function start with empty stacks; the stacks of its
surroundings are put back. -/
theorem functionBody_safe (hp : Pre .functionBody s) :
    Safe .functionBody s parseFunctionBody (Done .functionBody s) s := by
  have h := Kept.refl (p := .functionBody) hp.sound
  refine safe_ifToken (fun _ => h.post rfl trivial) fun _ => ?_
  refine safe_getStacks (safe_modifyRegs ?_)
  have hsound : Sound { s with regs := { s.regs with context := {} } } :=
    ⟨hp.sound.valid, hp.sound.idle, fun t ht => (by cases ht), fun o ho => (by cases ho)⟩
  refine wp_parse ⟨⟨hsound, fun _ => hp.allowsIn rfl, trivial⟩, ?_,
    fun hne => absurd rfl hne, fun _ _ => rfl⟩ fun function s₁ _ hr => ?_
  · simp only [safetyMeasure, Production.rank, ParserState.left]
    omega
  refine safe_modifyRegs ?_
  have h₁ : Kept .functionBody s { s₁ with regs := { s₁.regs with context := s.regs.context } } :=
    ⟨⟨List.suffix_rfl, List.drop_suffix _ _, List.drop_suffix _ _, List.suffix_rfl⟩,
      ⟨hr.kept.sound.valid, hr.kept.sound.idle, hp.sound.unary, hp.sound.operators⟩,
      hr.kept.left, hr.kept.allowsIn⟩
  exact safe_failIfNull h₁ fun _ _ => h₁.post rfl trivial

theorem parseFunctionName_safe {needsName : Bool} {s₀ : ParserState} {β : Type}
    {f : Option Identifier → Parse β} {Q : β → ParserState → Prop}
    (h : Kept (.functionInfo needsName) s₀ s)
    (hf : ∀ name s', Kept (.functionInfo needsName) s₀ s' →
      Safe (.functionInfo needsName) s₀ (f name) Q s') :
    Safe (.functionInfo needsName) s₀ (parseFunctionName needsName >>= f) Q s := by
  unfold parseFunctionName
  rw [safe_bind]
  refine safe_ifToken (fun ht => safe_tokenData ?_) fun _ => ?_
  · exact safe_next h (ht ▸ rfl) fun s₁ _ h₁ => hf _ s₁ h₁.toKept
  · split
    · exact safe_returnNull h fun hnull => by cases hnull
    · exact hf none s h

theorem functionInfo_safe {needsName : Bool} (hp : Pre (.functionInfo needsName) s) :
    Safe (.functionInfo needsName) s (parseFunctionInfo needsName)
      (Done (.functionInfo needsName) s) s := by
  refine parseFunctionName_safe (.refl hp.sound) fun name s₁ h₁ => ?_
  refine safe_consumeOrFail rfl h₁ fun s₂ _ h₂ => ?_
  have hrest : ∀ parameters s₃, Past (.functionInfo needsName) s s₃ →
      Safe (.functionInfo needsName) s (do
        consumeOrFail .closeParen
        matchOrFail .openBrace
        next
        let body ← failIfNull (← parse .functionBody)
        matchOrFail .closeBrace
        next
        return ⟨name, parameters, body⟩) (Done (.functionInfo needsName) s) s₃ := by
    intro parameters s₃ h₃
    refine safe_consumeOrFail rfl h₃.toKept fun s₄ _ h₄ => ?_
    refine safe_matchOrFail h₄.toKept fun ht => ?_
    refine safe_next h₄.toKept (ht ▸ rfl) fun s₅ _ h₅ => ?_
    refine safe_parseOrFail rfl hp h₅ trivial fun body s₆ h₆ _ => ?_
    refine safe_matchOrFail h₆.toKept fun ht => ?_
    exact safe_next h₆.toKept (ht ▸ rfl) fun s₇ _ h₇ => h₇.toKept.post rfl trivial
  unfold parseParameters
  rw [safe_bind]
  refine safe_ifToken (fun _ => hrest none s₂ h₂) fun _ => ?_
  exact safe_parseOrFail rfl hp h₂ trivial fun parameters s₃ h₃ _ => hrest (some parameters) s₃ h₃

theorem functionDeclaration_safe (hp : Pre .functionDeclaration s) :
    Safe .functionDeclaration s parseFunctionDeclaration (Done .functionDeclaration s) s := by
  refine safe_assertToken hp.start ?_
  refine safe_next (.refl hp.sound) (hp.start ▸ rfl) fun s₁ _ h₁ => ?_
  refine safe_parseOrFail rfl hp h₁ trivial fun info s₂ h₂ _ => ?_
  exact safe_failIfNull h₂.toKept fun name _ => h₂.post trivial

/-! ## Statements -/

theorem statement_safe (hp : Pre .statement s) :
    Safe .statement s parseStatement (Done .statement s) s := by
  have h := Kept.refl (p := .statement) hp.sound
  refine safe_tokenType ?_
  split
  case h_5 ht => exact safe_next h (ht ▸ rfl) fun s₁ _ h₁ => h₁.post trivial
  case h_18 | h_19 | h_20 | h_21 => exact safe_returnNull h fun hnull => by cases hnull
  case h_23 =>
    exact safe_parseLast_first rfl rfl rfl hp h trivial
      fun a s₁ _ hr => (Past.of_post h hr rfl rfl).post trivial
  all_goals
    rename_i ht
    exact safe_parseLast_first rfl rfl rfl hp h ht
      fun a s₁ _ hr => (Past.of_post h hr rfl rfl).post trivial

/-! ## The parser -/

/-- **Every production meets its contract**, and calls only productions of
smaller measure. -/
theorem parser_safe : Respects parser safety MayCall := by
  intro p s hp
  refine Safe.body ?_
  cases p with
  | createSyntaxTree => exact createSyntaxTree_safe hp
  | sourceElements => exact sourceElements_safe hp
  | sourceElementsLoop elements => exact sourceElementsLoop_safe hp
  | varDeclaration => exact varDeclaration_safe hp
  | constDeclaration => exact constDeclaration_safe hp
  | doWhileStatement => exact doWhileStatement_safe hp
  | whileStatement => exact whileStatement_safe hp
  | varDeclarationList => exact varDeclarationList_safe hp
  | varDeclarationLoop varDecls declarations lastInitializer => exact varDeclarationLoop_safe hp
  | constDeclarationList => exact constDeclarationList_safe hp
  | constDeclarationLoop constDecls tail => exact constDeclarationLoop_safe hp
  | forStatement => exact forStatement_safe hp
  | breakStatement => exact breakStatement_safe hp
  | continueStatement => exact continueStatement_safe hp
  | returnStatement => exact returnStatement_safe hp
  | throwStatement => exact throwStatement_safe hp
  | withStatement => exact withStatement_safe hp
  | switchStatement => exact switchStatement_safe hp
  | switchClauses => exact switchClauses_safe hp
  | switchClausesLoop clauseList => exact switchClausesLoop_safe hp
  | switchDefaultClause => exact switchDefaultClause_safe hp
  | tryStatement => exact tryStatement_safe hp
  | debuggerStatement => exact debuggerStatement_safe hp
  | blockStatement => exact blockStatement_safe hp
  | statement => exact statement_safe hp
  | formalParameters => exact formalParameters_safe hp
  | formalParametersLoop tail => exact formalParametersLoop_safe hp
  | functionBody => exact functionBody_safe hp
  | functionInfo needsName => exact functionInfo_safe hp
  | functionDeclaration => exact functionDeclaration_safe hp
  | expressionOrLabelStatement => exact expressionOrLabelStatement_safe hp
  | expressionStatement => exact expressionStatement_safe hp
  | ifStatement => exact ifStatement_safe hp
  | ifLoop exprStack posStack statementStack => exact ifLoop_safe hp
  | expression => exact expression_safe hp
  | commaLoop commaNode => exact commaLoop_safe hp
  | assignmentExpression => exact assignmentExpression_safe hp
  | assignmentLoop lhs assignmentStack initialNonLHSCount => exact assignmentLoop_safe hp
  | conditionalExpression => exact conditionalExpression_safe hp
  | binaryExpression => exact binaryExpression_safe hp
  | binaryLoop operandStackDepth operatorStackDepth => exact binaryLoop_safe hp
  | property => exact property_safe hp
  | objectLiteral => exact objectLiteral_safe hp
  | objectLoop propertyList startOffset => exact objectLoop_safe hp
  | strictObjectLiteral => exact hp.start.elim
  | strictObjectLoop propertyList => exact hp.start.elim
  | arrayLiteral => exact arrayLiteral_safe hp
  | elisionsLoop elisions => exact elisionsLoop_safe hp
  | arrayLoop elementList => exact arrayLoop_safe hp
  | primaryExpression => exact primaryExpression_safe hp
  | arguments => exact arguments_safe hp
  | argumentsLoop argList => exact argumentsLoop_safe hp
  | memberExpression => exact memberExpression_safe hp
  | newLoop newCount => exact newLoop_safe hp
  | memberLoop base newCount => exact memberLoop_safe hp
  | unaryExpression => exact unaryExpression_safe hp
  | unaryExpressionBody => exact unaryExpressionBody_safe hp
  | unaryTokensLoop tokenStackDepth => exact unaryTokensLoop_safe hp

omit [Platform] in
theorem initialState_pre (source : List UChar) : Pre .createSyntaxTree (initialState source) := by
  have hi : (initialState source).lexer.Idle := ⟨rfl, rfl, rfl, rfl⟩
  exact ⟨⟨hi.valid, fun _ => hi, fun t ht => (by cases ht), fun o ho => (by cases ho)⟩,
    fun _ => rfl, hi, rfl⟩

/-- **The parser comes to an end on every source.** -/
theorem runParser_ends (source : List UChar) : (runParser source).Ends := by
  refine run_total safety_neverDead parser_safe (fun _ _ _ _ h => h.measure) _ _ _
    (initialState_pre source) ?_
  have hleft : (initialState source).left = source.length := rfl
  simp only [safetyMeasure, hleft, Production.rank, callDepth]
  omega

end HammerJS
