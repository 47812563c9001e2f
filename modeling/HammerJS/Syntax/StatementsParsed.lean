import HammerJS.Reflect.Failure
import HammerJS.Reflect.StatementsSafety
import HammerJS.Syntax.ExpressionsParsed
import Mathlib.Data.List.Induction

/-!
# The productions for statements find phrases

One lemma for each production of `Statements.lean`, as for those of
`Expressions.lean`, and what they add up to:

* `parser_parsed` — every production meets `grammar`.
* `createSyntaxTree_parsed` — a tree that the parser returns is the one built of
  the statements it has read.
-/

namespace HammerJS

open Procs Machine Lexer Parse

variable [Platform] {s : ParserState}

/-! ## Lists of statements -/

theorem createSyntaxTree_finds :
    Finds .createSyntaxTree s createSyntaxTree (Production.createSyntaxTree.Parsed s) s := by
  refine finds_next fun s₁ hn => ?_
  exact finds_parseLast (fun _ _ h => h) trivial trivial fun a s₂ h₂ => ⟨s₁, hn, h₂⟩

theorem sourceElements_parsed :
    Finds .sourceElements s parseSourceElements (Production.sourceElements.Parsed s) s := by
  refine finds_parseOrNull (fun _ _ h => h) trivial trivial fun elements s₁ h₁ => finds_hasError ?_
  split
  · exact finds_fail
  · exact h₁

theorem sourceElementsLoop_parsed {elements : Node} :
    Finds (.sourceElementsLoop elements) s (parseSourceElementsLoop elements)
      ((Production.sourceElementsLoop elements).Parsed s) s := by
  refine finds_parse trivial trivial fun statement s₁ _ hstatement => ?_
  cases statement with
  | none =>
      obtain ⟨rfl, hends⟩ := hstatement
      exact ⟨⟨.noStmts, (appendAll_nil elements).symm, .refl s₁, trivial⟩, hends⟩
  | some statement =>
      obtain ⟨⟨first, rfl, h₁, hlegal₁⟩, -⟩ := hstatement
      refine finds_parseLast (fun _ _ h => h) trivial trivial
        fun r s₂ ⟨⟨rest, hr, h₂, hlegal₂⟩, hends⟩ =>
        ⟨⟨.moreStmts first rest, ?_, h₁.trans h₂, hlegal₁, hlegal₂⟩, hends⟩
      rw [hr]
      exact appendAll_append elements first.build rest.build

/-- Where a list of statements is empty, the token that ends it was the current
one already. -/
theorem statements_ne_nil {body : Phrase .stmts} {calm : Prop} {s' : ParserState}
    {t : JSTokenType} (h : Read s body.lexemes calm s') (ht : s.token.type ≠ t)
    (ht' : s'.token.type = t) : ∃ n ns, (body.build : List Node) = n :: ns := by
  cases body with
  | noStmts =>
      have heq : s'.stream = s.stream := h.stream_eq
      have htoken : s'.token = s.token := congrArg Stream.token heq
      rw [htoken] at ht'
      exact absurd ht' ht
  | moreStmts first rest => exact ⟨first.build, rest.build, rfl⟩

theorem blockStatement_parsed :
    Finds .blockStatement s parseBlockStatement (Production.blockStatement.Parsed s) s := by
  refine finds_assertToken fun ht => finds_skip ht fun s₁ h₁ => ?_
  refine finds_ifToken (fun ht => ?_) fun hne => ?_
  · exact finds_skip ht fun s₂ h₂ =>
      ⟨.noStmts, rfl, (h₁.trans h₂).cast rfl (and_self_iff), trivial⟩
  · refine finds_parseOrFail trivial trivial fun subtree s₂ ⟨⟨body, hsubtree, h₂, hlegal₂⟩, _⟩ => ?_
    refine finds_matchOrFail fun ht => finds_skip ht fun s₃ h₃ => ?_
    obtain ⟨n, ns, hbody⟩ := statements_ne_nil h₂ hne ht
    refine ⟨body, ?_, ((h₁.trans h₂).trans h₃).cast rfl (by simp), hlegal₂⟩
    rw [hsubtree, blockNode, hbody]
    rfl

/-! ## Declarations -/

theorem varDeclaration_parsed :
    Finds .varDeclaration s parseVarDeclaration (Production.varDeclaration.Parsed s) s := by
  refine finds_assertToken fun ht => ?_
  refine finds_parse trivial trivial fun varDecls s₁ _ hdecls => finds_failIfError ?_
  cases varDecls with
  | none => exact hdecls.elim
  | some decls =>
      obtain ⟨name, init, rest, hdecls, _, _, h₁, hinit, hrest⟩ := hdecls
      rw [ht] at h₁
      refine finds_semicolonOrFail fun semi s₂ h₂ => ?_
      refine ⟨.varDecl name init rest semi, ?_, (h₁.trans h₂).cast rfl ?_, hinit.mono, hrest.mono⟩
      · rw [hdecls]
        rfl
      · dsimp only [Phrase.Calm]
        simp

theorem varDeclarationList_parsed :
    Finds .varDeclarationList s parseVarDeclarationList
      (Production.varDeclarationList.Parsed s) s :=
  finds_parseLast (fun _ _ h => h) trivial trivial fun _ _ h => h

theorem varDeclarationLoop_parsed {varDecls lastInitializer : Option Node} {declarations : Nat} :
    Finds (.varDeclarationLoop varDecls declarations lastInitializer) s
      (parseVarDeclarationLoop varDecls declarations lastInitializer)
      ((Production.varDeclarationLoop varDecls declarations lastInitializer).Parsed s) s := by
  have hcontinue : ∀ (name : Identifier) (init : Phrase .init) s₁,
      Read s (.mark s.token.type :: .ident name :: init.lexemes) init.Calm s₁ →
      init.Legal s.regs.allowsIn → Finds
        (.varDeclarationLoop varDecls declarations lastInitializer) s
        (parseVarDeclarationLoop.continueVarDeclarations
          (Builder.combineCommaNodes varDecls (declarationNode name init.build))
          (declarations + 1) name ((init.build : Option Node).or lastInitializer))
        (FoundVariables varDecls declarations lastInitializer s) s₁ := by
    intro name init s₁ h₁ hlegal
    refine finds_ifToken (fun ht => ?_) fun _ => ?_
    · refine finds_parseLast (fun _ _ h => h) trivial trivial
        fun r s₂ ⟨name', init', rest, hdecls, hcount, _, h₂, hinit', hrest⟩ => ?_
      refine ⟨name, init, .moreDecls name' init' rest, hdecls, ?_, fun h => (by cases h),
        (h₁.trans h₂).cast ?_ ?_, hlegal, h₁.legal hinit', h₁.legal hrest⟩
      · rw [hcount]
        show _ = declarations + 1 + ((rest.build : List Node).length + 1)
        omega
      · rw [ht]
        dsimp only [Phrase.lexemes]
      · dsimp only [Phrase.Calm]
        rfl
    · exact ⟨name, init, .noDecls, rfl, rfl, fun _ => ⟨rfl, rfl⟩, h₁.cast (by
        dsimp only [Phrase.lexemes]
        simp) (by
        dsimp only [Phrase.Calm]
        simp), hlegal, trivial⟩
  refine finds_skip rfl fun s₁ h₁ => ?_
  refine finds_matchOrFail fun hident => finds_tokenData (finds_skipIdent hident fun s₂ h₂ => ?_)
  refine finds_ifToken (fun ht => ?_) fun _ => ?_
  · refine finds_skip ht fun s₃ h₃ => ?_
    refine finds_parseOrFail trivial trivial
      fun initializer s₄ ⟨e, hinit, h₄, hlegal₄, hrank₄⟩ => ?_
    subst hinit
    refine hcontinue s₁.token.data.getIdent (.initializer e) s₄
      ((((h₁.trans h₂).trans h₃).trans h₄).cast rfl ?_)
      ⟨((h₁.trans h₂).trans h₃).legal hlegal₄, hrank₄⟩
    dsimp only [Phrase.Calm]
    simp
  · exact hcontinue s₁.token.data.getIdent .noInit s₂ ((h₁.trans h₂).cast rfl and_self_iff)
      trivial

/-- A list of constants is never read to its end. -/
theorem constDeclaration_parsed :
    Finds .constDeclaration s parseConstDeclaration (Production.constDeclaration.Parsed s) s := by
  refine finds_assertToken fun _ => ?_
  refine finds_parse trivial trivial fun constDecls s₁ _ hdecls => ?_
  cases constDecls with
  | none => exact hdecls.elim
  | some decls => exact hdecls.elim

theorem constDeclarationList_parsed :
    Finds .constDeclarationList s parseConstDeclarationList
      (Production.constDeclarationList.Parsed s) s :=
  finds_parseLast (fun _ _ h => h) rfl trivial fun _ _ h => h

theorem constDeclarationLoop_parsed {constDecls tail : Option Node}
    (hs : (Production.constDeclarationLoop constDecls tail).Starts s) :
    Finds (.constDeclarationLoop constDecls tail) s (parseConstDeclarationLoop constDecls tail)
      ((Production.constDeclarationLoop constDecls tail).Parsed s) s := by
  have htail : tail = none := hs
  subst htail
  have hcrash : ∀ {β : Type} {f : Node → Parse β} {Q : β → ParserState → Prop} name init s₁,
      Finds (.constDeclarationLoop constDecls none) s
        (appendConstDecl none name init >>= f) Q s₁ := by
    intro β f Q name init s₁
    rw [finds_bind]
    exact finds_crash
  refine finds_next fun s₁ _ => ?_
  refine finds_matchOrFail fun hident => finds_tokenData (finds_skipIdent hident fun s₂ _ => ?_)
  unfold parseConstInitializer
  rw [finds_bind]
  refine finds_ifToken (fun ht => ?_) fun _ => ?_
  · refine finds_skip ht fun s₃ _ => ?_
    refine finds_parse (f := pure) trivial trivial fun initializer s₄ _ _ => ?_
    rw [finds_pure]
    exact hcrash s₁.token.data.getIdent initializer s₄
  · rw [finds_pure]
    exact hcrash s₁.token.data.getIdent none s₂

/-! ## Loops -/

theorem doWhileStatement_parsed :
    Finds .doWhileStatement s parseDoWhileStatement (Production.doWhileStatement.Parsed s) s := by
  refine finds_assertToken fun ht => finds_skip ht fun s₁ h₁ => ?_
  refine finds_parseOrFail trivial trivial fun statement s₂ ⟨⟨body, hbody, h₂, hlegal₂⟩, _⟩ => ?_
  refine finds_consumeOrFail fun s₃ h₃ => finds_consumeOrFail fun s₄ h₄ => ?_
  refine finds_parseOrFail trivial trivial fun expr s₅ ⟨test, htest, h₅, hlegal₅, _⟩ => ?_
  refine finds_consumeOrFail fun s₆ h₆ => ?_
  subst hbody htest
  have h := ((((h₁.trans h₂).trans h₃).trans h₄).trans h₅).trans h₆
  refine finds_ifToken (fun ht => finds_skip ht fun s₇ h₇ => ?_) fun _ => ?_
  · refine ⟨.doWhile body test true, rfl, (h.trans h₇).cast ?_ ?_, hlegal₂, hlegal₅.mono⟩
    · dsimp only [Phrase.lexemes, semiLexemes]
      simp
    · dsimp only [Phrase.Calm]
      simp
  · refine ⟨.doWhile body test false, rfl, h.cast ?_ ?_, hlegal₂, hlegal₅.mono⟩
    · dsimp only [Phrase.lexemes, semiLexemes]
      simp
    · dsimp only [Phrase.Calm]
      simp

theorem whileStatement_parsed :
    Finds .whileStatement s parseWhileStatement (Production.whileStatement.Parsed s) s := by
  refine finds_assertToken fun ht => finds_skip ht fun s₁ h₁ => ?_
  refine finds_consumeOrFail fun s₂ h₂ => ?_
  refine finds_parseOrFail trivial trivial fun expr s₃ ⟨test, htest, h₃, hlegal₃, _⟩ => ?_
  refine finds_consumeOrFail fun s₄ h₄ => ?_
  refine finds_parseOrFail trivial trivial fun statement s₅ ⟨⟨body, hbody, h₅, hlegal₅⟩, _⟩ => ?_
  subst htest hbody
  refine ⟨.while test body, rfl, ((((h₁.trans h₂).trans h₃).trans h₄).trans h₅).cast ?_ ?_,
    hlegal₃.mono, hlegal₅⟩
  · dsimp only [Phrase.lexemes]
    simp
  · dsimp only [Phrase.Calm]
    simp

theorem parseExpressionUnless_parsed {p : Production} {s₀ : ParserState} {β : Type}
    {f : Option Node → Parse β} {Q : β → ParserState → Prop} {t : JSTokenType}
    (hf : ∀ (e : Phrase .opt) s', Read s e.lexemes e.Calm s' → e.Legal true →
      Finds p s₀ (f e.build) Q s') :
    Finds p s₀ (parseExpressionUnless t >>= f) Q s := by
  unfold parseExpressionUnless
  rw [finds_bind]
  refine finds_ifToken (fun _ => hf .absent s (.refl s) trivial) fun _ => ?_
  refine finds_parseOrFail trivial trivial fun expr s₁ ⟨e, he, h₁, hlegal₁, _⟩ => ?_
  subst he
  exact hf (.present e) s₁ h₁ hlegal₁.mono

/-- The rest of a `for` header without `in`, from the token `l` on. -/
theorem parseStandardForLoop_parsed {p : Production} {s₀ : ParserState} {decls : Option Node}
    {l : Lexeme} (hl : ∀ s', s.Next .identifyReservedWords s' → l.Step s.stream s'.stream) :
    Finds p s₀ (parseStandardForLoop decls) (fun node s' =>
      ∃ (test update : Phrase .opt) (body : Phrase .stmt),
        node = Builder.createForLoop decls test.build update.build body.build ∧
        Read s (l :: test.lexemes ++ .mark .semicolon :: update.lexemes ++
          .mark .closeParen :: body.lexemes) (test.Calm ∧ update.Calm ∧ body.Calm) s' ∧
        test.Legal true ∧ update.Legal true ∧ body.Legal true) s := by
  refine finds_next fun s₁ hn => ?_
  have h₁ : Read s [l] True s₁ := .of_step hn (hl s₁ hn)
  refine parseExpressionUnless_parsed fun test s₂ h₂ hlegal₂ => ?_
  refine finds_consumeOrFail fun s₃ h₃ => ?_
  refine parseExpressionUnless_parsed fun update s₄ h₄ hlegal₄ => ?_
  refine finds_consumeOrFail fun s₅ h₅ => ?_
  refine finds_parseOrFail trivial trivial fun statement s₆ ⟨⟨body, hbody, h₆, hlegal₆⟩, _⟩ => ?_
  subst hbody
  refine ⟨test, update, body, rfl,
    (((((h₁.trans h₂).trans h₃).trans h₄).trans h₅).trans h₆).cast ?_ ?_, hlegal₂, hlegal₄, hlegal₆⟩
  · simp
  · tauto

/-- The init part of a `for` header is read with `m_allowsIn` unset. -/
theorem withoutIn_parsed {p q : Production} {s₀ : ParserState} {β : Type}
    {f : Option q.Ret → Parse β} {Q : β → ParserState → Prop}
    (hf : ∀ r s₁, grammar.post q { s with regs := { s.regs with allowsIn := false } } r s₁ →
      Finds p s₀ (f r) Q { s₁ with regs := { s₁.regs with allowsIn := true } })
    (hq : ∀ t, q.Starts t) (htells : ∀ t, p.Tells s₀ q t) :
    Finds p s₀ (setAllowsIn false >>= fun _ => parse q >>= fun r =>
      setAllowsIn true >>= fun _ => f r) Q s :=
  finds_modifyRegs
    (finds_parse (hq _) (htells _) fun r s₁ _ hr => finds_modifyRegs (hf r s₁ hr))

/-- A `for` header that declares variables, from `var` on. -/
theorem parseForVar_parsed {p : Production} {s₀ : ParserState} (ht : s.token.type = .var)
    (hin : s.regs.allowsIn = true) :
    Finds p s₀ parseForVar (fun node s' => ∃ (statement : Phrase .stmt) (ls : List Lexeme),
      node = statement.build ∧ statement.lexemes = .mark .for :: .mark .openParen :: ls ∧
        Read s ls statement.Calm s' ∧ statement.Legal true) s := by
  refine withoutIn_parsed (fun decls s₁ hdecls => finds_hasError ?_) (fun _ => trivial)
    fun _ => trivial
  split
  · exact finds_fail
  cases decls with
  | none => exact hdecls.elim
  | some decls =>
      obtain ⟨name, init, rest, hnode, hcount, hlast, h₁, hlegalInit, hlegalRest⟩ := hdecls
      have h₁ := h₁.withAllowsIn (s := s) hin.symm
      generalize ({ s₁ with regs := { s₁.regs with allowsIn := true } } : ParserState) = s₁ at h₁ ⊢
      refine finds_isToken ?_
      by_cases hstandard : 1 < decls.declarations ∨ decide (s₁.token.type = .semicolon) = true
      · rw [if_pos hstandard]
        refine (parseStandardForLoop_parsed (l := .skipped s₁.token.type s₁.token.data.getIdent)
          fun s' hn => ⟨rfl, rfl, hn.eq.1⟩).mono ?_
        rintro node s₂ ⟨test, update, body, rfl, h₂, hlegal₂⟩
        refine ⟨.forVar name init rest s₁.token.type s₁.token.data.getIdent test update body, _,
          ?_, rfl, (h₁.trans h₂).cast ?_ ?_, ⟨hlegalInit, hlegalRest⟩, fun hrest => ?_, hlegal₂⟩
        · rw [hnode]
          rfl
        · show (Lexeme.mark s.token.type :: _) ++ _ = _
          rw [ht]
          simp
        · dsimp only [Phrase.Calm]
          tauto
        · subst hrest
          refine hstandard.elim (fun h => ?_) of_decide_eq_true
          rw [hcount] at h
          exact absurd h (by simp [Phrase.build])
      · rw [if_neg hstandard]
        have hrest : (rest.build : List Node) = [] := by
          have : ¬ 1 < decls.declarations := fun h => hstandard (Or.inl h)
          rw [hcount] at this
          exact List.length_eq_zero_iff.mp (by omega)
        obtain ⟨hident, hinit⟩ := hlast hrest
        obtain rfl : rest = .noDecls := by
          cases rest with
          | noDecls => rfl
          | moreDecls name init rest => cases hrest
        refine finds_consume fun s₂ h₂ => ?_
        refine finds_parseOrFail trivial trivial fun expr s₃ ⟨right, hright, h₃, hlegal₃, _⟩ => ?_
        refine finds_consumeOrFail fun s₄ h₄ => ?_
        refine finds_parseOrFail trivial trivial
          fun statement s₅ ⟨⟨body, hbody, h₅, hlegal₅⟩, _⟩ => ?_
        refine ⟨.forInVar name init right body, _, ?_, rfl,
          ((((h₁.trans h₂).trans h₃).trans h₄).trans h₅).cast ?_ ?_, hlegalInit, hlegal₃.mono,
          hlegal₅⟩
        · rw [hident, hinit, hright, hbody, Option.or_none]
          rfl
        · rw [ht]
          dsimp only [Phrase.lexemes]
          simp
        · dsimp only [Phrase.Calm]
          tauto

theorem parseForInit_parsed {p : Production} {s₀ : ParserState} {β : Type}
    {f : Option Node → Parse β} {Q : β → ParserState → Prop} (hin : s.regs.allowsIn = true)
    (hf : ∀ (e : Phrase .opt) s', Read s e.lexemes e.Calm s' → e.Legal false →
      (e = .absent → s'.token.type = .semicolon) → Finds p s₀ (f e.build) Q s') :
    Finds p s₀ (parseForInit >>= f) Q s := by
  unfold parseForInit
  rw [finds_bind]
  refine finds_ifToken (fun ht => hf .absent s (.refl s) trivial fun _ => ht) fun _ => ?_
  refine withoutIn_parsed (fun decls s₁ hdecls => ?_) (fun _ => trivial) fun _ => trivial
  refine finds_failIfNull fun decls hsome => ?_
  subst hsome
  obtain ⟨e, rfl, h₁, hlegal₁, -⟩ := hdecls
  exact hf (.present e) _ (h₁.withAllowsIn (s := s) hin.symm) hlegal₁ fun h => by cases h

theorem forStatement_parsed (hin : s.regs.allowsIn = true) :
    Finds .forStatement s parseForStatement (Production.forStatement.Parsed s) s := by
  refine finds_assertToken fun ht => finds_skip ht fun s₁ h₁ => ?_
  refine finds_consumeOrFail fun s₂ h₂ => finds_nonLHSCount ?_
  have hheader := h₁.trans h₂
  have hin := hheader.allowsIn.trans hin
  refine finds_ifToken (fun hvar => ?_) fun _ =>
    parseForInit_parsed hin fun init s₃ h₃ hlegal₃ habsent => ?_
  · refine (parseForVar_parsed hvar hin).mono ?_
    rintro node s₃ ⟨statement, ls, hnode, hls, h₃, hlegal₃⟩
    refine ⟨statement, hnode, (hheader.trans h₃).cast ?_ (by simp), hlegal₃⟩
    rw [hls]
    rfl
  refine finds_ifToken (fun hsemi => ?_) fun hne =>
    finds_nonLHSCount (finds_failIfFalse fun hcount => ?_)
  · refine (parseStandardForLoop_parsed (l := .mark .semicolon)
      fun s' hn => ⟨hsemi, hn.eq.1⟩).mono ?_
    rintro node s₄ ⟨test, update, body, hnode, h₄, hlegal₄⟩
    refine ⟨.for init test update body, hnode, ((hheader.trans h₃).trans h₄).cast ?_ ?_, hlegal₃,
      hlegal₄⟩
    · dsimp only [Phrase.lexemes]
      simp
    · dsimp only [Phrase.Calm]
      tauto
  · cases init with
    | absent => exact absurd (habsent rfl) hne
    | present left =>
        refine finds_consumeOrFail fun s₄ h₄ => ?_
        refine finds_parseOrFail trivial trivial fun expr s₅ ⟨right, hright, h₅, hlegal₅, _⟩ => ?_
        refine finds_consumeOrFail fun s₆ h₆ => ?_
        refine finds_parseOrFail trivial trivial
          fun statement s₇ ⟨⟨body, hbody, h₇, hlegal₇⟩, _⟩ => ?_
        subst hright hbody
        have hcalm : left.Calm := h₃.eq_iff.mp (of_decide_eq_true hcount).symm
        refine ⟨.forIn left right body, rfl,
          (((((hheader.trans h₃).trans h₄).trans h₅).trans h₆).trans h₇).cast ?_ ?_,
          ⟨hlegal₃, hcalm⟩, hlegal₅.mono, hlegal₇⟩
        · dsimp only [Phrase.lexemes]
          simp
        · dsimp only [Phrase.Calm]
          tauto

/-! ## Jumps -/

theorem parseJumpLabel_parsed {p : Production} {s₀ : ParserState} {β : Type}
    {f : Option Identifier → Parse β} {Q : β → ParserState → Prop}
    (hf : ∀ label semi s', Read s (labelLexemes label ++ semiLexemes semi) True s' →
      Finds p s₀ (f label) Q s') : Finds p s₀ (parseJumpLabel >>= f) Q s := by
  unfold parseJumpLabel
  rw [finds_bind]
  refine finds_autoSemiColon (fun semi s₁ h₁ => hf none semi s₁ h₁) ?_
  refine finds_matchOrFail fun hident => finds_tokenData (finds_skipIdent hident fun s₁ h₁ => ?_)
  refine finds_semicolonOrFail fun semi s₂ h₂ => ?_
  exact hf (some s.token.data.getIdent) semi s₂ ((h₁.trans h₂).cast rfl and_self_iff)

theorem breakStatement_parsed :
    Finds .breakStatement s parseBreakStatement (Production.breakStatement.Parsed s) s := by
  refine finds_assertToken fun ht => finds_skip ht fun s₁ h₁ => ?_
  refine parseJumpLabel_parsed fun label semi s₂ h₂ => ?_
  exact ⟨.break label semi, rfl, (h₁.trans h₂).cast rfl and_self_iff, trivial⟩

theorem continueStatement_parsed :
    Finds .continueStatement s parseContinueStatement
      (Production.continueStatement.Parsed s) s := by
  refine finds_assertToken fun ht => finds_skip ht fun s₁ h₁ => ?_
  refine parseJumpLabel_parsed fun label semi s₂ h₂ => ?_
  exact ⟨.continue label semi, rfl, (h₁.trans h₂).cast rfl and_self_iff, trivial⟩

theorem returnStatement_parsed :
    Finds .returnStatement s parseReturnStatement (Production.returnStatement.Parsed s) s := by
  refine finds_assertToken fun ht => finds_skip ht fun s₁ h₁ => ?_
  refine finds_autoSemiColon (fun semi s₂ h₂ => ?_) ?_
  · exact ⟨.return .absent semi, rfl, (h₁.trans h₂).cast rfl and_self_iff, trivial⟩
  · refine finds_parseOrFail trivial trivial fun expr s₂ ⟨e, he, h₂, hlegal₂, _⟩ => ?_
    refine finds_semicolonOrFail fun semi s₃ h₃ => ?_
    subst he
    refine ⟨.return (.present e) semi, rfl, ((h₁.trans h₂).trans h₃).cast rfl ?_, hlegal₂.mono⟩
    dsimp only [Phrase.Calm]
    tauto

theorem throwStatement_parsed :
    Finds .throwStatement s parseThrowStatement (Production.throwStatement.Parsed s) s := by
  refine finds_assertToken fun ht => finds_skip ht fun s₁ h₁ => ?_
  refine finds_parseOrFail trivial trivial fun expr s₂ ⟨e, he, h₂, hlegal₂, _⟩ => ?_
  refine finds_semicolonOrFail fun semi s₃ h₃ => ?_
  subst he
  refine ⟨.throw e semi, rfl, ((h₁.trans h₂).trans h₃).cast rfl ?_, hlegal₂.mono⟩
  dsimp only [Phrase.Calm]
  tauto

/-! ## Other statements -/

theorem withStatement_parsed :
    Finds .withStatement s parseWithStatement (Production.withStatement.Parsed s) s := by
  refine finds_assertToken fun ht => finds_skip ht fun s₁ h₁ => ?_
  refine finds_consumeOrFail fun s₂ h₂ => ?_
  refine finds_parseOrFail trivial trivial fun expr s₃ ⟨subject, hsubject, h₃, hlegal₃, _⟩ => ?_
  refine finds_consumeOrFail fun s₄ h₄ => ?_
  refine finds_parseOrFail trivial trivial fun statement s₅ ⟨⟨body, hbody, h₅, hlegal₅⟩, _⟩ => ?_
  subst hsubject hbody
  refine ⟨.with subject body, rfl, ((((h₁.trans h₂).trans h₃).trans h₄).trans h₅).cast ?_ ?_,
    hlegal₃.mono, hlegal₅⟩
  · dsimp only [Phrase.lexemes]
    simp
  · dsimp only [Phrase.Calm]
    tauto

/-- The clauses that `parseSwitchClauses` finds, if there are any. -/
theorem switchClauses_post {r : Option Node} {s' : ParserState}
    (h : grammar.post .switchClauses s r s') :
    ∃ clauses : Phrase .clauses, r = Node.ofListOrNull .clauseList clauses.build ∧
      Read s clauses.lexemes clauses.Calm s' ∧ clauses.Legal true := by
  cases r with
  | none =>
      obtain ⟨rfl, -⟩ := h
      exact ⟨.noClauses, rfl, .refl s', trivial⟩
  | some list =>
      exact h

/-- The default clause, if there is one. -/
theorem switchDefaultClause_post {r : Option Node} {s' : ParserState}
    (h : grammar.post .switchDefaultClause s r s') : Found .default s r s' := by
  cases r with
  | none =>
      obtain ⟨rfl, -⟩ := h
      exact ⟨.noDefault, rfl, .refl s', trivial⟩
  | some clause => exact h

theorem switchStatement_parsed :
    Finds .switchStatement s parseSwitchStatement (Production.switchStatement.Parsed s) s := by
  refine finds_assertToken fun ht => finds_skip ht fun s₁ h₁ => ?_
  refine finds_consumeOrFail fun s₂ h₂ => ?_
  refine finds_parseOrFail trivial trivial
    fun expr s₃ ⟨discriminant, hdiscriminant, h₃, hlegal₃, _⟩ => ?_
  refine finds_consumeOrFail fun s₄ h₄ => finds_consumeOrFail fun s₅ h₅ => ?_
  have h := (((h₁.trans h₂).trans h₃).trans h₄).trans h₅
  refine finds_parse trivial trivial fun firstClauses s₆ _ hfirst => finds_failIfError ?_
  refine finds_parse trivial trivial fun defaultClause s₇ _ hdefault => finds_failIfError ?_
  refine finds_parse trivial trivial fun secondClauses s₈ _ hsecond => finds_failIfError ?_
  obtain ⟨first, rfl, h₆, hlegal₆⟩ := switchClauses_post hfirst
  obtain ⟨default, rfl, h₇, hlegal₇⟩ := switchDefaultClause_post hdefault
  obtain ⟨second, rfl, h₈, hlegal₈⟩ := switchClauses_post hsecond
  refine finds_consumeOrFail fun s₉ h₉ => ?_
  subst hdiscriminant
  refine ⟨.switch discriminant first default second, rfl,
    ((((h.trans h₆).trans h₇).trans h₈).trans h₉).cast ?_ ?_, hlegal₃.mono, hlegal₆, hlegal₇,
    hlegal₈⟩
  · dsimp only [Phrase.lexemes]
    simp
  · dsimp only [Phrase.Calm]
    tauto

theorem parseClause_parsed {p : Production} {s₀ : ParserState} {β : Type}
    {f : Node → Parse β} {Q : β → ParserState → Prop} (ht : s.token.type = .case)
    (hf : ∀ (test : Phrase .expr) (body : Phrase .stmts) s',
      Read s (.mark .case :: test.lexemes ++ .mark .colon :: body.lexemes)
        (test.Calm ∧ body.Calm) s' → test.Legal true ∧ body.Legal true →
      Finds p s₀ (f (Builder.createClause (some test.build) (.ofList .sourceElements body.build)))
        Q s') :
    Finds p s₀ (parseClause >>= f) Q s := by
  unfold parseClause
  rw [finds_bind]
  refine finds_skip ht fun s₁ h₁ => ?_
  refine finds_parseOrFail trivial trivial fun condition s₂ ⟨test, hcondition, h₂, hlegal₂, _⟩ => ?_
  refine finds_consumeOrFail fun s₃ h₃ => ?_
  refine finds_parseOrFail trivial trivial
    fun statements s₄ ⟨⟨body, hstatements, h₄, hlegal₄⟩, _⟩ => ?_
  subst hcondition hstatements
  refine hf test body s₄ ((((h₁.trans h₂).trans h₃).trans h₄).cast ?_ ?_) ⟨hlegal₂.mono, hlegal₄⟩
  · simp
  · tauto

theorem switchClauses_parsed :
    Finds .switchClauses s parseSwitchClauses (Production.switchClauses.Parsed s) s := by
  refine finds_ifToken (fun ht => ?_) fun hne => finds_returnNull ⟨rfl, hne⟩
  refine parseClause_parsed ht fun test body s₁ h₁ ⟨htest, hbody⟩ => ?_
  refine finds_parseLast (fun _ _ h => h) trivial trivial fun r s₂ ⟨rest, hr, h₂, hrest⟩ => ?_
  refine ⟨.moreClauses test body rest, ?_, (h₁.trans h₂).cast rfl ?_, htest, hbody, hrest⟩
  · rw [hr]
    rfl
  · dsimp only [Phrase.Calm]
    tauto

theorem switchClausesLoop_parsed {clauseList : Node} :
    Finds (.switchClausesLoop clauseList) s (parseSwitchClausesLoop clauseList)
      ((Production.switchClausesLoop clauseList).Parsed s) s := by
  refine finds_ifToken (fun ht => ?_) fun _ => ?_
  · refine parseClause_parsed ht fun test body s₁ h₁ ⟨htest, hbody⟩ => ?_
    refine finds_parseLast (fun _ _ h => h) trivial trivial fun r s₂ ⟨rest, hr, h₂, hrest⟩ => ?_
    refine ⟨.moreClauses test body rest, ?_, (h₁.trans h₂).cast rfl ?_, htest, hbody, hrest⟩
    · rw [hr]
      exact appendAll_append clauseList _ rest.build
    · dsimp only [Phrase.Calm]
      tauto
  · exact ⟨.noClauses, (appendAll_nil clauseList).symm, .refl s, trivial⟩

theorem switchDefaultClause_parsed :
    Finds .switchDefaultClause s parseSwitchDefaultClause
      (Production.switchDefaultClause.Parsed s) s := by
  refine finds_ifToken (fun ht => ?_) fun hne => finds_returnNull ⟨rfl, hne⟩
  refine finds_skip ht fun s₁ h₁ => finds_consumeOrFail fun s₂ h₂ => ?_
  refine finds_parseOrFail trivial trivial
    fun statements s₃ ⟨⟨body, hstatements, h₃, hlegal₃⟩, _⟩ => ?_
  subst hstatements
  exact ⟨.defaultClause body, rfl, ((h₁.trans h₂).trans h₃).cast rfl (by
    dsimp only [Phrase.Calm]
    simp), hlegal₃⟩

theorem parseCatch_parsed {p : Production} {s₀ : ParserState} {β : Type}
    {f : Identifier × Option Node → Parse β} {Q : β → ParserState → Prop}
    (hf : ∀ (handler : Phrase .handler) s', Read s handler.lexemes handler.Calm s' →
      handler.Legal true → Finds p s₀ (f handler.build) Q s') :
    Finds p s₀ (parseCatch >>= f) Q s := by
  unfold parseCatch
  rw [finds_bind]
  refine finds_ifToken (fun ht => ?_) fun _ => hf .noHandler s (.refl s) trivial
  refine finds_skip ht fun s₁ h₁ => finds_consumeOrFail fun s₂ h₂ => ?_
  refine finds_matchOrFail fun hident => finds_tokenData (finds_skipIdent hident fun s₃ h₃ => ?_)
  refine finds_consumeOrFail fun s₄ h₄ => finds_matchOrFail fun _ => ?_
  refine finds_parseOrFail trivial trivial fun catchBlock s₅ ⟨body, hbody, h₅, hlegal₅⟩ => ?_
  subst hbody
  refine hf (.catch s₂.token.data.getIdent body) s₅
    (((((h₁.trans h₂).trans h₃).trans h₄).trans h₅).cast ?_ ?_) hlegal₅
  · dsimp only [Phrase.lexemes]
    simp
  · dsimp only [Phrase.Calm]
    tauto

theorem parseFinally_parsed {p : Production} {s₀ : ParserState} {β : Type}
    {f : Option Node → Parse β} {Q : β → ParserState → Prop}
    (hf : ∀ (finalizer : Phrase .finalizer) s', Read s finalizer.lexemes finalizer.Calm s' →
      finalizer.Legal true → Finds p s₀ (f finalizer.build) Q s') :
    Finds p s₀ (parseFinally >>= f) Q s := by
  unfold parseFinally
  rw [finds_bind]
  refine finds_ifToken (fun ht => ?_) fun _ => hf .noFinalizer s (.refl s) trivial
  refine finds_skip ht fun s₁ h₁ => finds_matchOrFail fun _ => ?_
  refine finds_parseOrFail trivial trivial fun finallyBlock s₂ ⟨body, hbody, h₂, hlegal₂⟩ => ?_
  subst hbody
  refine hf (.finally body) s₂ ((h₁.trans h₂).cast rfl ?_) hlegal₂
  dsimp only [Phrase.Calm]
  tauto

theorem tryStatement_parsed :
    Finds .tryStatement s parseTryStatement (Production.tryStatement.Parsed s) s := by
  refine finds_assertToken fun ht => finds_skip ht fun s₁ h₁ => finds_matchOrFail fun _ => ?_
  refine finds_parseOrFail trivial trivial fun tryBlock s₂ ⟨body, hbody, h₂, hlegal₂⟩ => ?_
  refine parseCatch_parsed fun handler s₃ h₃ hlegal₃ =>
    parseFinally_parsed fun finalizer s₄ h₄ hlegal₄ => ?_
  refine finds_failIfFalse fun hsome => ?_
  subst hbody
  have hparts : handler ≠ .noHandler ∨ finalizer ≠ .noFinalizer := by
    by_contra hnone
    obtain ⟨rfl, rfl⟩ := not_or.mp hnone |>.imp not_not.mp not_not.mp
    cases hsome
  refine ⟨.try body handler finalizer, rfl, (((h₁.trans h₂).trans h₃).trans h₄).cast ?_ ?_, hlegal₂,
    hlegal₃, hlegal₄, hparts⟩
  · dsimp only [Phrase.lexemes]
    simp
  · dsimp only [Phrase.Calm]
    tauto

theorem debuggerStatement_parsed :
    Finds .debuggerStatement s parseDebuggerStatement
      (Production.debuggerStatement.Parsed s) s := by
  refine finds_assertToken fun ht => finds_skip ht fun s₁ h₁ => ?_
  exact finds_semicolonOrFail fun semi s₂ h₂ =>
    ⟨.debugger semi, rfl, (h₁.trans h₂).cast rfl and_self_iff, trivial⟩

/-- An expression of one token that starts with a name is that name. -/
theorem Phrase.eq_resolve {e : Phrase .expr} (hlength : e.lexemes.length = 1) {a b : Stream}
    (h : Reads e.lexemes a b) (ht : a.token.type = .ident) :
    e = .resolve a.token.data.getIdent := by
  cases e with
  | resolve name =>
      obtain ⟨m, ⟨-, hname, -⟩, -⟩ := h
      rw [hname]
  | this | null | string value | number value =>
      obtain ⟨m, ⟨ht', -⟩, -⟩ := h
      exact absurd (ht'.symm.trans ht) (by simp)
  | boolean value =>
      obtain ⟨m, ⟨ht', -⟩, -⟩ := h
      exact absurd (ht'.symm.trans ht) (by cases value <;> simp)
  | regExp patternPrefix pattern flags =>
      obtain ⟨m, ⟨ht', -⟩, -⟩ := h
      exact absurd (ht'.symm.trans ht) (by cases patternPrefix <;> simp)
  | call callee args =>
      cases args with
      | noArgs => simp [lexemes] at hlength
      | arguments first rest =>
          simp only [lexemes, List.length_append, List.length_cons] at hlength
          omega
  | bracket e _ | binary e _ _ | cond e _ _ | assign e _ _ | comma e _ _ =>
      have := List.length_pos_iff.mpr e.lexemes_ne_nil
      simp only [lexemes, List.length_append, List.length_cons] at hlength
      omega
  | _ => simp [lexemes, functionLexemes, lexemes_ne_nil] at hlength

theorem expressionOrLabelStatement_parsed (ht : s.token.type = .ident) :
    Finds .expressionOrLabelStatement s parseExpressionOrLabelStatement
      (Production.expressionOrLabelStatement.Parsed s) s := by
  refine finds_tokenData (finds_tokenCount ?_)
  refine finds_parseOrFail trivial trivial fun expression s₁ ⟨e, he, h₁, hlegal₁, _⟩ => ?_
  subst he
  refine finds_autoSemiColon (fun semi s₂ h₂ => ?_) ?_
  · refine ⟨.exprStmt e semi, rfl, (h₁.trans h₂).cast rfl ?_, hlegal₁.mono⟩
    dsimp only [Phrase.Calm]
    simp
  · refine finds_tokenCount (finds_failIfFalse fun hcount => ?_)
    refine finds_consumeOrFail fun s₂ h₂ => ?_
    refine finds_parseOrFail trivial trivial fun statement s₃ ⟨⟨body, hbody, h₃, hlegal₃⟩, _⟩ => ?_
    subst hbody
    have hlength : e.lexemes.length = 1 := by
      have hread := h₁.tokenCount
      have hcount := of_decide_eq_true hcount
      omega
    obtain rfl := Phrase.eq_resolve hlength h₁.reads ht
    refine ⟨.labelled s.token.data.getIdent body, rfl, ((h₁.trans h₂).trans h₃).cast rfl ?_,
      hlegal₃⟩
    dsimp only [Phrase.Calm]
    simp

theorem expressionStatement_parsed :
    Finds .expressionStatement s parseExpressionStatement
      (Production.expressionStatement.Parsed s) s := by
  refine finds_parseOrFail trivial trivial fun expression s₁ ⟨e, he, h₁, hlegal₁, _⟩ => ?_
  subst he
  refine finds_semicolonOrFail fun semi s₂ h₂ => ?_
  refine ⟨.exprStmt e semi, rfl, (h₁.trans h₂).cast rfl ?_, hlegal₁.mono⟩
  dsimp only [Phrase.Calm]
  simp

/-! ## Chains of `if` statements -/

theorem parseIfPart_parsed {p : Production} {s₀ : ParserState} {β : Type}
    {f : Node × (Nat × Nat) × Node → Parse β} {Q : β → ParserState → Prop}
    (ht : s.token.type = .if)
    (hf : ∀ (test : Phrase .expr) (yes : Phrase .stmt) lines s',
      Read s (.mark .if :: .mark .openParen :: test.lexemes ++ .mark .closeParen :: yes.lexemes)
        (test.Calm ∧ yes.Calm) s' → test.Legal true ∧ yes.Legal true →
        Finds p s₀ (f (test.build, lines, yes.build)) Q s') :
    Finds p s₀ (parseIfPart >>= f) Q s := by
  unfold parseIfPart
  rw [finds_bind]
  refine finds_tokenLine (finds_skip ht fun s₁ h₁ => finds_consumeOrFail fun s₂ h₂ => ?_)
  refine finds_parseOrFail trivial trivial fun condition s₃ ⟨test, hcondition, h₃, hlegal₃, _⟩ => ?_
  refine finds_tokenLine (finds_consumeOrFail fun s₄ h₄ => ?_)
  refine finds_parseOrFail trivial trivial fun trueBlock s₅ ⟨⟨yes, hyes, h₅, hlegal₅⟩, _⟩ => ?_
  subst hcondition hyes
  refine hf test yes _ s₅ (((((h₁.trans h₂).trans h₃).trans h₄).trans h₅).cast ?_ ?_)
    ⟨hlegal₃.mono, hlegal₅⟩
  · simp
  · tauto

theorem ifLoop_parsed {exprStack statementStack : List Node} {posStack : List (Nat × Nat)}
    (ht : s.token.type = .else) :
    Finds (.ifLoop exprStack posStack statementStack) s
      (parseIfLoop exprStack posStack statementStack)
      ((Production.ifLoop exprStack posStack statementStack).Parsed s) s := by
  refine finds_skip ht fun s₁ h₁ => ?_
  refine finds_ifToken (fun ht => ?_) fun _ => ?_
  · refine parseIfPart_parsed ht fun test yes pos s₂ h₂ hlegal₂ => ?_
    refine finds_ifToken (fun ht => ?_) fun _ => ?_
    · refine finds_parseLast (fun _ _ h => h) ht trivial
        fun r s₃ ⟨chain, last, lines, _, hlines, hr, h₃, hlegal₃⟩ => ?_
      refine ⟨(test, yes) :: chain, last, lines ++ [pos], fun _ => List.cons_ne_nil _ _, ?_, ?_,
        ((h₁.trans h₂).trans h₃).cast ?_ ?_, List.forall_mem_cons.mpr ⟨hlegal₂, hlegal₃.1⟩,
        hlegal₃.2⟩
      · simp [hlines]
      · rw [hr]
        simp
      · simp [IfChain.lexemes]
      · simp only [IfChain.Calm, List.forall_mem_cons]
        tauto
    · refine ⟨[(test, yes)], none, [pos], fun _ => List.cons_ne_nil _ _, rfl, rfl,
        (h₁.trans h₂).cast ?_ ?_, List.forall_mem_singleton.mpr hlegal₂, fun _ h => (by cases h)⟩
      · simp [IfChain.lexemes]
      · simp [IfChain.Calm]
  · refine finds_parseOrFail trivial trivial fun block s₂ ⟨⟨body, hbody, h₂, hlegal₂⟩, _⟩ => ?_
    subst hbody
    refine ⟨[], some body, [], fun h => (by cases h), rfl, rfl, (h₁.trans h₂).cast ?_ ?_,
      fun _ h => (by cases h), fun _ h => Option.some.inj h ▸ hlegal₂⟩
    · simp [IfChain.lexemes]
    · simp [IfChain.Calm]

/-- The branches of a chain, as one statement. -/
def IfChain.phrase (chain : IfChain) (no : Phrase .stmt) : Phrase .stmt :=
  chain.foldr (fun link no => .ifElse link.1 link.2 no) no

omit [Platform] in
theorem IfChain.lexemes_cons (link : Phrase .expr × Phrase .stmt) (chain : IfChain)
    (last : Option (Phrase .stmt)) :
    IfChain.lexemes (link :: chain) last = .mark .else :: .mark .if :: .mark .openParen ::
      link.1.lexemes ++ .mark .closeParen :: link.2.lexemes ++ chain.lexemes last := by
  simp [IfChain.lexemes]

omit [Platform] in
theorem IfChain.lexemes_phrase (chain : IfChain) (no : Phrase .stmt) :
    (.mark .else :: (chain.phrase no).lexemes : List Lexeme) = chain.lexemes (some no) := by
  induction chain with
  | nil => rfl
  | cons link chain ih =>
      show .mark .else :: (Phrase.ifElse link.1 link.2 (IfChain.phrase chain no)).lexemes = _
      dsimp only [Phrase.lexemes]
      rw [IfChain.lexemes_cons, ← ih]
      simp

omit [Platform] in
theorem IfChain.calm_phrase (chain : IfChain) (no : Phrase .stmt) :
    (chain.phrase no).Calm ↔ chain.Calm (some no) := by
  induction chain with
  | nil => simp [IfChain.phrase, IfChain.Calm]
  | cons link chain ih =>
      show (Phrase.ifElse link.1 link.2 (IfChain.phrase chain no)).Calm ↔ _
      dsimp only [Phrase.Calm]
      rw [ih]
      simp only [IfChain.Calm, List.forall_mem_cons]
      tauto

omit [Platform] in
theorem IfChain.legal_phrase {chain : IfChain} {no : Phrase .stmt} (h : chain.Legal (some no)) :
    (chain.phrase no).Legal true := by
  induction chain with
  | nil => exact h.2 no rfl
  | cons link chain ih =>
      obtain ⟨hlink, hchain⟩ := List.forall_mem_cons.mp h.1
      exact ⟨hlink.1, hlink.2, ih ⟨hchain, h.2⟩⟩

/-- The last loop of `parseIfStatement` makes one statement of the branches. -/
theorem foldIf_chain (chain : IfChain) (no : Phrase .stmt) {lines : List (Nat × Nat)}
    (hlines : lines.length = chain.length) :
    foldIf (chain.map fun link => (link.1.build : Node)).reverse lines
      ((no.build : Node) :: (chain.map fun link => (link.2.build : Node)).reverse) =
      pure [((chain.phrase no).build : Node)] := by
  induction chain using List.reverseRecOn generalizing no lines with
  | nil => rfl
  | append_singleton chain link ih =>
      rw [List.length_append, List.length_singleton] at hlines
      obtain ⟨pos, lines, rfl⟩ := List.exists_cons_of_length_eq_add_one hlines
      simp only [List.map_append, List.map_cons, List.map_nil, List.reverse_append,
        List.reverse_cons, List.reverse_nil, List.nil_append, List.singleton_append]
      refine (ih (.ifElse link.1 link.2 no) (Nat.succ.inj hlines)).trans ?_
      simp [IfChain.phrase]

/-- The chain that is folded: without a trailing `else`, the last `if` is closed
before. -/
theorem IfChain.close (chain : IfChain) (last : Option (Phrase .stmt))
    (h : last = none → chain ≠ []) {lines : List (Nat × Nat)}
    (hlines : lines.length = chain.length) :
    ∃ (init : IfChain) (no : Phrase .stmt) (lines' : List (Nat × Nat)),
      lines'.length = init.length ∧ chain.lexemes last = init.lexemes (some no) ∧
      (chain.Calm last ↔ init.Calm (some no)) ∧ (chain.Legal last → init.Legal (some no)) ∧
      ∀ {β : Type} (f : List Node × List (Nat × Nat) × List Node → Parse β),
        (if last.isSome = true then
          f ((chain.map fun link => (link.1.build : Node)).reverse, lines,
            (last.toList.map fun body => (body.build : Node)) ++
              (chain.map fun link => (link.2.build : Node)).reverse)
        else closeIf (chain.map fun link => (link.1.build : Node)).reverse lines
          ((last.toList.map fun body => (body.build : Node)) ++
            (chain.map fun link => (link.2.build : Node)).reverse) >>= f) =
        f ((init.map fun link => (link.1.build : Node)).reverse, lines',
          (no.build : Node) :: (init.map fun link => (link.2.build : Node)).reverse) := by
  cases last with
  | some body => exact ⟨chain, body, lines, hlines, rfl, Iff.rfl, id, fun f => rfl⟩
  | none =>
      obtain rfl | ⟨init, link, rfl⟩ := List.eq_nil_or_concat chain
      · exact absurd rfl (h rfl)
      rw [List.concat_eq_append, List.length_append, List.length_singleton] at hlines
      obtain ⟨pos, lines, rfl⟩ := List.exists_cons_of_length_eq_add_one hlines
      rw [List.concat_eq_append]
      refine ⟨init, .ifThen link.1 link.2, lines, Nat.succ.inj hlines, ?_, ?_,
        fun ⟨hlegal, _⟩ => ?_, fun f => ?_⟩
      · simp [IfChain.lexemes, Phrase.lexemes]
      · simp only [IfChain.Calm, List.forall_mem_append, List.forall_mem_singleton]
        simp [Phrase.Calm]
      · obtain ⟨hinit, hlink⟩ := List.forall_mem_append.mp hlegal
        exact ⟨hinit, fun _ h => Option.some.inj h ▸ hlink link (by simp)⟩
      · simp only [List.map_append, List.map_cons, List.map_nil, List.reverse_append,
          List.reverse_cons, List.reverse_nil, List.nil_append, List.singleton_append]
        rfl

theorem ifStatement_parsed :
    Finds .ifStatement s parseIfStatement (Production.ifStatement.Parsed s) s := by
  refine finds_assertToken fun ht => ?_
  refine parseIfPart_parsed ht fun test yes _ s₁ h₁ ⟨htest, hyes⟩ => ?_
  refine finds_ifToken (fun ht => ?_) fun _ => ?_
  · refine finds_parseOrNull (fun _ _ h => h) ht trivial
      fun r s₂ ⟨chain, last, lines, hne, hlines, hr, h₂, hlegal₂⟩ => ?_
    obtain ⟨init, no, lines', hlines', hls, hcalm, hlegal, hclose⟩ :=
      IfChain.close chain last hne hlines
    rw [hr]
    simp only [List.append_nil]
    refine (congrArg (fun x => Finds .ifStatement s x _ s₂) (hclose _)).mpr ?_
    show Finds _ _ (foldIf _ _ _ >>= _) _ _
    rw [foldIf_chain _ _ hlines']
    refine ⟨.ifElse test yes (init.phrase no), rfl, (h₁.trans h₂).cast ?_ ?_, htest, hyes,
      IfChain.legal_phrase (hlegal hlegal₂)⟩
    · rw [hls, ← IfChain.lexemes_phrase]
      dsimp only [Phrase.lexemes]
    · rw [hcalm, ← IfChain.calm_phrase]
      dsimp only [Phrase.Calm]
      tauto
  · refine ⟨.ifThen test yes, rfl, h₁.cast ?_ ?_, htest, hyes⟩
    · dsimp only [Phrase.lexemes]
    · dsimp only [Phrase.Calm]
      rfl

/-! ## Functions -/

omit [Platform] in
theorem paramLexemes_cons (name : Identifier) (rest : List Identifier) :
    paramLexemes (name :: rest) =
      .ident name :: rest.flatMap fun name => [.mark .comma, .ident name] := by
  induction rest generalizing name with
  | nil => rfl
  | cons next rest ih =>
      show .ident name :: .mark .comma :: paramLexemes (next :: rest) = _
      rw [ih next]
      rfl

theorem formalParameters_parsed :
    Finds .formalParameters s parseFormalParameters (Production.formalParameters.Parsed s) s := by
  refine finds_matchOrFail fun ht => finds_tokenData (finds_skipIdent ht fun s₁ h₁ => ?_)
  refine finds_parseOrNull (fun _ _ h => h) trivial trivial fun rest s₂ ⟨rest', hrest, h₂⟩ => ?_
  refine ⟨s.token.data.getIdent, rest', ?_, (h₁.trans h₂).cast ?_ and_self_iff⟩
  · rw [hrest, List.nil_append]
  · rw [paramLexemes_cons]
    rfl

theorem formalParametersLoop_parsed {tail : List Identifier} :
    Finds (.formalParametersLoop tail) s (parseFormalParametersLoop tail)
      ((Production.formalParametersLoop tail).Parsed s) s := by
  refine finds_ifToken (fun ht => ?_) fun _ => ⟨[], (List.append_nil tail).symm, .refl s⟩
  refine finds_skip ht fun s₁ h₁ => ?_
  refine finds_matchOrFail fun ht => finds_tokenData (finds_skipIdent ht fun s₂ h₂ => ?_)
  refine finds_parseLast (fun _ _ h => h) trivial trivial fun r s₃ ⟨rest, hr, h₃⟩ => ?_
  refine ⟨s₁.token.data.getIdent :: rest, ?_, ((h₁.trans h₂).trans h₃).cast rfl (by simp)⟩
  rw [hr, List.append_assoc]
  rfl

/-- The statements of a function are read with empty stacks; the stacks of its
surroundings are put back. -/
theorem functionBody_parsed :
    Finds .functionBody s parseFunctionBody (Production.functionBody.Parsed s) s := by
  refine finds_ifToken (fun _ => ?_) fun hne => ?_
  · exact ⟨rfl, fun _ => ⟨.noStmts, rfl, .refl s, trivial⟩⟩
  · refine finds_getStacks (finds_modifyStacks ?_)
    refine finds_parse trivial trivial fun function s₁ _ hfunction => finds_modifyStacks ?_
    refine finds_failIfNull fun function hsome => ⟨rfl, fun hclose => ?_⟩
    subst hsome
    obtain ⟨⟨body, rfl, h₁, hlegal₁⟩, -⟩ := hfunction
    obtain ⟨n, ns, hbody⟩ := statements_ne_nil h₁ hne hclose
    refine ⟨body, ?_, ?_, hlegal₁⟩
    · rw [functionBodyNode, hbody]
      rfl
    · exact ⟨⟨h₁.reads, h₁.tokenCount, h₁.le, h₁.eq_iff, h₁.allowsIn⟩, rfl⟩

theorem parseFunctionName_parsed {needsName : Bool} {p : Production} (hp : p.Null s s)
    {β : Type} {f : Option Identifier → Parse β} {Q : β → ParserState → Prop}
    (hf : ∀ name s', Read s (labelLexemes name) True s' → Finds p s (f name) Q s') :
    Finds p s (parseFunctionName needsName >>= f) Q s := by
  unfold parseFunctionName
  rw [finds_bind]
  refine finds_ifToken (fun ht => finds_tokenData (finds_skipIdent ht fun s₁ h₁ => ?_)) fun _ => ?_
  · exact hf (some s.token.data.getIdent) s₁ h₁
  · cases needsName with
    | true => exact finds_returnNull hp
    | false => exact hf none s (.refl s)

theorem parseParameters_parsed {p : Production} {s₀ : ParserState} {β : Type}
    {f : Option Node → Parse β} {Q : β → ParserState → Prop}
    (hf : ∀ params s', Read s (paramLexemes params) True s' →
      Finds p s₀ (f (parametersNode params)) Q s') :
    Finds p s₀ (parseParameters >>= f) Q s := by
  unfold parseParameters
  rw [finds_bind]
  refine finds_ifToken (fun _ => hf [] s (.refl s)) fun _ => ?_
  refine finds_parseOrFail trivial trivial fun parameters s₁ ⟨name, rest, hparameters, h₁⟩ => ?_
  subst hparameters
  exact hf (name :: rest) s₁ h₁

theorem functionInfo_parsed {needsName : Bool} :
    Finds (.functionInfo needsName) s (parseFunctionInfo needsName)
      ((Production.functionInfo needsName).Parsed s) s := by
  refine parseFunctionName_parsed (p := .functionInfo needsName) rfl fun name s₁ h₁ =>
    finds_consumeOrFail fun s₂ h₂ => ?_
  refine parseParameters_parsed fun params s₃ h₃ => finds_consumeOrFail fun s₄ h₄ => ?_
  refine finds_matchOrFail fun ht => finds_skip ht fun s₅ h₅ => ?_
  refine finds_parseOrFail trivial trivial fun body s₆ hbody => ?_
  refine finds_matchOrFail fun ht => finds_skip ht fun s₇ h₇ => ?_
  obtain ⟨body, rfl, h₆, hlegal₆⟩ := hbody.2 ht
  refine ⟨params, body, rfl, rfl,
    ((((((h₁.trans h₂).trans h₃).trans h₄).trans h₅).trans h₆).trans h₇).cast ?_ ?_, hlegal₆⟩
  · simp [functionLexemes]
  · tauto

theorem functionDeclaration_parsed :
    Finds .functionDeclaration s parseFunctionDeclaration
      (Production.functionDeclaration.Parsed s) s := by
  refine finds_assertToken fun ht => finds_skip ht fun s₁ h₁ => ?_
  refine finds_parseOrFail trivial trivial
    fun info s₂ ⟨params, body, hparams, hbody, h₂, hlegal₂⟩ => ?_
  refine finds_failIfNull fun name hname => ?_
  refine ⟨.functionDecl name params body, ?_, (h₁.trans h₂).cast ?_ ?_, hlegal₂⟩
  · rw [hparams, hbody]
    rfl
  · rw [hname]
    rfl
  · dsimp only [Phrase.Calm]
    simp

/-! ## Statements -/

theorem statement_parsed :
    Finds .statement s parseStatement (Production.statement.Parsed s) s := by
  refine finds_tokenType ?_
  split
  case h_1 ht =>
    exact finds_parseLast (fun _ _ h => h) trivial trivial fun a s₁ ⟨body, ha, h₁, hlegal₁⟩ =>
      ⟨⟨.block body, ha, h₁, hlegal₁⟩, by rw [ht]; rfl⟩
  case h_5 ht =>
    exact finds_skip ht fun s₁ h₁ => ⟨⟨.empty, rfl, h₁, trivial⟩, by rw [ht]; rfl⟩
  case h_18 ht | h_19 ht | h_20 ht | h_21 ht => exact finds_returnNull ⟨rfl, by rw [ht]; rfl⟩
  case h_22 ht =>
    exact finds_parseLast (fun _ _ h => h) ht trivial fun a s₁ h₁ => ⟨h₁, by rw [ht]; rfl⟩
  case h_23 =>
    refine finds_parseLast (fun _ _ h => h) trivial trivial fun a s₁ h₁ => ⟨h₁, ?_⟩
    unfold endsStatements
    split <;> first | contradiction | rfl
  all_goals
    rename_i ht
    refine finds_parseLast ?_ trivial trivial fun a s₁ h₁ => ⟨h₁, by rw [ht]; rfl⟩
    exact fun _ _ h => h

/-! ## The parser -/

/-- **Every production finds what it should**, where it does not fail. -/
theorem parser_parsed : Respects parser (grammar.and safety) Production.Tells := by
  intro p s ⟨hs, hpre⟩
  refine wp_and safety_neverDead (Finds.body ?_) (parser_safe.correct p s hpre)
  cases p with
  | createSyntaxTree => exact createSyntaxTree_finds
  | sourceElements => exact sourceElements_parsed
  | sourceElementsLoop elements => exact sourceElementsLoop_parsed
  | varDeclaration => exact varDeclaration_parsed
  | constDeclaration => exact constDeclaration_parsed
  | doWhileStatement => exact doWhileStatement_parsed
  | whileStatement => exact whileStatement_parsed
  | varDeclarationList => exact varDeclarationList_parsed
  | varDeclarationLoop varDecls declarations lastInitializer => exact varDeclarationLoop_parsed
  | constDeclarationList => exact constDeclarationList_parsed
  | constDeclarationLoop constDecls tail => exact constDeclarationLoop_parsed hs
  | forStatement => exact forStatement_parsed (hpre.allowsIn rfl)
  | breakStatement => exact breakStatement_parsed
  | continueStatement => exact continueStatement_parsed
  | returnStatement => exact returnStatement_parsed
  | throwStatement => exact throwStatement_parsed
  | withStatement => exact withStatement_parsed
  | switchStatement => exact switchStatement_parsed
  | switchClauses => exact switchClauses_parsed
  | switchClausesLoop clauseList => exact switchClausesLoop_parsed
  | switchDefaultClause => exact switchDefaultClause_parsed
  | tryStatement => exact tryStatement_parsed
  | debuggerStatement => exact debuggerStatement_parsed
  | blockStatement => exact blockStatement_parsed
  | statement => exact statement_parsed
  | formalParameters => exact formalParameters_parsed
  | formalParametersLoop tail => exact formalParametersLoop_parsed
  | functionBody => exact functionBody_parsed
  | functionInfo needsName => exact functionInfo_parsed
  | functionDeclaration => exact functionDeclaration_parsed
  | expressionOrLabelStatement => exact expressionOrLabelStatement_parsed hs
  | expressionStatement => exact expressionStatement_parsed
  | ifStatement => exact ifStatement_parsed
  | ifLoop exprStack posStack statementStack => exact ifLoop_parsed hs
  | expression => exact expression_parsed
  | commaLoop commaNode => exact commaLoop_parsed
  | assignmentExpression => exact assignmentExpression_parsed
  | assignmentLoop lhs assignmentStack initialNonLHSCount => exact assignmentLoop_parsed hs
  | conditionalExpression => exact conditionalExpression_parsed
  | binaryExpression => exact binaryExpression_parsed
  | binaryLoop operandStackDepth operatorStackDepth => exact binaryLoop_parsed hs
  | property => exact property_parsed
  | objectLiteral => exact objectLiteral_parsed
  | objectLoop propertyList startOffset => exact objectLoop_parsed
  | strictObjectLiteral => exact hs.elim
  | strictObjectLoop propertyList => exact hs.elim
  | arrayLiteral => exact arrayLiteral_parsed
  | elisionsLoop elisions => exact elisionsLoop_parsed
  | arrayLoop elementList => exact arrayLoop_parsed
  | primaryExpression => exact primaryExpression_parsed
  | arguments => exact arguments_parsed
  | argumentsLoop argList => exact argumentsLoop_parsed
  | memberExpression => exact memberExpression_parsed
  | newLoop newCount => exact newLoop_parsed
  | memberLoop base newCount => exact memberLoop_parsed hs
  | unaryExpression => exact unaryExpression_parsed
  | unaryExpressionBody => exact unaryExpressionBody_parsed
  | unaryTokensLoop tokenStackDepth => exact unaryTokensLoop_parsed

/-- **The tree of a source is built of the statements read.** -/
theorem createSyntaxTree_parsed {source : List UChar} {tree : Node} {s' : ParserState}
    (h : runParser source = .done (some tree) s') :
    Production.createSyntaxTree.Parsed (initialState source) tree s' := by
  refine (run_sound (C := grammar.and safety) (p := Production.createSyntaxTree)
    parser_parsed.correct ⟨trivial, initialState_pre source⟩ ?_ h).1
  rintro ⟨o, t, hv, rfl⟩
  have hnone := (createSyntaxTree_none_iff_failed h).mpr ⟨t, hv⟩
  cases hnone

end HammerJS
