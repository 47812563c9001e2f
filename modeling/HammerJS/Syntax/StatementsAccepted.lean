import HammerJS.Runs.IfStatements
import HammerJS.Syntax.Arrives
import HammerJS.Syntax.StatementsParsed

/-!
# The productions accept statements

`parseStatement` and what it calls, over the phrases that it should accept, where the productions
for expressions do so of theirs.

* `accepts_semicolon` — a semicolon, or the lack of one.
* `Phrase.TakenBehindElse` — what the loop of `parseIfStatement` reads behind an `else`.
-/

namespace HammerJS

open Procs Machine Lexer Parse

variable [Platform]

/-! ## First tokens -/

namespace Phrase

/-- `parseStatement` reads the statement. -/
abbrev TakenAsStatement (p : Phrase .stmt) : Prop :=
  p.TakenBy (fun allowsIn _ => allowsIn = true) p.build (parser.Answers .statement)

section First

variable {a b : Stream}

/-- What an expression starts with. -/
theorem expression_start {e : Phrase .expr} {t : JSTokenType} (h : e.Spans a b)
    (ht : startsExpression t = false) : a.token.type ≠ t := by
  rintro rfl
  rw [h.head, e.head_starts] at ht
  cases ht

/-- No list of statements ends where a statement starts. -/
theorem statement_start {p : Phrase .stmt} (h : p.Spans a b) :
    endsStatements a.token.type = false := by
  cases p with
  | exprStmt e semi =>
      obtain ⟨m, he⟩ := h.sub_first (e := e) rfl
      have hstarts := e.head_starts
      rw [← he.head] at hstarts
      revert hstarts
      cases a.token.type <;> decide
  | labelled label body =>
      rw [h.first (x := .ident label) rfl]
      rfl
  | _ =>
      rw [h.first rfl]
      rfl

/-- Only an `if` starts with `if`. -/
theorem if_start {p : Phrase .stmt} (h : p.Spans a b) (ht : a.token.type = .if) :
    (∃ test yes, p = ifThen test yes) ∨ ∃ test yes no, p = ifElse test yes no := by
  cases p with
  | ifThen test yes => exact Or.inl ⟨test, yes, rfl⟩
  | ifElse test yes no => exact Or.inr ⟨test, yes, no, rfl⟩
  | exprStmt e semi =>
      obtain ⟨m, he⟩ := h.sub_first (e := e) rfl
      exact absurd ht (expression_start he rfl)
  | labelled label body =>
      rw [h.first (x := .ident label) rfl] at ht
      cases ht
  | _ =>
      rw [h.first rfl] at ht
      cases ht

end First

end Phrase

/-! ## Rules -/

section Rules

variable {β : Type} {s : ParserState} {a m n n₁ n₂ b : Stream} {Q : β → ParserState → Prop}

omit [Platform] in
theorem allowsOmission_iff (hs : s.stream = b) : s.allowsOmission = true ↔ b.AllowsOmission := by
  subst hs
  simp [ParserState.allowsOmission, Stream.AllowsOmission, ParserState.stream, or_assoc]

/-- A semicolon, or the end of a statement that has none. -/
theorem accepts_autoSemicolon {f : Bool → Parse β} {semi : Bool} (hs : s.stream = n)
    (hreads : Reads (semiLexemes semi) n b) (homits : b.Omits semi)
    (hf : ∀ s', Arrives s (semiLexemes semi) True b s' → Accepts (f true) s' Q) :
    Accepts (autoSemiColon >>= f) s Q := by
  cases semi with
  | true =>
      obtain ⟨m, hx, hm⟩ := hreads
      have hm : m = b := hm
      subst hm
      obtain ⟨s', hnext, h⟩ := arrives_next hs hx hx.2
      exact accepts_autoSemiColon (token_eq hs ▸ hx.1) hnext (hf s' h)
  | false =>
      have hnb : n = b := hreads
      subst hnb
      obtain ⟨hne, homission⟩ := homits rfl
      refine accepts_noSemiColon (token_eq hs ▸ hne) ?_
      rw [(allowsOmission_iff hs).mpr homission]
      exact hf s (.refl hs)

theorem accepts_semicolon {f : Unit → Parse β} {semi : Bool} (hs : s.stream = n)
    (hreads : Reads (semiLexemes semi) n b) (homits : b.Omits semi)
    (hf : ∀ s', Arrives s (semiLexemes semi) True b s' → Accepts (f ()) s' Q) :
    Accepts (autoSemiColon >>= fun c => failIfFalse c >>= f) s Q :=
  accepts_autoSemicolon hs hreads homits fun s' h => accepts_failIfFalse rfl (hf s' h)

/-- Something that belongs to the statement follows. -/
theorem accepts_bound {f : Bool → Parse β} (hs : s.stream = n) (ht : n.token.type ≠ .semicolon)
    (hbound : ¬ n.AllowsOmission) (hf : Accepts (f false) s Q) :
    Accepts (autoSemiColon >>= f) s Q := by
  refine accepts_noSemiColon (token_eq hs ▸ ht) ?_
  rw [Bool.eq_false_iff.mpr (mt (allowsOmission_iff hs).mp hbound)]
  exact hf

/-- An expression between parentheses. -/
theorem accepts_parenthesis {e : Phrase .expr} {f : Node → Parse β}
    (he : e.TakenAsExpression) (hs : s.stream = a) (herror : s.error = false)
    (hin : s.regs.allowsIn = true) (hlegal : e.Legal true)
    (hopen : (Lexeme.mark .openParen).Step a n₁) (hspans : e.Spans n₁ n₂)
    (hclose : n₂.token.type = .closeParen)
    (hf : ∀ s', Arrives s (.mark .openParen :: e.lexemes) e.Calm n₂ s' → Accepts (f e.build) s' Q) :
    Accepts (consumeOrFail .openParen >>= fun _ => parse .expression >>= fun r =>
      failIfNull r >>= f) s Q := by
  refine accepts_consumeMark hs hopen fun s₁ h₁ => accepts_orFail ?_
  have hin₁ := h₁.allowsIn.trans hin
  have hends : Ends 0 s₁.regs.allowsIn n₂.token.type := by
    rw [hclose]
    exact ends_other rfl
  refine (he hspans h₁.stream (h₁.error.trans herror) (hin₁ ▸ hlegal) hends).mono ?_
  rintro _ s₂ ⟨rfl, h₂⟩
  exact hf s₂ ((h₁.trans h₂).cast (by simp) (by simp))

/-- The same, with the parenthesis that closes it. -/
theorem accepts_parenthesized {e : Phrase .expr} {f : Node → Unit → Parse β}
    (he : e.TakenAsExpression) (hs : s.stream = a) (herror : s.error = false)
    (hin : s.regs.allowsIn = true) (hlegal : e.Legal true)
    (hopen : (Lexeme.mark .openParen).Step a n₁) (hspans : e.Spans n₁ n₂)
    (hclose : (Lexeme.mark .closeParen).Step n₂ m)
    (hf : ∀ s', Arrives s (.mark .openParen :: e.lexemes ++ [.mark .closeParen]) e.Calm m s' →
      Accepts (f e.build ()) s' Q) :
    Accepts (consumeOrFail .openParen >>= fun _ => parse .expression >>= fun r =>
      failIfNull r >>= fun e => consumeOrFail .closeParen >>= f e) s Q := by
  refine accepts_parenthesis he hs herror hin hlegal hopen hspans hclose.1 fun s₁ h₁ => ?_
  refine accepts_consumeMark h₁.stream hclose fun s₂ h₂ => hf s₂ ?_
  exact (h₁.trans h₂).cast (by simp) (by simp)

/-- A keyword that was tested for. -/
theorem accepts_keyword {t : JSTokenType} {f : Unit → Parse β} (hs : s.stream = a)
    (hx : (Lexeme.mark t).Step a m)
    (hf : ∀ s', Arrives s [.mark t] True m s' → Accepts (f ()) s' Q) :
    Accepts (assertToken t >>= fun _ => next >>= f) s Q :=
  accepts_assertToken (token_eq hs ▸ hx.1) (accepts_skip hs hx hf)

/-- A name. -/
theorem accepts_name {name : Identifier} {f : JSTokenData → Unit → Parse β} (hs : s.stream = a)
    (hx : (Lexeme.ident name).Step a m)
    (hf : ∀ data s', data.getIdent = name → Arrives s [.ident name] True m s' →
      Accepts (f data ()) s' Q) :
    Accepts (matchOrFail .ident >>= fun _ => tokenData >>= fun data => next >>= f data) s Q := by
  refine accepts_matchOrFail (token_eq hs ▸ hx.1) (accepts_tokenData ?_)
  refine accepts_read hs hx hx.2.2 fun s' h => hf _ s' ?_ h
  rw [token_eq hs, hx.2.1]

end Rules

/-! ## Lists of statements -/

section Lists

variable {s : ParserState} {a b : Stream}

/-- At a token that ends a list of statements `parseStatement` returns null without an error. -/
theorem statement_ends (hs : s.stream = a) (ht : endsStatements a.token.type = true) :
    parser.Returns .statement s none s := by
  refine Machine.returns_iff.mpr ((reaches_command (o := .token) rfl).mpr ?_)
  rw [token_eq hs]
  revert ht
  cases a.token.type <;> simp [endsStatements] <;> exact ⟨rfl, rfl⟩

namespace Phrase

variable {first : Phrase .stmt} {rest body : Phrase .stmts}

theorem takenAsStatements_none : noStmts.TakenAsStatements := by
  intro list a b s hspans hs _ _ _
  obtain ⟨hparts, hends⟩ := spans_iff.mp hspans
  have hab := spansParts_nil.mp hparts
  subst hab
  refine answers_production.mpr (accepts_parse (statement_ends hs hends) (accepts_pure ⟨?_, .refl hs⟩))
  rw [build, appendAll_nil]

theorem takenAsStatements_more (hfirst : first.TakenAsStatement) (hrest : rest.TakenAsStatements) :
    (moreStmts first rest).TakenAsStatements := by
  intro list a b s hspans hs herror hlegal hin
  obtain ⟨hparts, -⟩ := spans_iff.mp hspans
  obtain ⟨n, hspans₁, hspans₂⟩ := by simpa [parts] using hparts
  obtain ⟨node, s₁, hreturns, rfl, h₁⟩ := hfirst hspans₁ hs herror (hin ▸ hlegal.1) hin
  have hin₁ := h₁.allowsIn.trans hin
  refine answers_production.mpr (accepts_parse hreturns (accepts_last.mpr ?_))
  refine (hrest (Builder.appendStatement list first.build) hspans₂ h₁.stream
    (h₁.error.trans herror) (hin₁ ▸ hlegal.2) hin₁).mono ?_
  rintro _ s₂ ⟨rfl, h₂⟩
  exact ⟨appendAll_append list first.build rest.build, h₁.trans h₂⟩

/-- `parseSourceElements` reads the statements. -/
theorem TakenAsStatements.sourceElements (h : body.TakenAsStatements) :
    body.TakenBy (fun allowsIn _ => allowsIn = true)
      (Builder.createSourceElements.appendAll body.build) (parser.Answers .sourceElements) := by
  intro a b s hspans hs herror hlegal hin
  refine answers_production.mpr (accepts_orNull.mpr ?_)
  refine (h Builder.createSourceElements hspans hs herror hlegal hin).mono ?_
  rintro _ s' ⟨rfl, h'⟩
  refine accepts_hasError ?_
  rw [h'.error, herror]
  exact accepts_pure ⟨rfl, h'⟩

/-- A list of statements is empty exactly if its end stands where it should start. -/
theorem statements_start {t : JSTokenType} (h : body.Spans a b) (ht : b.token.type = t)
    (hends : endsStatements t = true) : a.token.type = t ↔ body = .noStmts := by
  obtain ⟨hparts, -⟩ := spans_iff.mp h
  cases body with
  | noStmts =>
      rw [spansParts_nil.mp hparts]
      exact iff_of_true ht rfl
  | moreStmts first rest =>
      obtain ⟨n, hfirst, -⟩ := spansParts_sub.mp hparts
      have hstart := statement_start hfirst
      refine iff_of_false (fun heq => ?_) (by simp)
      rw [heq, hends] at hstart
      cases hstart

/-- The list of statements between two braces, which is null when it is empty. -/
theorem accepts_braced {β : Type} {Q : β → ParserState → Prop} {x : Parse β} {f : Node → Parse β}
    (h : body.TakenAsStatements) (hspans : body.Spans a b) (hs : s.stream = a)
    (herror : s.error = false) (hin : s.regs.allowsIn = true) (hlegal : body.Legal true)
    (hclose : b.token.type = .closeBrace)
    (hnone : Node.ofListOrNull .sourceElements body.build = none →
      Arrives s body.lexemes body.Calm b s → Accepts x s Q)
    (hsome : ∀ node s', Node.ofListOrNull .sourceElements body.build = some node →
      Arrives s body.lexemes body.Calm b s' → Accepts (f node) s' Q) :
    Accepts (isToken .closeBrace >>= fun c => if c = true then x else
      parse .sourceElements >>= fun r => failIfNull r >>= f) s Q := by
  have hstart := statements_start hspans hclose rfl
  cases body with
  | noStmts =>
      have hab := spansParts_nil.mp (spans_iff.mp hspans).1
      subst hab
      exact accepts_match hs hclose (hnone rfl (.refl hs))
  | moreStmts first rest =>
      have hne := mt hstart.mp (by simp)
      refine accepts_noMatch hs hne (accepts_orFail ?_)
      refine (h.sourceElements hspans hs herror (hin ▸ hlegal) hin).mono ?_
      rintro _ s' ⟨rfl, h'⟩
      exact hsome _ s' rfl h'

/-- `parseBlockStatement` reads the block. -/
theorem block_answer {m₁ m₂ : Stream} (h : body.TakenAsStatements) (hs : s.stream = a)
    (herror : s.error = false) (hin : s.regs.allowsIn = true) (hlegal : body.Legal true)
    (hopen : (Lexeme.mark .openBrace).Step a m₁) (hspans : body.Spans m₁ m₂)
    (hclose : (Lexeme.mark .closeBrace).Step m₂ b) :
    parser.Answers .blockStatement s fun node s' => node = blockNode body.build ∧
      Arrives s (.mark .openBrace :: body.lexemes ++ [.mark .closeBrace]) body.Calm b s' := by
  refine answers_production.mpr (accepts_keyword hs hopen fun s₁ h₁ => ?_)
  have hin₁ := h₁.allowsIn.trans hin
  have hskip : ∀ {x : Parse Node} {s₂ : ParserState}, Arrives s₁ body.lexemes body.Calm m₂ s₂ →
      x = pure (blockNode body.build) → Accepts (next >>= fun _ => x) s₂ fun node s' =>
        node = blockNode body.build ∧
          Arrives s (.mark .openBrace :: body.lexemes ++ [.mark .closeBrace]) body.Calm b s' := by
    rintro x s₂ h₂ rfl
    refine accepts_skip h₂.stream hclose fun s₃ h₃ => accepts_pure ⟨rfl, ?_⟩
    exact ((h₁.trans h₂).trans h₃).cast (by simp) (by simp)
  refine accepts_braced h hspans h₁.stream (h₁.error.trans herror) hin₁ hlegal hclose.1 ?_ ?_
  · intro hnone h₂
    exact hskip h₂ (by rw [blockNode, hnone])
  · intro node s₂ hsome h₂
    refine accepts_matchOrFail (token_eq h₂.stream ▸ hclose.1) (hskip h₂ ?_)
    rw [blockNode, hsome]

end Phrase

end Lists

/-! ## Simple statements -/

namespace Phrase

section Simple

variable {e subject test : Phrase .expr} {body yes no : Phrase .stmt} {stmts : Phrase .stmts}
  {semi : Bool} {label : Option Identifier} {name : Identifier}

/-- What stands behind an expression that a semicolon, or the lack of one, ends. -/
theorem ends_semicolon {n b : Stream} (hreads : Reads (semiLexemes semi) n b)
    (h : semi = false → Ends 0 true b.token.type) : Ends 0 true n.token.type := by
  cases semi with
  | true =>
      obtain ⟨m, hx, -⟩ := hreads
      rw [hx.1]
      exact ends_other rfl
  | false =>
      have hnb : n = b := hreads
      exact hnb ▸ h rfl

theorem takenAsStatement_block (h : stmts.TakenAsStatements) : (block stmts).TakenAsStatement := by
  intro a b s hspans hs herror hlegal hin
  obtain ⟨hparts, -⟩ := spans_iff.mp hspans
  obtain ⟨n₁, hopen, n₂, hinner, hclose⟩ := by simpa [parts] using hparts
  refine answers_production.mpr (accepts_tokenType ?_)
  rw [token_eq hs, hopen.1]
  exact accepts_last.mpr (block_answer h hs herror hin hlegal hopen hinner hclose)

theorem takenAsStatement_empty : empty.TakenAsStatement := by
  intro a b s hspans hs _ _ _
  obtain ⟨hparts, -⟩ := spans_iff.mp hspans
  have hx : (Lexeme.mark .semicolon).Step a b := by simpa [parts] using hparts
  refine answers_production.mpr (accepts_tokenType ?_)
  rw [token_eq hs, hx.1]
  exact accepts_skip hs hx fun s₁ h₁ => accepts_pure ⟨rfl, h₁⟩

theorem takenAsStatement_while (htest : test.TakenAsExpression) (hbody : body.TakenAsStatement) :
    (Phrase.while test body).TakenAsStatement := by
  intro a b s hspans hs herror hlegal hin
  obtain ⟨hparts, -⟩ := spans_iff.mp hspans
  obtain ⟨n₁, hx, n₂, hopen, n₃, hspans₁, n₄, hclose, hspans₂⟩ := by simpa [parts] using hparts
  refine answers_production.mpr (accepts_tokenType ?_)
  rw [token_eq hs, hx.1]
  refine accepts_last.mpr (answers_production.mpr (accepts_keyword hs hx fun s₁ h₁ => ?_))
  refine accepts_parenthesized htest h₁.stream (h₁.error.trans herror) (h₁.allowsIn.trans hin)
    hlegal.1 hopen hspans₁ hclose fun s₂ h₂ => accepts_orFail ?_
  have h₁₂ := h₁.trans h₂
  have hin₂ := h₁₂.allowsIn.trans hin
  refine (hbody hspans₂ h₂.stream (h₁₂.error.trans herror) (hin₂ ▸ hlegal.2) hin₂).mono ?_
  rintro _ s₃ ⟨rfl, h₃⟩
  exact accepts_pure ⟨rfl, (h₁₂.trans h₃).cast (by simp [lexemes]) (by simp [Calm])⟩

theorem takenAsStatement_with (hsubject : subject.TakenAsExpression)
    (hbody : body.TakenAsStatement) : (Phrase.with subject body).TakenAsStatement := by
  intro a b s hspans hs herror hlegal hin
  obtain ⟨hparts, -⟩ := spans_iff.mp hspans
  obtain ⟨n₁, hx, n₂, hopen, n₃, hspans₁, n₄, hclose, hspans₂⟩ := by simpa [parts] using hparts
  refine answers_production.mpr (accepts_tokenType ?_)
  rw [token_eq hs, hx.1]
  refine accepts_last.mpr (answers_production.mpr (accepts_keyword hs hx fun s₁ h₁ => ?_))
  refine accepts_parenthesized hsubject h₁.stream (h₁.error.trans herror) (h₁.allowsIn.trans hin)
    hlegal.1 hopen hspans₁ hclose fun s₂ h₂ => accepts_orFail ?_
  have h₁₂ := h₁.trans h₂
  have hin₂ := h₁₂.allowsIn.trans hin
  refine (hbody hspans₂ h₂.stream (h₁₂.error.trans herror) (hin₂ ▸ hlegal.2) hin₂).mono ?_
  rintro _ s₃ ⟨rfl, h₃⟩
  exact accepts_pure ⟨rfl, (h₁₂.trans h₃).cast (by simp [lexemes]) (by simp [Calm])⟩

theorem takenAsStatement_doWhile (hbody : body.TakenAsStatement) (htest : test.TakenAsExpression) :
    (doWhile body test semi).TakenAsStatement := by
  intro a b s hspans hs herror hlegal hin
  obtain ⟨hparts, hfits⟩ := spans_iff.mp hspans
  obtain ⟨n₁, hx, n₂, hspans₁, n₃, hwhile, n₄, hopen, n₅, hspans₂, n₆, hclose, hsemi⟩ := by
    simpa [parts] using hparts
  refine answers_production.mpr (accepts_tokenType ?_)
  rw [token_eq hs, hx.1]
  refine accepts_last.mpr (answers_production.mpr (accepts_keyword hs hx fun s₁ h₁ => ?_))
  have hin₁ := h₁.allowsIn.trans hin
  refine accepts_orFail ((hbody hspans₁ h₁.stream (h₁.error.trans herror) (hin₁ ▸ hlegal.1)
    hin₁).mono ?_)
  rintro _ s₂ ⟨rfl, h₂⟩
  refine accepts_consumeMark h₂.stream hwhile fun s₃ h₃ => ?_
  have h₁₃ := (h₁.trans h₂).trans h₃
  refine accepts_parenthesized htest h₃.stream (h₁₃.error.trans herror) (h₁₃.allowsIn.trans hin)
    hlegal.2 hopen hspans₂ hclose fun s₄ h₄ => ?_
  have h₁₄ := h₁₃.trans h₄
  cases semi with
  | true =>
      obtain ⟨m, hy, hm⟩ := hsemi
      have hm : m = b := hm
      subst hm
      refine accepts_match h₄.stream hy.1 (accepts_skip h₄.stream hy fun s₅ h₅ => ?_)
      refine accepts_pure ⟨rfl, (h₁₄.trans h₅).cast ?_ (by simp [Calm])⟩
      simp [lexemes, semiLexemes]
  | false =>
      have hnb : n₆ = b := hsemi
      subst hnb
      refine accepts_noMatch h₄.stream (hfits rfl) (accepts_pure ⟨rfl, h₁₄.cast ?_ ?_⟩)
      · simp [lexemes, semiLexemes]
      · simp [Calm]

/-! ### Jumps -/

/-- The label of a jump, and the semicolon behind it. -/
theorem accepts_jumpLabel {β : Type} {f : Option Identifier → Parse β}
    {Q : β → ParserState → Prop} {s : ParserState} {a n m b : Stream} {t : JSTokenType}
    (hs : s.stream = n) (hx : (Lexeme.mark t).Step a n)
    (hreads : Reads (labelLexemes label) n m) (hsemi : Reads (semiLexemes semi) m b)
    (homits : b.Omits semi) (hbinds : label.isSome → a.Binds)
    (hf : ∀ s', Arrives s (labelLexemes label ++ semiLexemes semi) True b s' →
      Accepts (f label) s' Q) : Accepts (parseJumpLabel >>= f) s Q := by
  refine accepts_bind.mpr ?_
  cases label with
  | none =>
      have hnm : n = m := hreads
      subst hnm
      exact accepts_autoSemicolon hs hsemi homits fun s' h => accepts_pure (hf s' h)
  | some name =>
      obtain ⟨k, hname, hk⟩ := hreads
      have hk : k = m := hk
      subst hk
      refine accepts_bound hs (by rw [hname.1]; decide) (hbinds rfl n hx.2) ?_
      rw [if_neg (by decide)]
      refine accepts_name hs hname fun data s₁ hdata h₁ => ?_
      refine accepts_semicolon h₁.stream hsemi homits fun s₂ h₂ => accepts_pure ?_
      rw [hdata]
      exact hf s₂ ((h₁.trans h₂).cast rfl (by simp))

theorem takenAsStatement_continue : (Phrase.continue label semi).TakenAsStatement := by
  intro a b s hspans hs herror hlegal hin
  obtain ⟨hparts, homits, hbinds⟩ := spans_iff.mp hspans
  obtain ⟨n₁, hx, n₂, hlabel, hsemi⟩ := by simpa [parts] using hparts
  refine answers_production.mpr (accepts_tokenType ?_)
  rw [token_eq hs, hx.1]
  refine accepts_last.mpr (answers_production.mpr (accepts_keyword hs hx fun s₁ h₁ => ?_))
  refine accepts_jumpLabel h₁.stream hx hlabel hsemi homits hbinds fun s₂ h₂ => ?_
  exact accepts_pure ⟨rfl, (h₁.trans h₂).cast (by simp [lexemes]) (by simp [Calm])⟩

theorem takenAsStatement_break : (Phrase.break label semi).TakenAsStatement := by
  intro a b s hspans hs herror hlegal hin
  obtain ⟨hparts, homits, hbinds⟩ := spans_iff.mp hspans
  obtain ⟨n₁, hx, n₂, hlabel, hsemi⟩ := by simpa [parts] using hparts
  refine answers_production.mpr (accepts_tokenType ?_)
  rw [token_eq hs, hx.1]
  refine accepts_last.mpr (answers_production.mpr (accepts_keyword hs hx fun s₁ h₁ => ?_))
  refine accepts_jumpLabel h₁.stream hx hlabel hsemi homits hbinds fun s₂ h₂ => ?_
  exact accepts_pure ⟨rfl, (h₁.trans h₂).cast (by simp [lexemes]) (by simp [Calm])⟩

theorem takenAsStatement_returnNothing : (Phrase.return .absent semi).TakenAsStatement := by
  intro a b s hspans hs herror hlegal hin
  obtain ⟨hparts, homits, -⟩ := spans_iff.mp hspans
  obtain ⟨n₁, hx, n₂, habsent, hsemi⟩ := by simpa [parts] using hparts
  have hn : n₁ = n₂ := spansParts_nil.mp (spans_iff.mp habsent).1
  subst hn
  refine answers_production.mpr (accepts_tokenType ?_)
  rw [token_eq hs, hx.1]
  refine accepts_last.mpr (answers_production.mpr (accepts_keyword hs hx fun s₁ h₁ => ?_))
  refine accepts_autoSemicolon h₁.stream hsemi homits fun s₂ h₂ => ?_
  exact accepts_pure ⟨rfl, (h₁.trans h₂).cast (by simp [lexemes]) (by simp [Calm])⟩

theorem takenAsStatement_return (he : e.TakenAsExpression) :
    (Phrase.return (.present e) semi).TakenAsStatement := by
  intro a b s hspans hs herror hlegal hin
  obtain ⟨hparts, homits, hbehind⟩ := spans_iff.mp hspans
  obtain ⟨n₁, hx, n₂, hpresent, hsemi⟩ := by simpa [parts] using hparts
  have hspans₁ : e.Spans n₁ n₂ := by simpa [parts] using (spans_iff.mp hpresent).1
  obtain ⟨hbinds, hends⟩ := hbehind (by simp)
  refine answers_production.mpr (accepts_tokenType ?_)
  rw [token_eq hs, hx.1]
  refine accepts_last.mpr (answers_production.mpr (accepts_keyword hs hx fun s₁ h₁ => ?_))
  -- the expression starts on the line of `return`
  refine accepts_bound h₁.stream (expression_start hspans₁ rfl) (hbinds n₁ hx.2) (accepts_orFail ?_)
  have hin₁ := h₁.allowsIn.trans hin
  refine (he hspans₁ h₁.stream (h₁.error.trans herror) (hin₁ ▸ hlegal)
    (hin₁ ▸ ends_semicolon hsemi hends)).mono ?_
  rintro _ s₂ ⟨rfl, h₂⟩
  refine accepts_semicolon h₂.stream hsemi homits fun s₃ h₃ => accepts_pure ⟨rfl, ?_⟩
  exact ((h₁.trans h₂).trans h₃).cast (by simp [lexemes]) (by simp [Calm])

theorem takenAsStatement_throw (he : e.TakenAsExpression) :
    (throw e semi).TakenAsStatement := by
  intro a b s hspans hs herror hlegal hin
  obtain ⟨hparts, homits, hends⟩ := spans_iff.mp hspans
  obtain ⟨n₁, hx, n₂, hspans₁, hsemi⟩ := by simpa [parts] using hparts
  refine answers_production.mpr (accepts_tokenType ?_)
  rw [token_eq hs, hx.1]
  refine accepts_last.mpr (answers_production.mpr (accepts_keyword hs hx fun s₁ h₁ => ?_))
  have hin₁ := h₁.allowsIn.trans hin
  refine accepts_orFail ((he hspans₁ h₁.stream (h₁.error.trans herror) (hin₁ ▸ hlegal)
    (hin₁ ▸ ends_semicolon hsemi hends)).mono ?_)
  rintro _ s₂ ⟨rfl, h₂⟩
  refine accepts_semicolon h₂.stream hsemi homits fun s₃ h₃ => accepts_pure ⟨rfl, ?_⟩
  exact ((h₁.trans h₂).trans h₃).cast (by simp [lexemes]) (by simp [Calm])

theorem takenAsStatement_debugger : (debugger semi).TakenAsStatement := by
  intro a b s hspans hs herror hlegal hin
  obtain ⟨hparts, homits⟩ := spans_iff.mp hspans
  obtain ⟨n₁, hx, hsemi⟩ := by simpa [parts] using hparts
  refine answers_production.mpr (accepts_tokenType ?_)
  rw [token_eq hs, hx.1]
  refine accepts_last.mpr (answers_production.mpr (accepts_keyword hs hx fun s₁ h₁ => ?_))
  refine accepts_semicolon h₁.stream hsemi homits fun s₂ h₂ => accepts_pure ⟨rfl, ?_⟩
  exact (h₁.trans h₂).cast (by simp [lexemes]) (by simp [Calm])

/-! ### Expressions and labels -/

/-- An expression that does not start with a name, `{` or `function`. -/
theorem accepts_expressionStatement {s : ParserState} {a : Stream} {Q : Node → ParserState → Prop}
    (hs : s.stream = a) (ht : startsExpression a.token.type = true) (hident : a.token.type ≠ .ident)
    (hbrace : a.token.type ≠ .openBrace) (hfunction : a.token.type ≠ .function)
    (hf : parser.Answers .expressionStatement s Q) : Accepts parseStatement s Q := by
  refine accepts_tokenType ?_
  rw [token_eq hs]
  split
  case h_1 h => exact absurd h hbrace
  case h_4 h => exact absurd h hfunction
  case h_22 h => exact absurd h hident
  case h_23 => exact accepts_last.mpr hf
  all_goals
    rename_i h
    rw [h] at ht
    cases ht

theorem takenAsStatement_exprStmt (he : e.TakenAsExpression) :
    (exprStmt e semi).TakenAsStatement := by
  intro a b s hspans hs herror hlegal hin
  obtain ⟨hparts, ⟨hbrace, hfunction⟩, homits, hends⟩ := spans_iff.mp hspans
  obtain ⟨n, hspans₁, hsemi⟩ := by simpa [parts] using hparts
  have hexpression := he hspans₁ hs herror (hin ▸ hlegal) (hin ▸ ends_semicolon hsemi hends)
  have hstarts := e.head_starts
  rw [← hspans₁.head] at hstarts
  by_cases hident : a.token.type = .ident
  · refine answers_production.mpr (accepts_tokenType ?_)
    rw [token_eq hs, hident]
    refine accepts_last.mpr (answers_production.mpr (accepts_tokenData (accepts_tokenCount ?_)))
    refine accepts_orFail (hexpression.mono ?_)
    rintro _ s₁ ⟨rfl, h₁⟩
    refine accepts_autoSemicolon h₁.stream hsemi homits fun s₂ h₂ => accepts_pure ⟨rfl, ?_⟩
    exact (h₁.trans h₂).cast rfl (by simp [Calm])
  · refine answers_production.mpr (accepts_expressionStatement hs hstarts hident hbrace hfunction ?_)
    refine answers_production.mpr (accepts_orFail (hexpression.mono ?_))
    rintro _ s₁ ⟨rfl, h₁⟩
    refine accepts_semicolon h₁.stream hsemi homits fun s₂ h₂ => accepts_pure ⟨rfl, ?_⟩
    exact (h₁.trans h₂).cast rfl (by simp [Calm])

theorem takenAsStatement_labelled (hname : (resolve name).TakenAsExpression)
    (hbody : body.TakenAsStatement) : (labelled name body).TakenAsStatement := by
  intro a b s hspans hs herror hlegal hin
  obtain ⟨hparts, hbinds⟩ := spans_iff.mp hspans
  obtain ⟨n, hx, m, hcolon, hspans₁⟩ := by simpa [parts] using hparts
  have hspans₀ : (resolve name).Spans a n := spans_iff.mpr ⟨by simpa [parts] using hx, trivial⟩
  have hends : Ends 0 s.regs.allowsIn n.token.type := by
    rw [hcolon.1]
    exact ends_other rfl
  refine answers_production.mpr (accepts_tokenType ?_)
  rw [token_eq hs, hx.1]
  refine accepts_last.mpr (answers_production.mpr (accepts_tokenData (accepts_tokenCount ?_)))
  refine accepts_orFail ((hname hspans₀ hs herror trivial hends).mono ?_)
  rintro _ s₁ ⟨rfl, h₁⟩
  refine accepts_bound h₁.stream (by rw [hcolon.1]; decide) (hbinds n hx.2.2) ?_
  -- the expression was a single token
  refine accepts_tokenCount (accepts_failIfFalse (decide_eq_true h₁.tokenCount.symm) ?_)
  refine accepts_consumeMark h₁.stream hcolon fun s₂ h₂ => accepts_orFail ?_
  have h₁₂ := h₁.trans h₂
  have hin₂ := h₁₂.allowsIn.trans hin
  refine (hbody hspans₁ h₂.stream (h₁₂.error.trans herror) (hin₂ ▸ hlegal) hin₂).mono ?_
  rintro _ s₃ ⟨rfl, h₃⟩
  refine accepts_pure ⟨?_, (h₁₂.trans h₃).cast (by simp [lexemes]) (by simp [Calm])⟩
  rw [token_eq hs, hx.2.1]
  rfl

end Simple

/-! ### Conditional statements -/

section Conditional

variable {e test : Phrase .expr} {yes no : Phrase .stmt}

/-- The condition and the first branch. -/
theorem accepts_ifPart {β : Type} {f : Node × (Nat × Nat) × Node → Parse β}
    {Q : β → ParserState → Prop}
    {s : ParserState} {a n₁ n₂ n₃ n₄ m : Stream} (htest : test.TakenAsExpression)
    (hyes : yes.TakenAsStatement) (hs : s.stream = a) (herror : s.error = false)
    (hin : s.regs.allowsIn = true) (hlegal₁ : test.Legal true) (hlegal₂ : yes.Legal true)
    (hx : (Lexeme.mark .if).Step a n₁) (hopen : (Lexeme.mark .openParen).Step n₁ n₂)
    (hspans₁ : test.Spans n₂ n₃) (hclose : (Lexeme.mark .closeParen).Step n₃ n₄)
    (hspans₂ : yes.Spans n₄ m)
    (hf : ∀ lines s', Arrives s (ifThen test yes).lexemes (ifThen test yes).Calm m s' →
      Accepts (f (test.build, lines, yes.build)) s' Q) : Accepts (parseIfPart >>= f) s Q := by
  refine accepts_bind.mpr (accepts_tokenLine (accepts_skip hs hx fun s₁ h₁ => ?_))
  refine accepts_parenthesis htest h₁.stream (h₁.error.trans herror) (h₁.allowsIn.trans hin)
    hlegal₁ hopen hspans₁ hclose.1 fun t ht => accepts_tokenLine ?_
  refine accepts_consumeMark ht.stream hclose fun s₂ hs₂ => accepts_orFail ?_
  have h₂ := ht.trans hs₂
  have h₁₂ := h₁.trans h₂
  have hin₂ := h₁₂.allowsIn.trans hin
  refine (hyes hspans₂ h₂.stream (h₁₂.error.trans herror) (hin₂ ▸ hlegal₂) hin₂).mono ?_
  rintro _ s₃ ⟨rfl, h₃⟩
  exact accepts_pure (hf _ s₃ ((h₁₂.trans h₃).cast (by simp [lexemes]) (by simp [Calm])))

theorem takenAsStatement_ifThen (htest : test.TakenAsExpression) (hyes : yes.TakenAsStatement) :
    (ifThen test yes).TakenAsStatement := by
  intro a b s hspans hs herror hlegal hin
  obtain ⟨hparts, hend⟩ := spans_iff.mp hspans
  obtain ⟨n₁, hx, n₂, hopen, n₃, hspans₁, n₄, hclose, hspans₂⟩ := by simpa [parts] using hparts
  refine answers_production.mpr (accepts_tokenType ?_)
  rw [token_eq hs, hx.1]
  refine accepts_last.mpr (answers_production.mpr (accepts_assertToken (token_eq hs ▸ hx.1) ?_))
  refine accepts_ifPart htest hyes hs herror hin hlegal.1 hlegal.2 hx hopen hspans₁ hclose hspans₂
    fun _ s₁ h₁ => ?_
  exact accepts_noMatch h₁.stream hend (accepts_pure ⟨rfl, h₁⟩)

/-- The loop of `parseIfStatement` reads what stands behind an `else`, and puts on its stacks what
is folded to the branch. -/
def TakenBehindElse (no : Phrase .stmt) : Prop :=
  ∀ {a n b : Stream} {s : ParserState} (exprStack : List Node) (posStack : List (Nat × Nat))
    (statementStack : List Node),
    (Lexeme.mark .else).Step a n → no.Spans n b → s.stream = a → s.error = false →
      s.regs.allowsIn = true → no.Legal true →
        parser.Answers (.ifLoop exprStack posStack statementStack) s fun r s' =>
          ∃ entries : IfStacks, r = entries.onto exprStack posStack statementStack ∧
            entries.2.1.length = entries.1.length ∧ entries.Closes no.build ∧
              Arrives s (.mark .else :: no.lexemes) no.Calm b s'

theorem takenBehindElse_other (hno : no.TakenAsStatement) (hthen : ∀ test yes, no ≠ ifThen test yes)
    (helse : ∀ test yes no', no ≠ ifElse test yes no') : no.TakenBehindElse := by
  intro a n b s exprStack posStack statementStack hx hspans hs herror hin hlegal
  have hif : n.token.type ≠ .if := by
    intro ht
    rcases if_start hspans ht with ⟨test, yes, h⟩ | ⟨test, yes, no', h⟩
    · exact hthen test yes h
    · exact helse test yes no' h
  refine answers_production.mpr (accepts_skip hs hx fun s₁ h₁ => ?_)
  refine accepts_noMatch h₁.stream hif (accepts_orFail ?_)
  have hin₁ := h₁.allowsIn.trans hin
  refine (hno hspans h₁.stream (h₁.error.trans herror) (hin₁ ▸ hlegal) hin₁).mono ?_
  rintro _ s₂ ⟨rfl, h₂⟩
  refine accepts_pure ⟨([], [], [no.build], true), rfl, rfl, rfl, ?_⟩
  exact (h₁.trans h₂).cast rfl (by simp)

theorem takenBehindElse_ifThen (htest : test.TakenAsExpression) (hyes : yes.TakenAsStatement) :
    (ifThen test yes).TakenBehindElse := by
  intro a n b s exprStack posStack statementStack hx hspans hs herror hin hlegal
  obtain ⟨hparts, hend⟩ := spans_iff.mp hspans
  obtain ⟨n₁, hif, n₂, hopen, n₃, hspans₁, n₄, hclose, hspans₂⟩ := by simpa [parts] using hparts
  refine answers_production.mpr (accepts_skip hs hx fun s₁ h₁ => ?_)
  refine accepts_match h₁.stream hif.1 ?_
  refine accepts_ifPart htest hyes h₁.stream (h₁.error.trans herror) (h₁.allowsIn.trans hin)
    hlegal.1 hlegal.2 hif hopen hspans₁ hclose hspans₂ fun lines s₂ h₂ => ?_
  refine accepts_noMatch h₂.stream hend (accepts_pure ?_)
  refine ⟨([test.build], [lines], [yes.build], false), rfl, rfl, rfl, ?_⟩
  exact (h₁.trans h₂).cast rfl (by simp)

theorem takenBehindElse_ifElse (htest : test.TakenAsExpression) (hyes : yes.TakenAsStatement)
    (hno : no.TakenBehindElse) : (ifElse test yes no).TakenBehindElse := by
  intro a n b s exprStack posStack statementStack hx hspans hs herror hin hlegal
  obtain ⟨hparts, -⟩ := spans_iff.mp hspans
  obtain ⟨n₁, hif, n₂, hopen, n₃, hspans₁, n₄, hclose, n₅, hspans₂, n₆, helse, hspans₃⟩ := by
    simpa [parts] using hparts
  refine answers_production.mpr (accepts_skip hs hx fun s₁ h₁ => ?_)
  refine accepts_match h₁.stream hif.1 ?_
  refine accepts_ifPart htest hyes h₁.stream (h₁.error.trans herror) (h₁.allowsIn.trans hin)
    hlegal.1 hlegal.2.1 hif hopen hspans₁ hclose hspans₂ fun lines s₂ h₂ => ?_
  refine accepts_match h₂.stream helse.1 (accepts_last.mpr ?_)
  have h₁₂ := h₁.trans h₂
  refine (hno (test.build :: exprStack) (lines :: posStack) (yes.build :: statementStack) helse
    hspans₃ h₂.stream (h₁₂.error.trans herror) (h₁₂.allowsIn.trans hin) hlegal.2.2).mono ?_
  rintro _ s₃ ⟨entries, rfl, hlen, hcloses, h₃⟩
  refine ⟨entries.onto [test.build] [lines] [yes.build], (entries.onto_onto _ _ _).symm,
    by simp [IfStacks.onto, hlen], hcloses.onto hlen, ?_⟩
  refine (h₁₂.trans h₃).cast (by simp [lexemes]) ?_
  simp only [Calm, true_and]
  exact and_assoc

theorem takenAsStatement_ifElse (htest : test.TakenAsExpression) (hyes : yes.TakenAsStatement)
    (hno : no.TakenBehindElse) : (ifElse test yes no).TakenAsStatement := by
  intro a b s hspans hs herror hlegal hin
  obtain ⟨hparts, -⟩ := spans_iff.mp hspans
  obtain ⟨n₁, hx, n₂, hopen, n₃, hspans₁, n₄, hclose, n₅, hspans₂, n₆, helse, hspans₃⟩ := by
    simpa [parts] using hparts
  refine answers_production.mpr (accepts_tokenType ?_)
  rw [token_eq hs, hx.1]
  refine accepts_last.mpr (answers_production.mpr (accepts_assertToken (token_eq hs ▸ hx.1) ?_))
  refine accepts_ifPart htest hyes hs herror hin hlegal.1 hlegal.2.1 hx hopen hspans₁ hclose
    hspans₂ fun _ s₁ h₁ => ?_
  refine accepts_match h₁.stream helse.1 (accepts_orNull.mpr ?_)
  refine (hno [] [] [] helse hspans₃ h₁.stream (h₁.error.trans herror) (h₁.allowsIn.trans hin)
    hlegal.2.2).mono ?_
  rintro _ s₂ ⟨entries, rfl, -, hcloses, h₂⟩
  have hbuilt : Accepts (pure (ifElse test yes no).build) s₂ fun r s' =>
      r = (ifElse test yes no).build ∧
        Arrives s (ifElse test yes no).lexemes (ifElse test yes no).Calm b s' := by
    refine accepts_pure ⟨rfl, (h₁.trans h₂).cast (by simp [lexemes]) ?_⟩
    simp only [Calm]
    exact and_assoc
  obtain ⟨exprStack, posStack, statementStack, trailingElse⟩ := entries
  rw [show IfStacks.onto [] [] [] (exprStack, posStack, statementStack, trailingElse) =
    (exprStack, posStack, statementStack, trailingElse) by simp [IfStacks.onto]]
  refine (congrArg (Accepts · s₂ _) (hcloses.bind _)).mpr ?_
  exact hbuilt

end Conditional

/-! ### `switch` statements -/

section Switch

variable {discriminant test : Phrase .expr} {body : Phrase .stmts}
  {first second rest : Phrase .clauses} {default : Phrase .default}

/-- The loop of `parseSwitchClauses` reads the clauses. -/
abbrev TakenAsClauses (rest : Phrase .clauses) : Prop :=
  ∀ list : Node, rest.TakenBy (fun allowsIn _ => allowsIn = true) (list.appendAll rest.build)
    (parser.Answers (.switchClausesLoop list))

/-- A clause. -/
theorem accepts_clause {β : Type} {f : Node → Parse β} {Q : β → ParserState → Prop}
    {s : ParserState} {a n₁ n₂ n₃ m : Stream} (htest : test.TakenAsExpression)
    (hbody : body.TakenAsStatements) (hs : s.stream = a) (herror : s.error = false)
    (hin : s.regs.allowsIn = true) (hlegal₁ : test.Legal true) (hlegal₂ : body.Legal true)
    (hx : (Lexeme.mark .case).Step a n₁) (hspans₁ : test.Spans n₁ n₂)
    (hcolon : (Lexeme.mark .colon).Step n₂ n₃) (hspans₂ : body.Spans n₃ m)
    (hf : ∀ s', Arrives s (.mark .case :: test.lexemes ++ .mark .colon :: body.lexemes)
        (test.Calm ∧ body.Calm) m s' →
      Accepts (f (Builder.createClause (some test.build) (.ofList .sourceElements body.build)))
        s' Q) : Accepts (parseClause >>= f) s Q := by
  refine accepts_bind.mpr (accepts_skip hs hx fun s₁ h₁ => accepts_orFail ?_)
  have hin₁ := h₁.allowsIn.trans hin
  have hends : Ends 0 s₁.regs.allowsIn n₂.token.type := by
    rw [hcolon.1]
    exact ends_other rfl
  refine (htest hspans₁ h₁.stream (h₁.error.trans herror) (hin₁ ▸ hlegal₁) hends).mono ?_
  rintro _ s₂ ⟨rfl, h₂⟩
  refine accepts_consumeMark h₂.stream hcolon fun s₃ h₃ => accepts_orFail ?_
  have h₁₃ := (h₁.trans h₂).trans h₃
  have hin₃ := h₁₃.allowsIn.trans hin
  refine (hbody.sourceElements hspans₂ h₃.stream (h₁₃.error.trans herror) (hin₃ ▸ hlegal₂)
    hin₃).mono ?_
  rintro _ s₄ ⟨rfl, h₄⟩
  exact accepts_pure (hf s₄ ((h₁₃.trans h₄).cast (by simp) (by simp)))

theorem takenAsClauses_none : noClauses.TakenAsClauses := by
  intro list a b s hspans hs _ _ _
  obtain ⟨hparts, hend⟩ := spans_iff.mp hspans
  have hab := spansParts_nil.mp hparts
  subst hab
  refine answers_production.mpr (accepts_noMatch hs hend (accepts_pure ⟨?_, .refl hs⟩))
  rw [build, appendAll_nil]

theorem takenAsClauses_more (htest : test.TakenAsExpression) (hbody : body.TakenAsStatements)
    (hrest : rest.TakenAsClauses) : (moreClauses test body rest).TakenAsClauses := by
  intro list a b s hspans hs herror hlegal hin
  obtain ⟨hparts, -⟩ := spans_iff.mp hspans
  obtain ⟨n₁, hx, n₂, hspans₁, n₃, hcolon, n₄, hspans₂, hspans₃⟩ := by simpa [parts] using hparts
  obtain ⟨hlegal₁, hlegal₂, hlegal₃⟩ := hlegal
  refine answers_production.mpr (accepts_match hs hx.1 ?_)
  refine accepts_clause htest hbody hs herror hin hlegal₁ hlegal₂ hx hspans₁ hcolon hspans₂
    fun s₁ h₁ => accepts_last.mpr ?_
  have hin₁ := h₁.allowsIn.trans hin
  refine (hrest (Builder.appendClause list _) hspans₃ h₁.stream (h₁.error.trans herror)
    (hin₁ ▸ hlegal₃) hin₁).mono ?_
  rintro _ s₂ ⟨rfl, h₂⟩
  refine ⟨appendAll_append list _ _, (h₁.trans h₂).cast (by simp [lexemes]) ?_⟩
  simp only [Calm]
  exact and_assoc

/-- A production that returns null unless its token stands there. -/
theorem returns_nullUnless {q : Production} {t : JSTokenType} {x : Parse q.Ret} {s : ParserState}
    {a : Stream} (hs : s.stream = a) (ht : a.token.type ≠ t)
    (hq : productionBody q = (isToken t >>= fun c => if c = true then x else returnNull)) :
    parser.Returns q s none s := by
  refine Machine.returns_iff.mpr ?_
  show Reaches parserStep parser.Returns (productionBody q) s none s
  rw [hq]
  refine reaches_ifToken.mpr ?_
  rw [token_eq hs, if_neg ht]
  exact ⟨rfl, rfl⟩

/-- `parseSwitchClauses` reads the clauses, and returns null if there are none. -/
theorem TakenAsClauses.clauses {c : Phrase .clauses} (h : c.TakenAsClauses) {a b : Stream}
    {s : ParserState} (hspans : c.Spans a b) (hs : s.stream = a) (herror : s.error = false)
    (hin : s.regs.allowsIn = true) (hlegal : c.Legal true) :
    ∃ s', parser.Returns .switchClauses s (Node.ofListOrNull .clauseList c.build) s' ∧
      Arrives s c.lexemes c.Calm b s' := by
  obtain ⟨hparts, hend⟩ := spans_iff.mp hspans
  cases c with
  | noClauses =>
      have hab := spansParts_nil.mp hparts
      subst hab
      exact ⟨s, returns_nullUnless hs hend rfl, .refl hs⟩
  | moreClauses test body rest =>
      have hx : a.token.type = .case := hspans.first rfl
      -- the loop does the same, from an empty list
      have hloop := h (.ofList .clauseList []) hspans hs herror (hin ▸ hlegal) hin
      replace hloop := (accepts_then_iff (token_eq hs ▸ hx)).mp (answers_production.mp hloop)
      obtain ⟨_, s', hreturns, rfl, h'⟩ := (answers_production (q := .switchClauses)).mpr
        (accepts_match hs hx hloop)
      exact ⟨s', hreturns, h'⟩

/-- `parseSwitchDefaultClause` reads the clause, and returns null if there is none. -/
def TakenAsDefault (d : Phrase .default) : Prop :=
  ∀ {a b : Stream} {s : ParserState}, d.Spans a b → s.stream = a → s.error = false →
    s.regs.allowsIn = true → d.Legal true →
      ∃ s', parser.Returns .switchDefaultClause s d.build s' ∧ Arrives s d.lexemes d.Calm b s'

theorem takenAsDefault_none : noDefault.TakenAsDefault := by
  intro a b s hspans hs _ _ _
  obtain ⟨hparts, hend⟩ := spans_iff.mp hspans
  have hab := spansParts_nil.mp hparts
  subst hab
  exact ⟨s, returns_nullUnless hs hend rfl, .refl hs⟩

theorem takenAsDefault_some (hbody : body.TakenAsStatements) :
    (defaultClause body).TakenAsDefault := by
  intro a b s hspans hs herror hin hlegal
  obtain ⟨hparts, -⟩ := spans_iff.mp hspans
  obtain ⟨n₁, hx, n₂, hcolon, hspans₁⟩ := by simpa [parts] using hparts
  have hanswers : parser.Answers .switchDefaultClause s fun node s' =>
      (defaultClause body).build = some node ∧
        Arrives s (defaultClause body).lexemes (defaultClause body).Calm b s' := by
    refine answers_production.mpr (accepts_match hs hx.1 (accepts_skip hs hx fun s₁ h₁ => ?_))
    refine accepts_consumeMark h₁.stream hcolon fun s₂ h₂ => accepts_orFail ?_
    have h₁₂ := h₁.trans h₂
    have hin₂ := h₁₂.allowsIn.trans hin
    refine (hbody.sourceElements hspans₁ h₂.stream (h₁₂.error.trans herror) (hin₂ ▸ hlegal)
      hin₂).mono ?_
    rintro _ s₃ ⟨rfl, h₃⟩
    exact accepts_pure ⟨rfl, (h₁₂.trans h₃).cast rfl (by simp [Calm])⟩
  obtain ⟨node, s', hreturns, hnode, h'⟩ := hanswers
  exact ⟨s', hnode ▸ hreturns, h'⟩

theorem takenAsStatement_switch (hdiscriminant : discriminant.TakenAsExpression)
    (hfirst : first.TakenAsClauses) (hdefault : default.TakenAsDefault)
    (hsecond : second.TakenAsClauses) :
    (switch discriminant first default second).TakenAsStatement := by
  intro a b s hspans hs herror hlegal hin
  obtain ⟨hparts, -⟩ := spans_iff.mp hspans
  obtain ⟨n₁, hx, n₂, hopen, n₃, hspans₁, n₄, hclose, n₅, hbrace, n₆, hspans₂, n₇, hspans₃, n₈,
    hspans₄, hend⟩ := by simpa [parts] using hparts
  obtain ⟨hlegal₁, hlegal₂, hlegal₃, hlegal₄⟩ := hlegal
  refine answers_production.mpr (accepts_tokenType ?_)
  rw [token_eq hs, hx.1]
  refine accepts_last.mpr (answers_production.mpr (accepts_keyword hs hx fun s₁ h₁ => ?_))
  refine accepts_parenthesized hdiscriminant h₁.stream (h₁.error.trans herror)
    (h₁.allowsIn.trans hin) hlegal₁ hopen hspans₁ hclose fun s₂ h₂ => ?_
  refine accepts_consumeMark h₂.stream hbrace fun s₃ h₃ => ?_
  have h₁₃ := (h₁.trans h₂).trans h₃
  obtain ⟨s₄, hreturns₄, h₄⟩ := hfirst.clauses hspans₂ h₃.stream (h₁₃.error.trans herror)
    (h₁₃.allowsIn.trans hin) hlegal₂
  have h₁₄ := h₁₃.trans h₄
  refine accepts_parse hreturns₄ (accepts_failIfError (h₁₄.error.trans herror) ?_)
  obtain ⟨s₅, hreturns₅, h₅⟩ := hdefault hspans₃ h₄.stream (h₁₄.error.trans herror)
    (h₁₄.allowsIn.trans hin) hlegal₃
  have h₁₅ := h₁₄.trans h₅
  refine accepts_parse hreturns₅ (accepts_failIfError (h₁₅.error.trans herror) ?_)
  obtain ⟨s₆, hreturns₆, h₆⟩ := hsecond.clauses hspans₄ h₅.stream (h₁₅.error.trans herror)
    (h₁₅.allowsIn.trans hin) hlegal₄
  have h₁₆ := h₁₅.trans h₆
  refine accepts_parse hreturns₆ (accepts_failIfError (h₁₆.error.trans herror) ?_)
  refine accepts_consumeMark h₆.stream hend fun s₇ h₇ => accepts_pure ⟨rfl, ?_⟩
  refine (h₁₆.trans h₇).cast (by simp [lexemes]) ?_
  simp [Calm, and_assoc]

end Switch

/-! ### `try` statements -/

section Try

variable {body : Phrase .stmts} {name : Identifier} {handler : Phrase .handler}
  {finalizer : Phrase .finalizer}

/-- The part for `catch` is read. -/
abbrev TakenAsHandler (h : Phrase .handler) : Prop :=
  h.TakenBy (fun allowsIn _ => allowsIn = true) h.build (Accepts parseCatch)

/-- The part for `finally` is read. -/
abbrev TakenAsFinalizer (f : Phrase .finalizer) : Prop :=
  f.TakenBy (fun allowsIn _ => allowsIn = true) f.build (Accepts parseFinally)

theorem takenAsHandler_none : noHandler.TakenAsHandler := by
  intro a b s hspans hs _ _ _
  obtain ⟨hparts, hend⟩ := spans_iff.mp hspans
  have hab := spansParts_nil.mp hparts
  subst hab
  exact accepts_noMatch hs hend (accepts_pure ⟨rfl, .refl hs⟩)

theorem takenAsHandler_catch (hbody : body.TakenAsStatements) :
    (Phrase.catch name body).TakenAsHandler := by
  intro a b s hspans hs herror hlegal hin
  obtain ⟨hparts, -⟩ := spans_iff.mp hspans
  obtain ⟨n₁, hx, n₂, hopen, n₃, hname, n₄, hclose, n₅, hbrace, n₆, hspans₁, hend⟩ := by
    simpa [parts] using hparts
  refine accepts_match hs hx.1 (accepts_skip hs hx fun s₁ h₁ => ?_)
  refine accepts_consumeMark h₁.stream hopen fun s₂ h₂ => ?_
  refine accepts_name h₂.stream hname fun data s₃ hdata h₃ => ?_
  refine accepts_consumeMark h₃.stream hclose fun s₄ h₄ => ?_
  have h₁₄ := ((h₁.trans h₂).trans h₃).trans h₄
  refine accepts_matchOrFail (token_eq h₄.stream ▸ hbrace.1) (accepts_orFail ?_)
  refine (block_answer hbody h₄.stream (h₁₄.error.trans herror) (h₁₄.allowsIn.trans hin) hlegal
    hbrace hspans₁ hend).mono ?_
  rintro _ s₅ ⟨rfl, h₅⟩
  refine accepts_pure ⟨?_, (h₁₄.trans h₅).cast (by simp [lexemes]) (by simp [Calm])⟩
  rw [hdata]
  rfl

theorem takenAsFinalizer_none : noFinalizer.TakenAsFinalizer := by
  intro a b s hspans hs _ _ _
  obtain ⟨hparts, hend⟩ := spans_iff.mp hspans
  have hab := spansParts_nil.mp hparts
  subst hab
  exact accepts_noMatch hs hend (accepts_pure ⟨rfl, .refl hs⟩)

theorem takenAsFinalizer_finally (hbody : body.TakenAsStatements) :
    (Phrase.finally body).TakenAsFinalizer := by
  intro a b s hspans hs herror hlegal hin
  obtain ⟨hparts, -⟩ := spans_iff.mp hspans
  obtain ⟨n₁, hx, n₂, hbrace, n₃, hspans₁, hend⟩ := by simpa [parts] using hparts
  refine accepts_match hs hx.1 (accepts_skip hs hx fun s₁ h₁ => ?_)
  refine accepts_matchOrFail (token_eq h₁.stream ▸ hbrace.1) (accepts_orFail ?_)
  refine (block_answer hbody h₁.stream (h₁.error.trans herror) (h₁.allowsIn.trans hin) hlegal
    hbrace hspans₁ hend).mono ?_
  rintro _ s₂ ⟨rfl, h₂⟩
  exact accepts_pure ⟨rfl, (h₁.trans h₂).cast rfl (by simp [Calm])⟩

theorem takenAsStatement_try (hbody : body.TakenAsStatements) (hhandler : handler.TakenAsHandler)
    (hfinalizer : finalizer.TakenAsFinalizer) :
    (Phrase.try body handler finalizer).TakenAsStatement := by
  intro a b s hspans hs herror hlegal hin
  obtain ⟨hparts, -⟩ := spans_iff.mp hspans
  obtain ⟨n₁, hx, n₂, hbrace, n₃, hspans₁, n₄, hend, n₅, hspans₂, hspans₃⟩ := by
    simpa [parts] using hparts
  obtain ⟨hlegal₁, hlegal₂, hlegal₃, hone⟩ := hlegal
  refine answers_production.mpr (accepts_tokenType ?_)
  rw [token_eq hs, hx.1]
  refine accepts_last.mpr (answers_production.mpr (accepts_keyword hs hx fun s₁ h₁ => ?_))
  refine accepts_matchOrFail (token_eq h₁.stream ▸ hbrace.1) (accepts_orFail ?_)
  refine (block_answer hbody h₁.stream (h₁.error.trans herror) (h₁.allowsIn.trans hin) hlegal₁
    hbrace hspans₁ hend).mono ?_
  rintro _ s₂ ⟨rfl, h₂⟩
  have h₁₂ := h₁.trans h₂
  have hin₂ := h₁₂.allowsIn.trans hin
  refine accepts_bind.mpr ((hhandler hspans₂ h₂.stream (h₁₂.error.trans herror) (hin₂ ▸ hlegal₂)
    hin₂).mono ?_)
  rintro _ s₃ ⟨rfl, h₃⟩
  have h₁₃ := h₁₂.trans h₃
  have hin₃ := h₁₃.allowsIn.trans hin
  refine accepts_bind.mpr ((hfinalizer hspans₃ h₃.stream (h₁₃.error.trans herror) (hin₃ ▸ hlegal₃)
    hin₃).mono ?_)
  rintro _ s₄ ⟨rfl, h₄⟩
  have hsome : (handler.build.2.isSome || finalizer.build.isSome) = true := by
    rcases hone with h | h
    · cases handler with
      | noHandler => exact absurd rfl h
      | «catch» name body => rfl
    · cases finalizer with
      | noFinalizer => exact absurd rfl h
      | «finally» body => exact Bool.or_true _
  refine accepts_failIfFalse hsome (accepts_pure ⟨rfl, ?_⟩)
  exact (h₁₃.trans h₄).cast (by simp [lexemes]) (by simp [Calm, and_assoc])

end Try

end Phrase

end HammerJS
