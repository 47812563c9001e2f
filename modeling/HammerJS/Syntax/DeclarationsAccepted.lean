import HammerJS.Syntax.PrimariesAccepted
import HammerJS.Syntax.StatementsAccepted

/-!
# The productions accept declarations and headers

What `StatementsAccepted` leaves: variables, the headers of `for` loops, and functions.

* `Phrase.TakenAsDecls` — the loop of `parseVarDeclarationList` reads the declarations.
* `functionInfo_answer` — `parseFunctionInfo` reads a function.
-/

namespace HammerJS

open Procs Machine Lexer Parse

variable [Platform]

/-! ## Functions -/

section Functions

variable {s : ParserState} {a b m n₁ n₂ n₃ : Stream}

theorem reads_append_iff {ls ls' : List Lexeme} :
    Reads (ls ++ ls') a b ↔ ∃ m, Reads ls a m ∧ Reads ls' m b := by
  rw [← spansParts_tokens, tokens, List.map_append, spansParts_append]
  exact exists_congr fun m => and_congr spansParts_tokens spansParts_tokens

/-- The names behind the first parameter. -/
theorem formalParametersLoop_answer {rest : List Identifier} (tail : List Identifier)
    (hs : s.stream = a)
    (hreads : Reads (rest.flatMap fun name => [.mark .comma, .ident name]) a b)
    (hend : b.token.type ≠ .comma) :
    parser.Answers (.formalParametersLoop tail) s fun r s' => r = tail ++ rest ∧
      Arrives s (rest.flatMap fun name => [.mark .comma, .ident name]) True b s' := by
  induction rest generalizing tail s a with
  | nil =>
      have hab : a = b := hreads
      subst hab
      refine answers_production.mpr (accepts_noMatch hs hend (accepts_pure ⟨?_, .refl hs⟩))
      exact (List.append_nil tail).symm
  | cons name rest ih =>
      obtain ⟨n, hcomma, m, hname, hrest⟩ := hreads
      refine answers_production.mpr (accepts_match hs hcomma.1 ?_)
      refine accepts_skip hs hcomma fun s₁ h₁ => ?_
      refine accepts_name h₁.stream hname fun data s₂ hdata h₂ => accepts_last.mpr ?_
      refine (ih (tail ++ [data.getIdent]) h₂.stream hrest).mono ?_
      rintro _ s₃ ⟨rfl, h₃⟩
      refine ⟨?_, ((h₁.trans h₂).trans h₃).cast rfl (by simp)⟩
      rw [hdata, List.append_assoc]
      rfl

/-- The parameters of a function. -/
theorem accepts_parameters {β : Type} {f : Option Node → Parse β} {Q : β → ParserState → Prop}
    {params : List Identifier} (hs : s.stream = a) (hreads : Reads (paramLexemes params) a b)
    (hclose : b.token.type = .closeParen)
    (hf : ∀ s', Arrives s (paramLexemes params) True b s' →
      Accepts (f (parametersNode params)) s' Q) : Accepts (parseParameters >>= f) s Q := by
  refine accepts_bind.mpr ?_
  cases params with
  | nil =>
      have hab : a = b := hreads
      subst hab
      exact accepts_match hs hclose (accepts_pure (hf s (.refl hs)))
  | cons name rest =>
      rw [paramLexemes_cons] at hreads hf
      obtain ⟨n, hname, hrest⟩ := hreads
      have hopen : a.token.type ≠ .closeParen := by
        rw [hname.1]
        decide
      have hend : b.token.type ≠ .comma := by
        rw [hclose]
        decide
      refine accepts_noMatch hs hopen (accepts_orFail (answers_production.mpr ?_))
      refine accepts_name hs hname fun data s₁ hdata h₁ => accepts_orNull.mpr ?_
      refine (formalParametersLoop_answer [] h₁.stream hrest hend).mono ?_
      rintro _ s₂ ⟨rfl, h₂⟩
      refine accepts_pure (accepts_pure ?_)
      rw [hdata]
      exact hf s₂ ((h₁.trans h₂).cast rfl (by simp))

/-- The name of a function. -/
theorem accepts_functionName {β : Type} {f : Option Identifier → Parse β}
    {Q : β → ParserState → Prop} {needsName : Bool} {name : Option Identifier}
    (hname : needsName = true → name.isSome) (hs : s.stream = a)
    (hreads : Reads (labelLexemes name) a b) (hend : b.token.type = .openParen)
    (hf : ∀ s', Arrives s (labelLexemes name) True b s' → Accepts (f name) s' Q) :
    Accepts (parseFunctionName needsName >>= f) s Q := by
  refine accepts_bind.mpr ?_
  cases name with
  | none =>
      have hab : a = b := hreads
      subst hab
      refine accepts_noMatch hs (by rw [hend]; decide) ?_
      cases needsName with
      | false => exact accepts_pure (hf s (.refl hs))
      | true => cases hname rfl
  | some name =>
      obtain ⟨n, hx, hn⟩ := hreads
      have hn : n = b := hn
      subst hn
      refine accepts_match hs hx.1 (accepts_tokenData (accepts_read hs hx hx.2.2 fun s₁ h₁ => ?_))
      rw [token_eq hs, hx.2.1]
      exact accepts_pure (hf s₁ h₁)

namespace Phrase

variable {body : Phrase .stmts} {name : Option Identifier} {params : List Identifier}

/-- `parseFunctionBody` reads the statements with stacks of their own. -/
theorem functionBody_answer (hbody : body.TakenAsStatements) (hs : s.stream = a)
    (herror : s.error = false) (hin : s.regs.allowsIn = true) (hlegal : body.Legal true)
    (hspans : body.Spans a b) (hclose : b.token.type = .closeBrace) :
    parser.Answers .functionBody s fun node s' => node = functionBodyNode body.build ∧
      Arrives s body.lexemes body.Calm b s' := by
  have hstart := statements_start hspans hclose rfl
  refine answers_production.mpr ?_
  cases body with
  | noStmts =>
      have hab := spansParts_nil.mp (spans_iff.mp hspans).1
      subst hab
      exact accepts_match hs hclose (accepts_pure ⟨rfl, .refl hs⟩)
  | moreStmts first rest =>
      refine accepts_noMatch hs (mt hstart.mp (by simp)) (accepts_getStacks (accepts_modifyStacks ?_))
      obtain ⟨node, s', hreturns, rfl, h'⟩ := hbody.sourceElements
        (s := { s with regs := { s.regs with context := {} } }) hspans hs herror (hin ▸ hlegal) hin
      refine accepts_parse hreturns (accepts_modifyStacks (accepts_pure ⟨rfl, ?_⟩))
      have hconsumed : Consumed s (moreStmts first rest).lexemes (moreStmts first rest).Calm s' :=
        h'.toConsumed.congr rfl rfl rfl rfl rfl rfl rfl rfl
      exact ⟨hconsumed.read rfl, h'.stream, h'.error⟩

/-- **`parseFunctionInfo` reads a function**, from behind `function`. -/
theorem functionInfo_answer {needsName : Bool} (hname : needsName = true → name.isSome)
    (hbody : body.TakenAsStatements) (hs : s.stream = a) (herror : s.error = false)
    (hin : s.regs.allowsIn = true) (hlegal : body.Legal true)
    (hhead : Reads (headLexemes name params) a m) (hspans : body.Spans m n₃)
    (hclose : (Lexeme.mark .closeBrace).Step n₃ b) :
    parser.Answers (.functionInfo needsName) s fun info s' =>
      info = ⟨name, parametersNode params, functionBodyNode body.build⟩ ∧
        Arrives s (headLexemes name params ++ body.lexemes ++ [.mark .closeBrace]) body.Calm b
          s' := by
  unfold headLexemes at hhead
  rw [reads_append_iff] at hhead
  obtain ⟨k, hhead, n₁, hparen, n₂, hbrace, hm⟩ := hhead
  have hm : n₂ = m := hm
  subst hm
  rw [reads_append_iff] at hhead
  obtain ⟨k₁, hlabel, k₂, hopen, hparams⟩ := hhead
  refine answers_production.mpr ?_
  refine accepts_functionName hname hs hlabel hopen.1 fun s₁ h₁ => ?_
  refine accepts_consumeMark h₁.stream hopen fun s₂ h₂ => ?_
  refine accepts_parameters h₂.stream hparams hparen.1 fun s₃ h₃ => ?_
  refine accepts_consumeMark h₃.stream hparen fun s₄ h₄ => ?_
  refine accepts_matchOrFail (token_eq h₄.stream ▸ hbrace.1) ?_
  refine accepts_skip h₄.stream hbrace fun s₅ h₅ => accepts_orFail ?_
  have h₁₅ := (((h₁.trans h₂).trans h₃).trans h₄).trans h₅
  refine (functionBody_answer hbody h₅.stream (h₁₅.error.trans herror) (h₁₅.allowsIn.trans hin)
    hlegal hspans hclose.1).mono ?_
  rintro _ s₆ ⟨rfl, h₆⟩
  refine accepts_matchOrFail (token_eq h₆.stream ▸ hclose.1) ?_
  refine accepts_skip h₆.stream hclose fun s₇ h₇ => accepts_pure ⟨rfl, ?_⟩
  exact ((h₁₅.trans h₆).trans h₇).cast (by simp [headLexemes]) (by simp)

theorem takenAsBase_function (hbody : body.TakenAsStatements) :
    (function name params body).TakenAsBase := by
  refine ⟨by simp [head, parts, Lexeme.type], ?_⟩
  intro a b s hspans hs herror hlegal hin
  obtain ⟨hparts, -⟩ := spans_iff.mp hspans
  obtain ⟨n, hx, m, hhead, n₃, hinner, hclose⟩ := by simpa [parts] using hparts
  refine accepts_match hs hx.1 (accepts_skip hs hx fun s₁ h₁ => accepts_orFail ?_)
  have hname : false = true → name.isSome := fun h => absurd h Bool.false_ne_true
  refine (functionInfo_answer hname hbody h₁.stream (h₁.error.trans herror)
    (h₁.allowsIn.trans hin) hlegal hhead hinner hclose).mono ?_
  rintro _ s₂ ⟨rfl, h₂⟩
  refine accepts_pure ⟨rfl, (h₁.trans h₂).cast ?_ (by simp [Calm])⟩
  simp [lexemes, functionLexemes, headLexemes]

theorem takenAsStatement_function {name : Identifier} (hbody : body.TakenAsStatements) :
    (functionDecl name params body).TakenAsStatement := by
  intro a b s hspans hs herror hlegal hin
  obtain ⟨hparts, -⟩ := spans_iff.mp hspans
  obtain ⟨n, hx, m, hhead, n₃, hinner, hclose⟩ := by simpa [parts] using hparts
  refine answers_production.mpr (accepts_tokenType ?_)
  rw [token_eq hs, hx.1]
  refine accepts_last.mpr (answers_production.mpr (accepts_keyword hs hx fun s₁ h₁ => ?_))
  have hname : true = true → (some name).isSome := fun _ => rfl
  refine accepts_orFail ((functionInfo_answer hname hbody h₁.stream (h₁.error.trans herror)
    (h₁.allowsIn.trans hin) hlegal hhead hinner hclose).mono ?_)
  rintro _ s₂ ⟨rfl, h₂⟩
  refine accepts_pure_bind (accepts_pure ⟨rfl, (h₁.trans h₂).cast ?_ (by simp [Calm])⟩)
  simp [lexemes, functionLexemes, headLexemes]

end Phrase

end Functions

/-! ## Variables -/

namespace Phrase

section Variables

variable {name : Identifier} {init : Phrase .init} {rest : Phrase .decls} {semi : Bool}

/-- The initializer is read, if there is one. -/
def TakenAsInit (init : Phrase .init) : Prop := ∀ e, init = initializer e → e.TakenAsAssignment

/-- A variable, behind `var` or a comma. -/
theorem accepts_declaration {s : ParserState} {a n₁ n₂ n₃ : Stream} {t : JSTokenType}
    {varDecls lastInitializer : Option Node} {declarations : Nat}
    {Q : VarDeclarations → ParserState → Prop} (hinit : init.TakenAsInit) (hs : s.stream = a)
    (herror : s.error = false) (hlegal : init.Legal s.regs.allowsIn)
    (hx : (Lexeme.mark t).Step a n₁) (hname : (Lexeme.ident name).Step n₁ n₂)
    (hspans : init.Spans n₂ n₃) (hend : s.regs.allowsIn = true → n₃.token.type ≠ .inToken)
    (hf : ∀ s', Arrives s (.mark t :: .ident name :: init.lexemes) init.Calm n₃ s' →
      Accepts (parseVarDeclarationLoop.continueVarDeclarations
        (Builder.combineCommaNodes varDecls (declarationNode name init.build)) (declarations + 1)
          name (init.build.or lastInitializer)) s' Q) :
    parser.Answers (.varDeclarationLoop varDecls declarations lastInitializer) s Q := by
  refine answers_production.mpr (accepts_skip hs hx fun s₁ h₁ => ?_)
  refine accepts_name h₁.stream hname fun data s₂ hdata h₂ => ?_
  have h₁₂ := h₁.trans h₂
  rw [hdata]
  obtain ⟨hparts, hfits⟩ := spans_iff.mp hspans
  cases init with
  | noInit =>
      have hn := spansParts_nil.mp hparts
      subst hn
      refine accepts_noMatch h₂.stream hfits (hf s₂ (h₁₂.cast rfl (by simp [Calm])))
  | initializer e =>
      obtain ⟨m, hequal, hspans₁⟩ := by simpa [parts] using hparts
      refine accepts_match h₂.stream hequal.1 (accepts_skip h₂.stream hequal fun s₃ h₃ => ?_)
      have h₁₃ := h₁₂.trans h₃
      have hin₃ := h₁₃.allowsIn
      have hends : Ends 1 s₃.regs.allowsIn n₃.token.type := by
        rw [hin₃]
        cases hin : s.regs.allowsIn with
        | true => exact Ends.with_in hfits (hend hin)
        | false => exact hfits
      refine accepts_orFail ((hinit e rfl hspans₁ h₃.stream (h₁₃.error.trans herror)
        (hin₃ ▸ hlegal.1) ⟨hlegal.2, hends⟩).mono ?_)
      rintro _ s₄ ⟨rfl, h₄⟩
      exact hf s₄ ((h₁₃.trans h₄).cast rfl (by simp [Calm]))

/-- The loop of `parseVarDeclarationList` reads a variable and those behind it. -/
def TakenAsDecls (rest : Phrase .decls) : Prop :=
  ∀ {a n₁ n₂ n₃ b : Stream} {s : ParserState} {t : JSTokenType} {name : Identifier}
    {init : Phrase .init} (varDecls lastInitializer : Option Node) (declarations : Nat),
    init.TakenAsInit → s.stream = a → s.error = false → init.Legal s.regs.allowsIn →
      rest.Legal s.regs.allowsIn → (Lexeme.mark t).Step a n₁ → (Lexeme.ident name).Step n₁ n₂ →
        init.Spans n₂ n₃ → rest.Spans n₃ b →
          (s.regs.allowsIn = true → b.token.type ≠ .inToken) →
            parser.Answers (.varDeclarationLoop varDecls declarations lastInitializer) s
              fun r s' =>
                (r.decls = combineDeclarations (Builder.combineCommaNodes varDecls
                    (declarationNode name init.build)) rest.build ∧
                  r.declarations = declarations + 1 + List.length rest.build ∧
                  (rest = noDecls → r.lastIdent = name ∧
                    r.lastInitializer = init.build.or lastInitializer)) ∧
                Arrives s (.mark t :: .ident name :: init.lexemes ++ rest.lexemes)
                  (init.Calm ∧ rest.Calm) b s'

theorem takenAsDecls_none : noDecls.TakenAsDecls := by
  intro a n₁ n₂ n₃ b s t name init varDecls lastInitializer declarations hinit hs herror hlegal _ hx
    hname hspans hrest hend
  obtain ⟨hparts, hcomma⟩ := spans_iff.mp hrest
  have hn := spansParts_nil.mp hparts
  subst hn
  refine accepts_declaration hinit hs herror hlegal hx hname hspans hend fun s₁ h₁ => ?_
  refine accepts_noMatch h₁.stream hcomma (accepts_pure ⟨⟨rfl, rfl, fun _ => ⟨rfl, rfl⟩⟩, ?_⟩)
  exact h₁.cast (by simp [lexemes]) (by simp [Calm])

theorem takenAsDecls_more (hinit : init.TakenAsInit) (hrest : rest.TakenAsDecls) :
    (moreDecls name init rest).TakenAsDecls := by
  intro a n₁ n₂ n₃ b s t name₀ init₀ varDecls lastInitializer declarations hinit₀ hs herror hlegal₀
    hlegal hx hname₀ hspans₀ hspans hend
  obtain ⟨hparts, -⟩ := spans_iff.mp hspans
  obtain ⟨m₁, hcomma, m₂, hname, m₃, hspans₁, hspans₂⟩ := by simpa [parts] using hparts
  have hin : s.regs.allowsIn = true → n₃.token.type ≠ .inToken := by
    intro _
    rw [hcomma.1]
    decide
  refine accepts_declaration hinit₀ hs herror hlegal₀ hx hname₀ hspans₀ hin fun s₁ h₁ => ?_
  have hin₁ := h₁.allowsIn
  refine accepts_match h₁.stream hcomma.1 (accepts_last.mpr ?_)
  refine (hrest _ _ _ hinit h₁.stream (h₁.error.trans herror) (hin₁ ▸ hlegal.1) (hin₁ ▸ hlegal.2)
    hcomma hname hspans₁ hspans₂ (hin₁ ▸ hend)).mono ?_
  rintro r s₂ ⟨⟨hdecls, hdeclarations, -⟩, h₂⟩
  refine ⟨⟨hdecls, ?_, nofun⟩, (h₁.trans h₂).cast (by simp [lexemes]) Iff.rfl⟩
  rw [hdeclarations]
  show _ = declarations + 1 + (List.length rest.build + 1)
  omega

theorem takenAsStatement_varDecl (hinit : init.TakenAsInit) (hrest : rest.TakenAsDecls) :
    (varDecl name init rest semi).TakenAsStatement := by
  intro a b s hspans hs herror hlegal hin
  obtain ⟨hparts, homits, hnotIn⟩ := spans_iff.mp hspans
  obtain ⟨n₁, hx, n₂, hname, n₃, hspans₁, n₄, hspans₂, hsemi⟩ := by simpa [parts] using hparts
  have hend : n₄.token.type ≠ .inToken := by
    cases semi with
    | true =>
        obtain ⟨m, hy, -⟩ := hsemi
        rw [hy.1]
        decide
    | false =>
        have hn : n₄ = b := hsemi
        exact hn ▸ hnotIn rfl
  refine answers_production.mpr (accepts_tokenType ?_)
  rw [token_eq hs, hx.1]
  refine accepts_last.mpr (answers_production.mpr (accepts_assertToken (token_eq hs ▸ hx.1) ?_))
  have hdecls : parser.Answers .varDeclarationList s _ := answers_production.mpr (accepts_last.mpr
    (hrest none none 0 hinit hs herror (hin ▸ hlegal.1) (hin ▸ hlegal.2) hx hname hspans₁ hspans₂
      fun _ => hend))
  obtain ⟨r, s₁, hreturns, ⟨hr, -, -⟩, h₁⟩ := hdecls
  refine accepts_parse hreturns (accepts_failIfError (h₁.error.trans herror) ?_)
  refine accepts_semicolon h₁.stream hsemi homits fun s₂ h₂ => accepts_pure ⟨?_, ?_⟩
  · rw [hr]
    rfl
  · exact (h₁.trans h₂).cast (by simp [lexemes]) (by simp [Calm])

end Variables

end Phrase

/-! ## Loops -/

namespace Phrase

section Loops

variable {e left right : Phrase .expr} {init test update : Phrase .opt} {body : Phrase .stmt}
  {name skipped : Identifier} {declared : Phrase .init} {rest : Phrase .decls} {t : JSTokenType}

/-- The expression is read, if there is one. -/
def TakenAsOpt (o : Phrase .opt) : Prop := ∀ e, o = present e → e.TakenAsExpression

/-- An expression before a certain token, or the token. -/
theorem accepts_expressionUnless {β : Type} {f : Option Node → Parse β}
    {Q : β → ParserState → Prop} {s : ParserState} {a b : Stream} {o : Phrase .opt}
    (ho : o.TakenAsOpt) (hs : s.stream = a) (herror : s.error = false)
    (hin : s.regs.allowsIn = true) (hlegal : o.Legal true) (hspans : o.Spans a b)
    (ht : b.token.type = t) (hstarts : startsExpression t = false)
    (hends : t.continues true = none)
    (hf : ∀ s', Arrives s o.lexemes o.Calm b s' → Accepts (f o.build) s' Q) :
    Accepts (parseExpressionUnless t >>= f) s Q := by
  refine accepts_bind.mpr ?_
  obtain ⟨hparts, -⟩ := spans_iff.mp hspans
  cases o with
  | absent =>
      have hab := spansParts_nil.mp hparts
      subst hab
      exact accepts_match hs ht (accepts_pure (hf s (.refl hs)))
  | present e =>
      have hspans₁ : e.Spans a b := by simpa [parts] using hparts
      refine accepts_noMatch hs (expression_start hspans₁ hstarts) (accepts_orFail ?_)
      have hends' : Ends 0 s.regs.allowsIn b.token.type := by
        rw [ht]
        exact ends_other hends
      refine (ho e rfl hspans₁ hs herror (hin ▸ hlegal) hends').mono ?_
      rintro _ s₁ ⟨rfl, h₁⟩
      exact accepts_pure (hf s₁ h₁)

/-- The rest of a header, from the token behind its declarations, and the body. -/
theorem accepts_standardForLoop {s : ParserState} {a n₁ n₂ n₃ n₄ n₅ b : Stream} {x : Lexeme}
    {decls : Option Node} {Q : Node → ParserState → Prop} (htest : test.TakenAsOpt)
    (hupdate : update.TakenAsOpt) (hbody : body.TakenAsStatement) (hs : s.stream = a)
    (herror : s.error = false) (hin : s.regs.allowsIn = true) (hlegal₁ : test.Legal true)
    (hlegal₂ : update.Legal true) (hlegal₃ : body.Legal true) (hx : x.Step a n₁)
    (hn : a.Next .identifyReservedWords n₁) (hspans₁ : test.Spans n₁ n₂)
    (hsemicolon : (Lexeme.mark .semicolon).Step n₂ n₃) (hspans₂ : update.Spans n₃ n₄)
    (hclose : (Lexeme.mark .closeParen).Step n₄ n₅) (hspans₃ : body.Spans n₅ b)
    (hQ : ∀ s', Arrives s (x :: test.lexemes ++ .mark .semicolon :: update.lexemes ++
        .mark .closeParen :: body.lexemes) (test.Calm ∧ update.Calm ∧ body.Calm) b s' →
      Q (Builder.createForLoop decls test.build update.build body.build) s') :
    Accepts (parseStandardForLoop decls) s Q := by
  refine accepts_read hs hx hn fun s₁ h₁ => ?_
  refine accepts_expressionUnless htest h₁.stream (h₁.error.trans herror) (h₁.allowsIn.trans hin)
    hlegal₁ hspans₁ hsemicolon.1 rfl rfl fun s₂ h₂ => ?_
  refine accepts_consumeMark h₂.stream hsemicolon fun s₃ h₃ => ?_
  have h₁₃ := (h₁.trans h₂).trans h₃
  refine accepts_expressionUnless hupdate h₃.stream (h₁₃.error.trans herror)
    (h₁₃.allowsIn.trans hin) hlegal₂ hspans₂ hclose.1 rfl rfl fun s₄ h₄ => ?_
  refine accepts_consumeMark h₄.stream hclose fun s₅ h₅ => accepts_orFail ?_
  have h₁₅ := (h₁₃.trans h₄).trans h₅
  have hin₅ := h₁₅.allowsIn.trans hin
  refine (hbody hspans₃ h₅.stream (h₁₅.error.trans herror) (hin₅ ▸ hlegal₃) hin₅).mono ?_
  rintro _ s₆ ⟨rfl, h₆⟩
  exact accepts_pure (hQ s₆ ((h₁₅.trans h₆).cast (by simp) (by simp [and_assoc])))

/-- What stands behind the `in` of a header. -/
theorem accepts_forInRest {β : Type} {f : Node → Node → Parse β} {Q : β → ParserState → Prop}
    {s : ParserState} {a n₂ n₃ b : Stream} (hright : right.TakenAsExpression)
    (hbody : body.TakenAsStatement) (hs : s.stream = a) (herror : s.error = false)
    (hin : s.regs.allowsIn = true) (hlegal₁ : right.Legal true) (hlegal₂ : body.Legal true)
    (hspans₁ : right.Spans a n₂) (hclose : (Lexeme.mark .closeParen).Step n₂ n₃)
    (hspans₂ : body.Spans n₃ b)
    (hf : ∀ s', Arrives s (right.lexemes ++ .mark .closeParen :: body.lexemes)
      (right.Calm ∧ body.Calm) b s' → Accepts (f right.build body.build) s' Q) :
    Accepts (parse .expression >>= fun r => failIfNull r >>= fun expr =>
      consumeOrFail .closeParen >>= fun _ => parse .statement >>= fun r =>
        failIfNull r >>= f expr) s Q := by
  have hends : Ends 0 s.regs.allowsIn n₂.token.type := by
    rw [hclose.1]
    exact ends_other rfl
  refine accepts_orFail ((hright hspans₁ hs herror (hin ▸ hlegal₁) hends).mono ?_)
  rintro _ s₁ ⟨rfl, h₁⟩
  refine accepts_consumeMark h₁.stream hclose fun s₂ h₂ => accepts_orFail ?_
  have h₁₂ := h₁.trans h₂
  have hin₂ := h₁₂.allowsIn.trans hin
  refine (hbody hspans₂ h₂.stream (h₁₂.error.trans herror) (hin₂ ▸ hlegal₂) hin₂).mono ?_
  rintro _ s₃ ⟨rfl, h₃⟩
  exact hf s₃ ((h₁₂.trans h₃).cast (by simp) (by simp))

/-- With `m_allowsIn` off, and then on again. -/
theorem accepts_withoutIn {β : Type} {q : Production} {f : Option q.Ret → Parse β}
    {Q : β → ParserState → Prop} {s : ParserState} {r : q.Ret} {ls : List Lexeme} {calm : Prop}
    {b : Stream} (hin : s.regs.allowsIn = true)
    (hq : parser.Answers q { s with regs := { s.regs with allowsIn := false } } fun r' s' =>
      r' = r ∧ Arrives { s with regs := { s.regs with allowsIn := false } } ls calm b s')
    (hf : ∀ s', Arrives s ls calm b s' → Accepts (f (some r)) s' Q) :
    Accepts (setAllowsIn false >>= fun _ => parse q >>= fun r =>
      setAllowsIn true >>= fun _ => f r) s Q := by
  obtain ⟨_, s', hreturns, rfl, h'⟩ := hq
  refine accepts_setAllowsIn (accepts_parse hreturns (accepts_setAllowsIn (hf _ ?_)))
  exact h'.withAllowsIn hin.symm

/-- What a header without `var` starts with. -/
theorem accepts_forInit {β : Type} {f : Option Node → Parse β} {Q : β → ParserState → Prop}
    {s : ParserState} {a b : Stream} (hinit : init.TakenAsOpt) (hs : s.stream = a)
    (herror : s.error = false) (hin : s.regs.allowsIn = true) (hlegal : init.Legal false)
    (hspans : init.Spans a b) (habsent : init = .absent → b.token.type = .semicolon)
    (hends : Ends 0 false b.token.type)
    (hf : ∀ s', Arrives s init.lexemes init.Calm b s' → Accepts (f init.build) s' Q) :
    Accepts (parseForInit >>= f) s Q := by
  refine accepts_bind.mpr ?_
  obtain ⟨hparts, -⟩ := spans_iff.mp hspans
  cases init with
  | absent =>
      have hab := spansParts_nil.mp hparts
      subst hab
      exact accepts_match hs (habsent rfl) (accepts_pure (hf s (.refl hs)))
  | present e =>
      have hspans₁ : e.Spans a b := by simpa [parts] using hparts
      refine accepts_noMatch hs (expression_start hspans₁ rfl) ?_
      have hanswers := hinit e rfl (s := { s with regs := { s.regs with allowsIn := false } })
        hspans₁ hs herror hlegal hends
      exact accepts_withoutIn hin hanswers fun s₁ h₁ => accepts_pure_bind (accepts_pure (hf s₁ h₁))

/-- The header of a loop is read up to its declarations. -/
theorem accepts_forHead {s : ParserState} {a n₁ n₂ : Stream} {Q : Node → ParserState → Prop}
    (hs : s.stream = a) (hx : (Lexeme.mark .for).Step a n₁)
    (hopen : (Lexeme.mark .openParen).Step n₁ n₂)
    (hf : ∀ s', Arrives s [.mark .for, .mark .openParen] True n₂ s' →
      Accepts (if n₂.token.type = .var then parseForVar else do
        let decls ← parseForInit
        if ← isToken .semicolon then parseStandardForLoop decls
        else
          failIfFalse (s'.regs.nonLHSCount = (← nonLHSCount))
          consumeOrFail .inToken
          let expr ← failIfNull (← parse .expression)
          consumeOrFail .closeParen
          let statement ← failIfNull (← parse .statement)
          let decls ← orReturnNull decls
          return Builder.createForIn decls expr statement) s' Q) :
    Accepts parseStatement s Q := by
  refine accepts_tokenType ?_
  rw [token_eq hs, hx.1]
  refine accepts_last.mpr (answers_production.mpr (accepts_keyword hs hx fun s₁ h₁ => ?_))
  refine accepts_consumeMark h₁.stream hopen fun s₂ h₂ => accepts_nonLHSCount ?_
  have hbranch := hf s₂ ((h₁.trans h₂).cast rfl (by simp))
  by_cases ht : n₂.token.type = .var
  · rw [if_pos ht] at hbranch
    exact accepts_match h₂.stream ht hbranch
  · rw [if_neg ht] at hbranch
    exact accepts_noMatch h₂.stream ht hbranch

theorem takenAsStatement_for (hinit : init.TakenAsOpt) (htest : test.TakenAsOpt)
    (hupdate : update.TakenAsOpt) (hbody : body.TakenAsStatement) :
    (Phrase.for init test update body).TakenAsStatement := by
  intro a b s hspans hs herror hlegal hin
  obtain ⟨hparts, -⟩ := spans_iff.mp hspans
  obtain ⟨n₁, hx, n₂, hopen, n₃, hspans₁, n₄, hsemicolon, n₅, hspans₂, n₆, hsemicolon', n₇, hspans₃,
    n₈, hclose, hspans₄⟩ := by simpa [parts] using hparts
  obtain ⟨hlegal₁, hlegal₂, hlegal₃, hlegal₄⟩ := hlegal
  refine answers_production.mpr (accepts_forHead hs hx hopen fun s₁ h₁ => ?_)
  have hin₁ := h₁.allowsIn.trans hin
  have hvar : n₂.token.type ≠ .var := by
    cases init with
    | absent =>
        rw [spansParts_nil.mp (spans_iff.mp hspans₁).1, hsemicolon.1]
        decide
    | present e =>
        obtain ⟨m, he⟩ := hspans₁.sub_first (e := e) rfl
        exact expression_start he rfl
  have hends : Ends 0 false n₃.token.type := by
    rw [hsemicolon.1]
    exact ends_other rfl
  rw [if_neg hvar]
  refine accepts_forInit hinit h₁.stream (h₁.error.trans herror) hin₁ hlegal₁ hspans₁
    (fun _ => hsemicolon.1) hends fun s₂ h₂ => ?_
  refine accepts_match h₂.stream hsemicolon.1 ?_
  have h₁₂ := h₁.trans h₂
  refine accepts_standardForLoop htest hupdate hbody h₂.stream (h₁₂.error.trans herror)
    (h₁₂.allowsIn.trans hin) hlegal₂ hlegal₃ hlegal₄ hsemicolon hsemicolon.2 hspans₂ hsemicolon'
    hspans₃ hclose hspans₄ fun s₃ h₃ => ⟨rfl, ?_⟩
  exact (h₁₂.trans h₃).cast (by simp [lexemes]) (by simp [Calm])

theorem takenAsStatement_forIn (hleft : left.TakenAsExpression) (hright : right.TakenAsExpression)
    (hbody : body.TakenAsStatement) : (forIn left right body).TakenAsStatement := by
  intro a b s hspans hs herror hlegal hin
  obtain ⟨hparts, -⟩ := spans_iff.mp hspans
  obtain ⟨n₁, hx, n₂, hopen, n₃, hspans₁, n₄, hy, n₅, hspans₂, n₆, hclose, hspans₃⟩ := by
    simpa [parts] using hparts
  obtain ⟨⟨hlegal₁, hcalm⟩, hlegal₂, hlegal₃⟩ := hlegal
  refine answers_production.mpr (accepts_forHead hs hx hopen fun s₁ h₁ => ?_)
  rw [if_neg (expression_start hspans₁ rfl)]
  have hpresent : (present left).Spans n₂ n₃ :=
    spans_iff.mpr ⟨by simpa [parts] using hspans₁, trivial⟩
  have hopt : (present left).TakenAsOpt := by
    rintro e ⟨⟩
    exact hleft
  have hends : Ends 0 false n₃.token.type := by
    rw [hy.1]
    exact ends_of_none rfl
  refine accepts_forInit hopt h₁.stream (h₁.error.trans herror) (h₁.allowsIn.trans hin) hlegal₁
    hpresent (by simp) hends fun s₂ h₂ => ?_
  refine accepts_noMatch h₂.stream (by rw [hy.1]; decide) (accepts_nonLHSCount ?_)
  -- the left side did not count
  refine accepts_failIfFalse (decide_eq_true (h₂.eq_iff.mpr hcalm).symm) ?_
  refine accepts_consumeMark h₂.stream hy fun s₃ h₃ => ?_
  have h₁₃ := (h₁.trans h₂).trans h₃
  refine accepts_forInRest (f := fun expr statement => do
    let decls ← orReturnNull (present left).build
    return Builder.createForIn decls expr statement) hright hbody h₃.stream
    (h₁₃.error.trans herror) (h₁₃.allowsIn.trans hin) hlegal₂ hlegal₃ hspans₂ hclose hspans₃
    fun s₄ h₄ => accepts_pure_bind (accepts_pure ⟨rfl, ?_⟩)
  exact (h₁₃.trans h₄).cast (by simp [lexemes]) (by simp [Calm])

theorem takenAsStatement_forVar (hdeclared : declared.TakenAsInit) (hrest : rest.TakenAsDecls)
    (htest : test.TakenAsOpt) (hupdate : update.TakenAsOpt) (hbody : body.TakenAsStatement) :
    (forVar name declared rest t skipped test update body).TakenAsStatement := by
  intro a b s hspans hs herror hlegal hin
  obtain ⟨hparts, -⟩ := spans_iff.mp hspans
  obtain ⟨n₁, hx, n₂, hopen, n₃, hvar, n₄, hname, n₅, hspans₁, n₆, hspans₂, n₇, hskipped, n₈,
    hspans₃, n₉, hsemicolon, n₁₀, hspans₄, n₁₁, hclose, hspans₅⟩ := by simpa [parts] using hparts
  obtain ⟨⟨hlegal₁, hlegal₂⟩, hsingle, hlegal₃, hlegal₄, hlegal₅⟩ := hlegal
  refine answers_production.mpr (accepts_forHead hs hx hopen fun s₁ h₁ => ?_)
  rw [if_pos hvar.1]
  have hdecls : parser.Answers .varDeclarationList
      { s₁ with regs := { s₁.regs with allowsIn := false } } _ :=
    answers_production.mpr (accepts_last.mpr (hrest none none 0 hdeclared
      (s := { s₁ with regs := { s₁.regs with allowsIn := false } }) h₁.stream
      (h₁.error.trans herror) hlegal₁ hlegal₂ hvar hname hspans₁ hspans₂ nofun))
  obtain ⟨r, s', hreturns, ⟨hr, hlength, -⟩, h'⟩ := hdecls
  refine accepts_withoutIn (r := r) (h₁.allowsIn.trans hin) ⟨r, s', hreturns, rfl, h'⟩
    fun s₂ h₂ => accepts_hasError ?_
  have h₁₂ := h₁.trans h₂
  rw [h₁₂.error, herror]
  refine accepts_pure_bind (accepts_isToken ?_)
  have hstandard : 1 < r.declarations ∨ decide (s₂.token.type = .semicolon) = true := by
    cases rest with
    | noDecls =>
        have ht := hsingle rfl
        rw [token_eq h₂.stream, hskipped.1, ht]
        exact Or.inr rfl
    | moreDecls name' init' rest' =>
        refine Or.inl ?_
        rw [hlength]
        show 1 < 0 + 1 + (List.length rest'.build + 1)
        omega
  rw [if_pos hstandard]
  refine accepts_standardForLoop htest hupdate hbody h₂.stream (h₁₂.error.trans herror)
    (h₁₂.allowsIn.trans hin) hlegal₃ hlegal₄ hlegal₅ hskipped hskipped.2.2 hspans₃ hsemicolon
    hspans₄ hclose hspans₅ fun s₃ h₃ => ⟨?_, ?_⟩
  · rw [hr]
    rfl
  · exact (h₁₂.trans h₃).cast (by simp [lexemes]) (by simp [Calm, and_assoc])

theorem takenAsStatement_forInVar (hdeclared : declared.TakenAsInit)
    (hright : right.TakenAsExpression) (hbody : body.TakenAsStatement) :
    (forInVar name declared right body).TakenAsStatement := by
  intro a b s hspans hs herror hlegal hin
  obtain ⟨hparts, -⟩ := spans_iff.mp hspans
  obtain ⟨n₁, hx, n₂, hopen, n₃, hvar, n₄, hname, n₅, hspans₁, n₆, hy, n₇, hspans₂, n₈, hclose,
    hspans₃⟩ := by simpa [parts] using hparts
  obtain ⟨hlegal₁, hlegal₂, hlegal₃⟩ := hlegal
  refine answers_production.mpr (accepts_forHead hs hx hopen fun s₁ h₁ => ?_)
  rw [if_pos hvar.1]
  have hnone : noDecls.Spans n₅ n₅ :=
    spans_iff.mpr ⟨.nil, show n₅.token.type ≠ .comma by rw [hy.1]; decide⟩
  have hdecls : parser.Answers .varDeclarationList
      { s₁ with regs := { s₁.regs with allowsIn := false } } _ :=
    answers_production.mpr (accepts_last.mpr (takenAsDecls_none none none 0 hdeclared
      (s := { s₁ with regs := { s₁.regs with allowsIn := false } }) h₁.stream
      (h₁.error.trans herror) hlegal₁ trivial hvar hname hspans₁ hnone nofun))
  obtain ⟨r, s', hreturns, ⟨-, hlength, hlast⟩, h'⟩ := hdecls
  obtain ⟨hident, hinitializer⟩ := hlast rfl
  refine accepts_withoutIn (r := r) (h₁.allowsIn.trans hin) ⟨r, s', hreturns, rfl, h'⟩
    fun s₂ h₂ => accepts_hasError ?_
  have h₁₂ := h₁.trans h₂
  rw [h₁₂.error, herror]
  refine accepts_pure_bind (accepts_isToken ?_)
  have hnotStandard : ¬ (1 < r.declarations ∨ decide (s₂.token.type = .semicolon) = true) := by
    have hzero : List.length noDecls.build = 0 := rfl
    rw [hlength, hzero, token_eq h₂.stream, hy.1]
    decide
  rw [if_neg hnotStandard]
  obtain ⟨s₃, hnext, h₃⟩ := arrives_next h₂.stream hy hy.2
  refine accepts_consume (token_eq h₂.stream ▸ hy.1) hnext ?_
  have h₁₃ := h₁₂.trans h₃
  refine accepts_forInRest (f := fun expr statement =>
    return Builder.createForInVar r.lastIdent r.lastInitializer expr statement) hright hbody
    h₃.stream (h₁₃.error.trans herror) (h₁₃.allowsIn.trans hin) hlegal₂ hlegal₃ hspans₂ hclose
    hspans₃ fun s₄ h₄ => accepts_pure ⟨?_, ?_⟩
  · rw [hident, hinitializer, Option.or_none]
    rfl
  · exact (h₁₃.trans h₄).cast (by simp [lexemes]) (by simp [Calm])

end Loops

end Phrase

end HammerJS
