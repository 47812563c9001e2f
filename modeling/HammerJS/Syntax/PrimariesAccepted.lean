import HammerJS.Syntax.Arrives
import HammerJS.Syntax.ExpressionsParsed

/-!
# The productions accept primary expressions

`parsePrimaryExpression` and the productions for literals, argument lists and functions, over
the phrases that they should accept, where they do so of the parts.
-/

namespace HammerJS

open Procs Machine Lexer Parse

variable [Platform]

/-! ## Tokens -/

section Primary

variable {s : ParserState} {a b m : Stream} {Q : Node → ParserState → Prop}

/-- Every expression that does not start with `function` is read by `parsePrimaryExpression`. -/
theorem accepts_primary (hs : s.stream = a) (ht : a.token.type ≠ .function)
    (h : Accepts parsePrimaryExpression s Q) : Accepts parseMemberBase s Q :=
  accepts_noMatch hs ht (accepts_lastOrFail (answers_production.mpr h))

/-- A regular expression, behind the token that starts it. -/
theorem accepts_regExp {patternPrefix : Option UChar} {pattern flags : Identifier}
    (hs : s.stream = a) (hx : (Lexeme.regExp patternPrefix pattern flags).Step a b)
    (hf : ∀ s', Arrives s [.regExp patternPrefix pattern flags] True b s' →
      Q (Builder.createRegex pattern flags) s') : Accepts (parseRegExp patternPrefix) s Q := by
  subst hs
  obtain ⟨lexer, hscan, hn⟩ := hx.2.2
  have hstep : parserStep (.scanRegExp patternPrefix) s =
      .ok (some (pattern, flags), { s with lexer }) := by
    have hscan : scanRegExp patternPrefix s.lexer = .ok (some (pattern, flags), lexer) := hscan
    simp only [parserStep, hscan]
    rfl
  have hnext := next_of_stream (s := { s with lexer }) hn
  refine accepts_command hstep (accepts_next hnext (accepts_pure (hf _ ?_)))
  exact ⟨⟨⟨⟨b, hx, rfl⟩, rfl, le_rfl, iff_of_true rfl trivial, rfl⟩, rfl⟩, rfl, rfl⟩

end Primary

namespace Phrase

/-- The expression is one that `parseMemberExpression` starts with. -/
def TakenAsBase (e : Phrase .expr) : Prop :=
  e.head ≠ .new ∧ e.TakenBy (fun allowsIn _ => allowsIn = true) e.build (Accepts parseMemberBase)

section Tokens

/-- A single token. -/
theorem takenAsBase_token {e : Phrase .expr} {x : Lexeme} (hparts : e.parts = [.inl x])
    (hcalm : e.Calm) (hhead : e.head ≠ .new) (ht : x.type ≠ .function)
    (h : ∀ {s : ParserState} {a b : Stream} {Q : Node → ParserState → Prop}, s.stream = a →
      x.Step a b → (∀ s', Arrives s [x] True b s' → Q e.build s') →
        Accepts parsePrimaryExpression s Q) : e.TakenAsBase := by
  refine ⟨hhead, ?_⟩
  intro a b s hspans hs _ _ _
  have hspansParts := (spans_iff.mp hspans).1
  rw [hparts, spansParts_token] at hspansParts
  obtain ⟨m, hx, hm⟩ := hspansParts
  rw [spansParts_nil] at hm
  subst hm
  refine accepts_primary hs (hx.type ▸ ht) (h hs hx fun s' h' => ⟨rfl, h'.cast ?_ ?_⟩)
  · rw [lexemes_eq, hparts]
    rfl
  · simp [hcalm]

theorem takenAsBase_this : this.TakenAsBase := by
  refine takenAsBase_token rfl trivial (by decide) (by decide) fun hs hx hf => ?_
  refine accepts_tokenType ?_
  rw [token_eq hs, hx.1]
  exact accepts_skip hs hx fun s' h => accepts_pure (hf s' h)

theorem takenAsBase_resolve (name : Identifier) : (resolve name).TakenAsBase := by
  refine takenAsBase_token rfl trivial (by simp [head, parts, Lexeme.type])
    (by simp [Lexeme.type]) fun hs hx hf => ?_
  refine accepts_tokenType ?_
  rw [token_eq hs, hx.1]
  refine accepts_tokenData (accepts_read hs hx hx.2.2 fun s' h => accepts_pure ?_)
  rw [token_eq hs, hx.2.1]
  exact hf s' h

theorem takenAsBase_string (value : Identifier) : (string value).TakenAsBase := by
  refine takenAsBase_token rfl trivial (by simp [head, parts, Lexeme.type])
    (by simp [Lexeme.type]) fun hs hx hf => ?_
  refine accepts_tokenType ?_
  rw [token_eq hs, hx.1]
  refine accepts_tokenData (accepts_read hs hx hx.2.2 fun s' h => accepts_pure ?_)
  rw [token_eq hs, hx.2.1]
  exact hf s' h

theorem takenAsBase_number (value : Double) : (number value).TakenAsBase := by
  refine takenAsBase_token rfl trivial (by simp [head, parts, Lexeme.type])
    (by simp [Lexeme.type]) fun hs hx hf => ?_
  refine accepts_tokenType ?_
  rw [token_eq hs, hx.1]
  refine accepts_tokenData (accepts_read hs hx hx.2.2 fun s' h => accepts_pure ?_)
  rw [token_eq hs, hx.2.1]
  exact hf s' h

theorem takenAsBase_null : null.TakenAsBase := by
  refine takenAsBase_token rfl trivial (by decide) (by decide) fun hs hx hf => ?_
  refine accepts_tokenType ?_
  rw [token_eq hs, hx.1]
  exact accepts_skip hs hx fun s' h => accepts_pure (hf s' h)

theorem takenAsBase_boolean (value : Bool) : (boolean value).TakenAsBase := by
  refine takenAsBase_token rfl trivial (by cases value <;> decide) (by cases value <;> decide)
    fun hs hx hf => ?_
  refine accepts_tokenType ?_
  rw [token_eq hs, hx.1]
  cases value with
  | true => exact accepts_skip hs hx fun s' h => accepts_pure (hf s' h)
  | false => exact accepts_skip hs hx fun s' h => accepts_pure (hf s' h)

theorem takenAsBase_regExp (patternPrefix : Option UChar) (pattern flags : Identifier) :
    (regExp patternPrefix pattern flags).TakenAsBase := by
  refine takenAsBase_token rfl trivial ?_ ?_ fun hs hx hf => ?_
  · cases patternPrefix <;> simp [head, parts, Lexeme.type]
  · cases patternPrefix <;> simp [Lexeme.type]
  · refine accepts_tokenType ?_
    rw [token_eq hs, hx.1]
    cases patternPrefix with
    | none => exact accepts_regExp hs hx fun s' h => hf s' h
    | some c =>
        have hc : c = '='.toNat.toUInt16 := hx.2.1 c rfl
        subst hc
        exact accepts_regExp hs hx fun s' h => hf s' h

end Tokens

/-! ## Parentheses -/

theorem takenAsBase_paren {e : Phrase .expr} (he : e.TakenAsExpression) :
    (paren e).TakenAsBase := by
  refine ⟨by simp [head, parts, Lexeme.type], ?_⟩
  intro a b s hspans hs herror hlegal hin
  obtain ⟨hparts, -⟩ := spans_iff.mp hspans
  obtain ⟨n₁, hopen, n₂, hinner, hclose⟩ := by simpa [parts] using hparts
  refine accepts_primary hs (by rw [hopen.1]; decide) (accepts_tokenType ?_)
  rw [token_eq hs, hopen.1]
  refine accepts_skip hs hopen fun s₁ h₁ => accepts_nonLHSCount ?_
  have hin₁ := h₁.allowsIn.trans hin
  have hends : Ends 0 s₁.regs.allowsIn n₂.token.type := by
    rw [hclose.1, hin₁]
    exact ends_of_none rfl
  obtain ⟨node, s₂, hreturns, rfl, h₂⟩ :=
    he hinner h₁.stream (h₁.error.trans herror) (hin₁ ▸ hlegal) hends
  refine accepts_parse hreturns (accepts_setNonLHSCount ?_)
  refine accepts_consumeMark h₂.restore.stream hclose fun s₃ h₃ => accepts_pure ⟨rfl, ?_⟩
  exact ((h₁.trans h₂.restore).trans h₃).cast (by simp [lexemes]) (by simp [Calm])

/-! ## Arrays -/

section Arrays

variable {s : ParserState} {a b m : Stream}

/-- The loop over consecutive commas. -/
theorem elisions_answer {elisions : Nat} (k : Nat) (hs : s.stream = a)
    (hreads : Reads (elisionLexemes elisions) a m) (ht : m.token.type ≠ .comma) :
    parser.Answers (.elisionsLoop k) s fun r s' =>
      r = k + elisions ∧ Arrives s (elisionLexemes elisions) True m s' := by
  induction elisions generalizing k s a with
  | zero =>
      have ham : a = m := hreads
      subst ham
      exact answers_production.mpr (accepts_noMatch hs ht (accepts_pure ⟨rfl, .refl hs⟩))
  | succ n ih =>
      obtain ⟨a₁, hx, hrest⟩ := hreads
      refine answers_production.mpr (accepts_match hs hx.1 ?_)
      refine accepts_skip hs hx fun s₁ h₁ => accepts_last.mpr ?_
      refine (ih (k + 1) h₁.stream hrest).mono ?_
      rintro _ s₂ ⟨rfl, h₂⟩
      exact ⟨Nat.succ_add_eq_add_succ k n, (h₁.trans h₂).cast rfl (by simp)⟩

/-- What an element starts with. -/
theorem element_start {e : Phrase .expr} (hspans : e.Spans a b) :
    a.token.type ≠ .comma ∧ a.token.type ≠ .closeBracket := by
  have hstarts := e.head_starts
  rw [← hspans.head] at hstarts
  constructor <;> intro h <;> rw [h] at hstarts <;> cases hstarts

/-- What follows an element. -/
theorem elements_start {rest : Phrase .elements} (hspans : rest.Spans a b) :
    a.token.type = .closeBracket ∨ a.token.type = .comma := by
  cases rest with
  | noElements => exact Or.inl (hspans.first rfl)
  | trailingElisions elisions => exact Or.inr (hspans.first rfl)
  | moreElements elisions e rest => exact Or.inr (hspans.first rfl)

theorem elements_end {rest : Phrase .elements} (hspans : rest.Spans a b) {allowsIn : Bool} :
    Ends 1 allowsIn a.token.type := by
  rcases elements_start hspans with h | h
  · rw [h]
    exact ends_other rfl
  · rw [h]
    exact ends_of_some rfl (by omega)

end Arrays

theorem takenAsBase_emptyArray (elisions : Nat) : (emptyArray elisions).TakenAsBase := by
  refine ⟨by simp [head, parts, Lexeme.type], ?_⟩
  intro a b s hspans hs herror hlegal hin
  obtain ⟨hparts, -⟩ := spans_iff.mp hspans
  obtain ⟨n₁, hopen, n₂, hcommas, hclose⟩ := by simpa [parts] using hparts
  refine accepts_primary hs (by rw [hopen.1]; decide) (accepts_tokenType ?_)
  rw [token_eq hs, hopen.1]
  refine accepts_last.mpr (answers_production.mpr ?_)
  refine accepts_consumeMark hs hopen fun s₁ h₁ => accepts_orNull.mpr ?_
  have hend : n₂.token.type ≠ .comma := by rw [hclose.1]; decide
  refine (elisions_answer 0 h₁.stream hcommas hend).mono ?_
  rintro _ s₂ ⟨-, h₂⟩
  refine accepts_match h₂.stream hclose.1 ?_
  refine accepts_skip h₂.stream hclose fun s₃ h₃ => accepts_pure ⟨rfl, ?_⟩
  exact ((h₁.trans h₂).trans h₃).cast (by simp [lexemes]) (by simp [Calm])

theorem takenAsBase_array {elisions : Nat} {first : Phrase .expr} {rest : Phrase .elements}
    (hfirst : first.TakenAsAssignment) (hrest : rest.TakenAsElements) :
    (array elisions first rest).TakenAsBase := by
  refine ⟨by simp [head, parts, Lexeme.type], ?_⟩
  intro a b s hspans hs herror hlegal hin
  obtain ⟨hparts, -⟩ := spans_iff.mp hspans
  obtain ⟨n₁, hopen, n₂, hcommas, n₃, hspans₁, hspans₂⟩ := by simpa [parts] using hparts
  refine accepts_primary hs (by rw [hopen.1]; decide) (accepts_tokenType ?_)
  rw [token_eq hs, hopen.1]
  refine accepts_last.mpr (answers_production.mpr ?_)
  refine accepts_consumeMark hs hopen fun s₁ h₁ => accepts_orNull.mpr ?_
  refine (elisions_answer 0 h₁.stream hcommas (element_start hspans₁).1).mono ?_
  rintro _ s₂ ⟨-, h₂⟩
  refine accepts_noMatch h₂.stream (element_start hspans₁).2 (accepts_orFail ?_)
  have h₁₂ := h₁.trans h₂
  have hin₂ := h₁₂.allowsIn.trans hin
  refine (hfirst hspans₁ h₂.stream (h₁₂.error.trans herror) (hin₂ ▸ hlegal.1)
    ⟨hlegal.2.1, elements_end hspans₂⟩).mono ?_
  rintro _ s₃ ⟨rfl, h₃⟩
  have h₁₃ := h₁₂.trans h₃
  have hin₃ := h₁₃.allowsIn.trans hin
  refine accepts_last.mpr ((hrest (Builder.createElementList first.build) hspans₂ h₃.stream
    (h₁₃.error.trans herror) (hin₃ ▸ hlegal.2.2) hin₃).mono ?_)
  rintro _ s₄ ⟨rfl, h₄⟩
  exact ⟨rfl, (h₁₃.trans h₄).cast (by simp [lexemes]) (by simp [Calm])⟩

theorem takenAsElements_none : noElements.TakenAsElements := by
  intro list a b s hspans hs herror hlegal hin
  obtain ⟨hparts, -⟩ := spans_iff.mp hspans
  have hclose : (Lexeme.mark .closeBracket).Step a b := by simpa [parts] using hparts
  refine answers_production.mpr (accepts_noMatch hs (by rw [hclose.1]; decide) ?_)
  refine accepts_consumeMark hs hclose fun s₁ h₁ => accepts_pure ⟨?_, h₁⟩
  rw [build, appendAll_nil]

theorem takenAsElements_elisions (elisions : Nat) :
    (trailingElisions elisions).TakenAsElements := by
  intro list a b s hspans hs herror hlegal hin
  obtain ⟨hparts, -⟩ := spans_iff.mp hspans
  obtain ⟨n₁, hcomma, n₂, hcommas, hclose⟩ := by simpa [parts] using hparts
  refine answers_production.mpr (accepts_match hs hcomma.1 ?_)
  refine accepts_skip hs hcomma fun s₁ h₁ => accepts_orNull.mpr ?_
  have hend : n₂.token.type ≠ .comma := by rw [hclose.1]; decide
  refine (elisions_answer 0 h₁.stream hcommas hend).mono ?_
  rintro _ s₂ ⟨-, h₂⟩
  refine accepts_match h₂.stream hclose.1 ?_
  refine accepts_skip h₂.stream hclose fun s₃ h₃ => accepts_pure ⟨?_, ?_⟩
  · rw [build, appendAll_nil]
  · exact ((h₁.trans h₂).trans h₃).cast (by simp [lexemes]) (by simp [Calm])

theorem takenAsElements_more {elisions : Nat} {e : Phrase .expr} {rest : Phrase .elements}
    (he : e.TakenAsAssignment) (hrest : rest.TakenAsElements) :
    (moreElements elisions e rest).TakenAsElements := by
  intro list a b s hspans hs herror hlegal hin
  obtain ⟨hparts, -⟩ := spans_iff.mp hspans
  obtain ⟨n₁, hcomma, n₂, hcommas, n₃, hspans₁, hspans₂⟩ := by simpa [parts] using hparts
  refine answers_production.mpr (accepts_match hs hcomma.1 ?_)
  refine accepts_skip hs hcomma fun s₁ h₁ => accepts_orNull.mpr ?_
  refine (elisions_answer 0 h₁.stream hcommas (element_start hspans₁).1).mono ?_
  rintro _ s₂ ⟨-, h₂⟩
  refine accepts_noMatch h₂.stream (element_start hspans₁).2 (accepts_orFail ?_)
  have h₁₂ := h₁.trans h₂
  have hin₂ := h₁₂.allowsIn.trans hin
  refine (he hspans₁ h₂.stream (h₁₂.error.trans herror) (hin₂ ▸ hlegal.1.1)
    ⟨hlegal.1.2, elements_end hspans₂⟩).mono ?_
  rintro _ s₃ ⟨rfl, h₃⟩
  have h₁₃ := h₁₂.trans h₃
  have hin₃ := h₁₃.allowsIn.trans hin
  refine accepts_last.mpr ((hrest (Builder.appendElement list e.build) hspans₂ h₃.stream
    (h₁₃.error.trans herror) (hin₃ ▸ hlegal.2) hin₃).mono ?_)
  rintro _ s₄ ⟨rfl, h₄⟩
  refine ⟨?_, (h₁₃.trans h₄).cast (by simp [lexemes]) (by simp [Calm])⟩
  rw [build]
  exact congrArg (fun list => Builder.createArray (some list)) (appendAll_append list _ _)

/-! ## Arguments -/

theorem takenAsArguments_none : noArgs.TakenAsArguments := by
  intro a b s hspans hs herror hlegal hin
  obtain ⟨hparts, -⟩ := spans_iff.mp hspans
  obtain ⟨n, hopen, hclose⟩ := by simpa [parts] using hparts
  refine answers_production.mpr (accepts_consumeMark hs hopen fun s₁ h₁ => ?_)
  refine accepts_match h₁.stream hclose.1 ?_
  refine accepts_skip h₁.stream hclose fun s₂ h₂ => accepts_pure ⟨rfl, ?_⟩
  exact (h₁.trans h₂).cast rfl (by simp [Calm])

/-- What stands between the expressions of a list. -/
theorem exprs_end {rest : Phrase .exprs} {a b : Stream} {allowsIn : Bool} (hspans : rest.Spans a b)
    (hb : Ends 0 allowsIn b.token.type) : Ends 1 allowsIn a.token.type := by
  cases rest with
  | noExprs =>
      obtain ⟨hparts, -⟩ := spans_iff.mp hspans
      rw [spansParts_nil.mp hparts]
      exact hb.mono (by omega)
  | moreExprs e rest =>
      have ht : a.token.type = .comma := hspans.first rfl
      rw [ht]
      exact ends_of_some rfl (by omega)

theorem takenAsArguments_some {first : Phrase .expr} {rest : Phrase .exprs}
    (hfirst : first.TakenAsAssignment) (hrest : rest.TakenAsExprs) :
    (arguments first rest).TakenAsArguments := by
  intro a b s hspans hs herror hlegal hin
  obtain ⟨hparts, -⟩ := spans_iff.mp hspans
  obtain ⟨n₁, hopen, n₂, hspans₁, n₃, hspans₂, hclose⟩ := by simpa [parts] using hparts
  have hstart : n₁.token.type ≠ .closeParen := by
    have hstarts := first.head_starts
    rw [← hspans₁.head] at hstarts
    intro h
    rw [h] at hstarts
    cases hstarts
  have hend : Ends 0 true n₃.token.type := by
    rw [hclose.1]
    exact ends_other rfl
  refine answers_production.mpr (accepts_consumeMark hs hopen fun s₁ h₁ => ?_)
  refine accepts_noMatch h₁.stream hstart (accepts_orFail ?_)
  have hin₁ := h₁.allowsIn.trans hin
  refine (hfirst hspans₁ h₁.stream (h₁.error.trans herror) (hin₁ ▸ hlegal.1.1)
    ⟨hlegal.1.2, hin₁ ▸ exprs_end hspans₂ hend⟩).mono ?_
  rintro _ s₂ ⟨rfl, h₂⟩
  have h₁₂ := h₁.trans h₂
  have hin₂ := h₁₂.allowsIn.trans hin
  refine accepts_orNull.mpr ?_
  refine (hrest.arguments (Builder.createArgumentsList first.build) hspans₂ h₂.stream
    (h₁₂.error.trans herror) (hin₂ ▸ hlegal.2) (hin₂ ▸ hend)).mono ?_
  rintro _ s₃ ⟨rfl, h₃⟩
  refine accepts_consumeMark h₃.stream hclose fun s₄ h₄ => accepts_pure ⟨rfl, ?_⟩
  exact ((h₁₂.trans h₃).trans h₄).cast (by simp [lexemes]) (by simp [Calm])

theorem takenAsExprs_none : noExprs.TakenAsExprs := by
  constructor
  · intro list a b s hspans hs herror hlegal hends
    have hab := spansParts_nil.mp (spans_iff.mp hspans).1
    subst hab
    refine answers_production.mpr (accepts_noMatch hs hends.comma (accepts_pure ⟨?_, .refl hs⟩))
    rw [build, appendAll_nil]
  · intro list a b s hspans hs herror hlegal hends
    have hab := spansParts_nil.mp (spans_iff.mp hspans).1
    subst hab
    refine answers_production.mpr (accepts_noMatch hs hends.comma (accepts_pure ⟨?_, .refl hs⟩))
    rw [build, appendAll_nil]

/-- One expression more, for any loop over expressions with commas before them. -/
theorem accepts_exprsLoop {e : Phrase .expr} {rest : Phrase .exprs} {loop : Node → Parse Node}
    (he : e.TakenAsAssignment)
    (hrest : ∀ list : Node, rest.TakenBy (fun allowsIn t => Ends 0 allowsIn t)
      (list.appendAll rest.build) (Accepts (loop list))) (list : Node) :
    (moreExprs e rest).TakenBy (fun allowsIn t => Ends 0 allowsIn t)
      (list.appendAll (moreExprs e rest).build) (Accepts do
        if ← isToken .comma then
          next
          let e ← failIfNull (← parse .assignmentExpression)
          loop (list.append (some e))
        else return list) := by
  intro a b s hspans hs herror hlegal hends
  obtain ⟨hparts, -⟩ := spans_iff.mp hspans
  obtain ⟨n₁, hcomma, n₂, hspans₁, hspans₂⟩ := by simpa [parts] using hparts
  refine accepts_match hs hcomma.1 (accepts_skip hs hcomma fun s₁ h₁ => accepts_orFail ?_)
  have hin₁ := h₁.allowsIn
  refine (he hspans₁ h₁.stream (h₁.error.trans herror) (hin₁.symm ▸ hlegal.1.1)
    ⟨hlegal.1.2, exprs_end hspans₂ (hin₁.symm ▸ hends)⟩).mono ?_
  rintro _ s₂ ⟨rfl, h₂⟩
  have h₁₂ := h₁.trans h₂
  have hin₂ := h₁₂.allowsIn
  refine (hrest (list.append (some e.build)) hspans₂ h₂.stream (h₁₂.error.trans herror)
    (hin₂.symm ▸ hlegal.2) (hin₂.symm ▸ hends)).mono ?_
  rintro _ s₃ ⟨rfl, h₃⟩
  refine ⟨appendAll_append list e.build rest.build, ?_⟩
  exact (h₁₂.trans h₃).cast (by simp [lexemes]) (by simp [Calm])

theorem takenAsExprs_more {e : Phrase .expr} {rest : Phrase .exprs} (he : e.TakenAsAssignment)
    (hrest : rest.TakenAsExprs) : (moreExprs e rest).TakenAsExprs := by
  constructor
  · intro list a b s hspans hs herror hlegal hends
    refine answers_production.mpr (@accepts_exprsLoop _ e rest
      (fun list => parse (.argumentsLoop list) >>= fun r => orReturnNull r) he ?_ list
        a b s hspans hs herror hlegal hends)
    exact fun list _ _ _ h₁ h₂ h₃ h₄ h₅ =>
      accepts_last.mpr (hrest.arguments list h₁ h₂ h₃ h₄ h₅)
  · intro list a b s hspans hs herror hlegal hends
    refine answers_production.mpr (@accepts_exprsLoop _ e rest
      (fun list => parse (.commaLoop list) >>= fun r => orReturnNull r) he ?_ list
        a b s hspans hs herror hlegal hends)
    exact fun list _ _ _ h₁ h₂ h₃ h₄ h₅ => accepts_last.mpr (hrest.comma list h₁ h₂ h₃ h₄ h₅)

/-! ## Objects -/

theorem takenAsBase_emptyObject : emptyObject.TakenAsBase := by
  refine ⟨by decide, ?_⟩
  intro a b s hspans hs herror hlegal hin
  obtain ⟨hparts, -⟩ := spans_iff.mp hspans
  obtain ⟨n, hopen, hclose⟩ := by simpa [parts] using hparts
  refine accepts_primary hs (by rw [hopen.1]; decide) (accepts_tokenType ?_)
  rw [token_eq hs, hopen.1]
  refine accepts_last.mpr (answers_production.mpr (accepts_tokenData ?_))
  refine accepts_consumeMark hs hopen fun s₁ h₁ => accepts_match h₁.stream hclose.1 ?_
  refine accepts_skip h₁.stream hclose fun s₂ h₂ => accepts_pure ⟨rfl, ?_⟩
  exact (h₁.trans h₂).cast rfl (by simp [Calm])

section Objects

variable {s : ParserState} {a b m : Stream}

/-- What a property starts with. -/
theorem property_start {p : Phrase .prop} (hspans : p.Spans a b) :
    a.token.type ≠ .closeBrace := by
  obtain ⟨hparts, -⟩ := spans_iff.mp hspans
  cases p with
  | prop t name value =>
      obtain ⟨m, hkey, -⟩ := spansParts_token.mp hparts
      rw [hkey.1]
      rintro rfl
      rcases hkey.2.1 with h | h | h <;> revert h <;> decide
  | numericProp name value =>
      obtain ⟨m, hkey, -⟩ := spansParts_token.mp hparts
      rw [hkey.1]
      decide

/-- What follows a property. -/
theorem properties_end {rest : Phrase .props} {allowsIn : Bool} (hspans : rest.Spans a b)
    (hb : b.token.type = .closeBrace) : Ends 1 allowsIn a.token.type := by
  cases rest with
  | noProps =>
      rw [spansParts_nil.mp (spans_iff.mp hspans).1, hb]
      exact ends_other rfl
  | trailingComma =>
      have ht : a.token.type = .comma := hspans.first rfl
      rw [ht]
      exact ends_of_some rfl (by omega)
  | moreProps p rest =>
      have ht : a.token.type = .comma := hspans.first rfl
      rw [ht]
      exact ends_of_some rfl (by omega)

/-- A property that is a constant does not send the parser back. -/
theorem accepts_constant {β : Type} {Q : β → ParserState → Prop} {p : Phrase .prop}
    {x y : Parse β} (hy : Accepts y s Q) :
    Accepts (needsStrictCheck p.build >>= fun c => if c = true then x else y) s Q := by
  have hconstant : p.build.propertyType = .constant := by cases p <;> rfl
  refine accepts_bind.mpr (accepts_command (o := .syntaxAlreadyValidated) rfl (accepts_pure ?_))
  simp only [hconstant, ne_eq, not_true_eq_false, decide_false, Bool.and_false,
    Bool.false_eq_true, if_false]
  exact hy

end Objects

theorem takenAsBase_object {first : Phrase .prop} {rest : Phrase .props}
    (hfirst : first.TakenAsProperty) (hrest : rest.TakenAsProperties) :
    (object first rest).TakenAsBase := by
  refine ⟨by simp [head, parts, Lexeme.type], ?_⟩
  intro a b s hspans hs herror hlegal hin
  obtain ⟨hparts, -⟩ := spans_iff.mp hspans
  obtain ⟨n₁, hopen, n₂, hspans₁, n₃, hspans₂, hclose⟩ := by simpa [parts] using hparts
  refine accepts_primary hs (by rw [hopen.1]; decide) (accepts_tokenType ?_)
  rw [token_eq hs, hopen.1]
  refine accepts_last.mpr (answers_production.mpr (accepts_tokenData ?_))
  refine accepts_consumeMark hs hopen fun s₁ h₁ => ?_
  refine accepts_noMatch h₁.stream (property_start hspans₁) (accepts_orFail ?_)
  have hin₁ := h₁.allowsIn.trans hin
  refine (hfirst hspans₁ h₁.stream (h₁.error.trans herror) (hin₁ ▸ hlegal.1)
    ⟨hin₁, properties_end hspans₂ hclose.1⟩).mono ?_
  rintro _ s₂ ⟨rfl, h₂⟩
  have h₁₂ := h₁.trans h₂
  have hin₂ := h₁₂.allowsIn.trans hin
  refine accepts_constant (accepts_orNull.mpr ?_)
  refine (hrest (Builder.createPropertyList first.build) _ hspans₂ h₂.stream
    (h₁₂.error.trans herror) (hin₂ ▸ hlegal.2) ⟨hin₂, hclose.1⟩).mono ?_
  rintro _ s₃ ⟨rfl, h₃⟩
  refine accepts_consumeMark h₃.stream hclose fun s₄ h₄ => accepts_pure ⟨rfl, ?_⟩
  exact ((h₁₂.trans h₃).trans h₄).cast (by simp [lexemes]) (by simp [Calm])

theorem takenAsProperty_named {t : JSTokenType} {name : Identifier} {value : Phrase .expr}
    (hvalue : value.TakenAsAssignment) : (prop t name value).TakenAsProperty := by
  rintro a b s hspans hs herror hlegal ⟨hin, hends⟩
  obtain ⟨hparts, -⟩ := spans_iff.mp hspans
  obtain ⟨n₁, hkey, n₂, hcolon, hspans₁⟩ := by simpa [parts] using hparts
  have hnamed : ∀ wasIdent, Accepts (parseNamedProperty wasIdent) s fun node s' =>
      node = (prop t name value).build ∧
        Arrives s (prop t name value).lexemes (prop t name value).Calm b s' := by
    intro wasIdent
    refine accepts_tokenData (accepts_read hs hkey hkey.2.2.2 fun s₁ h₁ => ?_)
    refine accepts_match h₁.stream hcolon.1 ?_
    refine accepts_skip h₁.stream hcolon fun s₂ h₂ => accepts_orFail ?_
    have h₁₂ := h₁.trans h₂
    have hin₂ := h₁₂.allowsIn.trans hin
    refine (hvalue hspans₁ h₂.stream (h₁₂.error.trans herror) (hin₂ ▸ hlegal.1)
      ⟨hlegal.2, hin₂ ▸ hends⟩).mono ?_
    rintro _ s₃ ⟨rfl, h₃⟩
    refine accepts_pure ⟨?_, (h₁₂.trans h₃).cast rfl (by simp [Calm])⟩
    rw [token_eq hs, hkey.2.2.1]
    rfl
  have hnumber : t ≠ .number := by
    rintro rfl
    rcases hkey.2.1 with h | h | h <;> exact absurd h (by decide)
  refine answers_production.mpr (accepts_tokenType ?_)
  rw [token_eq hs, hkey.1]
  split
  case h_1 => exact hnamed true
  case h_2 => exact hnamed false
  case h_3 => exact absurd rfl hnumber
  case h_4 hident hstring _ =>
    refine accepts_failIfFalse ?_ (hnamed true)
    rcases hkey.2.1 with h | h | h
    · exact absurd h hident
    · exact absurd h hstring
    · exact h

theorem takenAsProperty_numeric {name : Double} {value : Phrase .expr}
    (hvalue : value.TakenAsAssignment) : (numericProp name value).TakenAsProperty := by
  rintro a b s hspans hs herror hlegal ⟨hin, hends⟩
  obtain ⟨hparts, -⟩ := spans_iff.mp hspans
  obtain ⟨n₁, hkey, n₂, hcolon, hspans₁⟩ := by simpa [parts] using hparts
  refine answers_production.mpr (accepts_tokenType ?_)
  rw [token_eq hs, hkey.1]
  refine accepts_tokenData (accepts_read hs hkey hkey.2.2 fun s₁ h₁ => ?_)
  refine accepts_consumeMark h₁.stream hcolon fun s₂ h₂ => accepts_orFail ?_
  have h₁₂ := h₁.trans h₂
  have hin₂ := h₁₂.allowsIn.trans hin
  refine (hvalue hspans₁ h₂.stream (h₁₂.error.trans herror) (hin₂ ▸ hlegal.1)
    ⟨hlegal.2, hin₂ ▸ hends⟩).mono ?_
  rintro _ s₃ ⟨rfl, h₃⟩
  refine accepts_pure ⟨?_, (h₁₂.trans h₃).cast rfl (by simp [Calm])⟩
  rw [token_eq hs, hkey.2.1]
  rfl

theorem takenAsProperties_none : noProps.TakenAsProperties := by
  rintro list startOffset a b s hspans hs herror hlegal ⟨hin, ht⟩
  have hab := spansParts_nil.mp (spans_iff.mp hspans).1
  subst hab
  refine answers_production.mpr (accepts_noMatch hs (by rw [ht]; decide) ?_)
  refine accepts_pure ⟨?_, .refl hs⟩
  rw [build, appendAll_nil]

theorem takenAsProperties_comma : trailingComma.TakenAsProperties := by
  rintro list startOffset a b s hspans hs herror hlegal ⟨hin, ht⟩
  obtain ⟨hparts, -⟩ := spans_iff.mp hspans
  have hcomma : (Lexeme.mark .comma).Step a b := by simpa [parts] using hparts
  refine answers_production.mpr (accepts_match hs hcomma.1 ?_)
  refine accepts_skip hs hcomma fun s₁ h₁ => accepts_match h₁.stream ht ?_
  refine accepts_pure ⟨?_, h₁⟩
  rw [build, appendAll_nil]

theorem takenAsProperties_more {p : Phrase .prop} {rest : Phrase .props}
    (hp : p.TakenAsProperty) (hrest : rest.TakenAsProperties) :
    (moreProps p rest).TakenAsProperties := by
  rintro list startOffset a b s hspans hs herror hlegal ⟨hin, ht⟩
  obtain ⟨hparts, -⟩ := spans_iff.mp hspans
  obtain ⟨n₁, hcomma, n₂, hspans₁, hspans₂⟩ := by simpa [parts] using hparts
  refine answers_production.mpr (accepts_match hs hcomma.1 ?_)
  refine accepts_skip hs hcomma fun s₁ h₁ => ?_
  refine accepts_noMatch h₁.stream (property_start hspans₁) (accepts_orFail ?_)
  have hin₁ := h₁.allowsIn.trans hin
  refine (hp hspans₁ h₁.stream (h₁.error.trans herror) (hin₁ ▸ hlegal.1)
    ⟨hin₁, properties_end hspans₂ ht⟩).mono ?_
  rintro _ s₂ ⟨rfl, h₂⟩
  have h₁₂ := h₁.trans h₂
  have hin₂ := h₁₂.allowsIn.trans hin
  refine accepts_constant (accepts_last.mpr ?_)
  refine (hrest (Builder.appendProperty p.build list) startOffset hspans₂ h₂.stream
    (h₁₂.error.trans herror) (hin₂ ▸ hlegal.2) ⟨hin₂, ht⟩).mono ?_
  rintro _ s₃ ⟨rfl, h₃⟩
  refine ⟨?_, (h₁₂.trans h₃).cast (by simp [lexemes]) (by simp [Calm])⟩
  rw [build]
  exact congrArg Sum.inl (appendAll_append list p.build rest.build)

end Phrase

end HammerJS
