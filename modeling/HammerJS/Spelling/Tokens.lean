import HammerJS.Reflect.LexSafety
import HammerJS.Spelling.Numbers

/-!
# What a token call reads

The switch of `lex` case by case, the jumps between its labels, and then `lex` itself:
the gap before a token, and the token's own text.

* `Punctuates` — a rule for the nested tests on the characters of a punctuator.
* `Lexer.Tells` — what the switch has read when it is left.
* `Lexer.lex_reads` — what one call of `lex` has read.
* `lexing_partitions` — the calls cut the source into gaps and tokens.
-/

namespace HammerJS

open Procs

/-! ## The longest punctuator -/

/-- The characters that make a longer punctuator, or the start of one, out of `text`. -/
def followers (text : List Char) : List Char :=
  punctuators.filterMap fun p => if text <+: p.1 then p.1[text.length]? else none

theorem identifierOfChars_append (text text' : List Char) :
    identifierOfChars (text ++ text') = identifierOfChars text ++ identifierOfChars text' := by
  simp [identifierOfChars]

/-- Texts of characters that code units tell apart. -/
theorem identifierOfChars_prefix {text text' : List Char} (h : ∀ c ∈ text, c.toNat < 65536)
    (h' : ∀ c ∈ text', c.toNat < 65536) (hp : identifierOfChars text <+: identifierOfChars text') :
    text <+: text' := by
  induction text generalizing text' with
  | nil => exact List.nil_prefix
  | cons c text ih =>
      cases text' with
      | nil => simp [identifierOfChars] at hp
      | cons c' text' =>
          simp only [identifierOfChars, List.map_cons, List.cons_prefix_cons] at hp
          have hc := h c (by simp)
          have hc' := h' c' (by simp)
          have heq : c = c' := by
            have h := congrArg UInt16.toNat hp.1
            simp only [Nat.toUInt16_eq, UInt16.toNat_ofNat', Nat.mod_eq_of_lt hc,
              Nat.mod_eq_of_lt hc'] at h
            exact Char.toNat_inj.mp h
          rw [heq, List.cons_prefix_cons]
          exact ⟨rfl, ih (fun c h₁ => h c (by simp [h₁])) (fun c h₁ => h' c (by simp [h₁])) hp.2⟩

theorem punctuators_small (p : List Char × JSTokenType) (hp : p ∈ punctuators) :
    ∀ c ∈ p.1, c.toNat < 65536 := by
  have hall : ∀ p ∈ punctuators, (p.1.all fun c => decide (c.toNat < 65536)) = true := by decide
  exact List.all_iff_forall_prop.mp (hall p hp)

/-- A punctuator is the longest if none of its followers comes next. -/
theorem longest_of_next {text : List Char} {following : List UChar}
    (htext : ∀ c ∈ text, c.toNat < 65536)
    (h : ∀ c ∈ followers text, codeUnit following ≠ chr c) :
    ∀ p ∈ punctuators, identifierOfChars p.1 <+: identifierOfChars text ++ following →
      p.1.length ≤ text.length := by
  intro p hp hpre
  by_contra hlong
  rw [not_le] at hlong
  -- the punctuator is the text, one more character, and the rest
  have hlen : (identifierOfChars text).length = text.length := by simp [identifierOfChars]
  have hpre : text <+: p.1 := by
    refine identifierOfChars_prefix htext (punctuators_small p hp) ?_
    refine List.prefix_of_prefix_length_le (List.prefix_append _ following) hpre ?_
    simp only [identifierOfChars, List.length_map]
    omega
  obtain ⟨more, hmore⟩ := hpre
  cases more with
  | nil =>
      rw [List.append_nil] at hmore
      rw [hmore] at hlong
      omega
  | cons c more =>
      refine h c ?_ ?_
      · refine List.mem_filterMap.mpr ⟨p, hp, ?_⟩
        rw [if_pos ⟨_, hmore⟩, ← hmore]
        simp
      · rw [← hmore, identifierOfChars_append, List.prefix_append_right_inj] at hpre
        obtain ⟨rest, hrest⟩ := hpre
        have hc := punctuators_small p hp c (by rw [← hmore]; simp)
        rw [← hrest]
        simp [identifierOfChars, codeUnit, chr, Nat.mod_eq_of_lt hc]

namespace Lexer

/-- A known character, `n` places further on. -/
theorem code_drop_chr {l : Lexer} {n : Nat} {c : Char} (h : codeUnit (l.code.drop n) = chr c) :
    l.code.drop n = c.toNat.toUInt16 :: l.code.drop (n + 1) := by
  obtain ⟨u, hu, hcode⟩ := code_drop (p := (· == chr c))
    (by simp only [chr, beq_eq_false_iff_ne]; omega) (beq_iff_eq.mpr h)
  have hcu : c.toNat = u.toNat := Int.ofNat_inj.mp (h.symm.trans hu)
  have : c.toNat.toUInt16 = u := by simp [hcu]
  rw [this]
  exact hcode

/-! ## The switch -/

/-- From `l` to `l'` the lexer has read `text`; the flags may have changed. -/
structure Passes (l : Lexer) (text : List UChar) (l' : Lexer) : Prop where
  valid : l'.Valid
  codeStart : l'.codeStart = l.codeStart
  lastToken : l'.lastToken = l.lastToken
  buffer8 : l'.buffer8 = l.buffer8
  buffer16 : l'.buffer16 = l.buffer16
  code : l.code = text ++ l'.code

theorem Takes.passes {l l' : Lexer} {text : List UChar} (h : Takes l text l') : Passes l text l' :=
  ⟨h.valid, h.codeStart, h.lastToken, h.buffer8, h.buffer16, h.code⟩

/-- What the switch, started in `l`, has read when it is left in `l'`: the text of a token,
a gap, or the start of a comment. -/
def Tells [Platform] (lexType : LexType) (l l' : Lexer) : Exit → Prop
  | .done t data => t ≠ .errorTok → ∃ text, Scans l text l' ∧ text ≠ [] ∧
      ∀ old : JSTokenData, Spells lexType l'.code text t (data.getD old)
  | .start => ∃ text, Passes l text l' ∧
      ∀ gap b, Gap l'.atLineStart gap b → Gap l.atLineStart (text ++ gap) b
  | .inSingleLineComment => ∃ text more opener, Takes l text l' ∧
      opener ∈ lineCommentOpeners l.atLineStart ∧ text ++ more = identifierOfChars opener ∧
        more <+: l'.code ∧ ∀ c ∈ identifierOfChars opener, isLineTerminator c.toNat = false
  | .returnToken t => t = .semicolon ∧ Restricted l.lastToken ∧ ∃ text,
      LineBreak l.atLineStart text ∧ text ≠ [] ∧ Passes l text l' ∧ l'.atLineStart = true
  | .returnError => True

/-- The rest `x` of a case tells what was read, after `text` and none of `no`. -/
def Punctuates [Platform] (lexType : LexType) (text no : List Char) (x : LexM Exit) : Prop :=
  ∀ l₀ l, Takes l₀ (identifierOfChars text) l → (∀ c ∈ no, l.current ≠ chr c) →
    Yields x l fun exit l' => Tells lexType l₀ l' exit

section Punctuators

variable [Platform] {lexType : LexType} {text no : List Char}

theorem tells_punctuator (text : List Char) {t : JSTokenType} {data : Option JSTokenData}
    {l l' : Lexer} (h : (text, t) ∈ punctuators) (hl : Scans l (identifierOfChars text) l')
    (hno : ∀ c ∈ followers text, l'.current ≠ chr c) : Tells lexType l l' (.done t data) := by
  have hall : ∀ p ∈ punctuators, p.1 ≠ [] := by decide
  have hne := hall _ h
  have hsmall := punctuators_small _ h
  refine fun _ => ⟨_, hl, by simpa [identifierOfChars] using hne,
    fun _ => .punctuator h (longest_of_next hsmall fun c hc => ?_)⟩
  rw [← show l'.current = codeUnit l'.code from hl.valid]
  exact hno c hc

theorem Punctuates.done {t : JSTokenType} {data : Option JSTokenData}
    (h : (text, t) ∈ punctuators) (hno : followers text ⊆ no) :
    Punctuates lexType text no (return .done t data) := fun _ _ hl hcurrent =>
  (yields_pure _).mpr (tells_punctuator _ h hl.scans fun c hc => hcurrent c (hno hc))

theorem Punctuates.ifNext {c : Char} {x y : LexM Exit}
    (hx : Punctuates lexType (text ++ [c]) [] x) (hy : Punctuates lexType text (c :: no) y) :
    Punctuates lexType text no (ifNext c x y) := by
  intro l₀ l hl hcurrent
  simp only [Lexer.ifNext, yields_bind, yields_getCurrent, yields_ite, yields_shift]
  split
  case isTrue heq =>
    intro _
    refine hx l₀ _ ?_ (by simp)
    rw [identifierOfChars_append]
    exact hl.trans (hl.valid.shift_chr heq)
  case isFalse hne =>
    refine hy l₀ l hl fun d hd => ?_
    rcases List.mem_cons.mp hd with rfl | hd
    · exact hne
    · exact hcurrent d hd

theorem Punctuates.start {c : Char} {x : LexM Exit} (hx : Punctuates lexType [c] [] x) {l : Lexer}
    (hv : l.Valid) (hcurrent : l.current = chr c) :
    Yields (do shift; x) l fun exit l' => Tells lexType l l' exit := by
  simp only [yields_bind, yields_shift]
  intro _
  exact hx l _ (hv.shift_chr hcurrent) (by simp)

variable {l : Lexer} (hv : l.Valid)

include hv

theorem lexGreater_tells (h : l.current = chr '>') :
    Yields lexGreater l fun exit l' => Tells lexType l l' exit := by
  refine Punctuates.start (.ifNext
    (.ifNext (.ifNext (.done ?_ ?_) (.done ?_ ?_)) (.ifNext (.done ?_ ?_) (.done ?_ ?_)))
    (.ifNext (.done ?_ ?_) (.done ?_ ?_))) hv h <;> decide

theorem lexEqual_tells (h : l.current = chr '=') :
    Yields lexEqual l fun exit l' => Tells lexType l l' exit := by
  refine Punctuates.start (.ifNext (.ifNext (.done ?_ ?_) (.done ?_ ?_)) (.done ?_ ?_)) hv h <;> decide

theorem lexLess_tells (h : l.current = chr '<') :
    Yields lexLess l fun exit l' => Tells lexType l l' exit := by
  refine Punctuates.start (fun l₀ l₁ h₁ hno => ?_) hv h
  simp only [yields_bind, yields_getCurrent, yields_peek, yields_ite]
  split
  case isTrue hopen =>
    refine (yields_pure _).mpr ⟨_, identifierOfChars ['!', '-', '-'], ['<', '!', '-', '-'], h₁,
      by simp [lineCommentOpeners], rfl, ?_, List.all_iff_forall_prop.mp (by decide)⟩
    obtain ⟨h0, h1, h2⟩ := hopen
    have hcurrent : l₁.current = codeUnit (l₁.code.drop 0) := h₁.valid
    rw [hcurrent] at h0
    have e0 := code_drop_chr h0
    rw [List.drop_zero] at e0
    rw [e0, code_drop_chr h1, code_drop_chr h2]
    exact ⟨_, rfl⟩
  case isFalse =>
    have hrest : Punctuates lexType ['<'] [] (ifNext '<'
        (ifNext '=' (token .lshiftEqual) (token .lshift))
        (ifNext '=' (token .le) (token .lt))) := by
      refine .ifNext (.ifNext (.done ?_ ?_) (.done ?_ ?_)) (.ifNext (.done ?_ ?_) (.done ?_ ?_))
        <;> decide
    exact hrest l₀ l₁ h₁ hno

theorem lexExclamationMark_tells (h : l.current = chr '!') :
    Yields lexExclamationMark l fun exit l' => Tells lexType l l' exit := by
  refine Punctuates.start (.ifNext (.ifNext (.done ?_ ?_) (.done ?_ ?_)) (.done ?_ ?_)) hv h <;> decide

theorem lexAdd_tells (h : l.current = chr '+') :
    Yields lexAdd l fun exit l' => Tells lexType l l' exit := by
  have hrest : Punctuates lexType ['+'] ['+'] (ifNext '=' (token .plusEqual) (token .plus)) := by
    refine .ifNext (.done ?_ ?_) (.done ?_ ?_) <;> decide
  refine Punctuates.start (.ifNext (fun l₀ l₁ h₁ hno => ?_) hrest) hv h
  simp only [yields_bind, yields_get]
  have hplus : ∀ t, (['+', '+'], t) ∈ punctuators →
      Yields (token t) l₁ fun exit l' => Tells lexType l₀ l' exit :=
    fun t ht => Punctuates.done ht (by decide) l₀ l₁ h₁ hno
  split
  case isTrue => exact hplus _ (by decide)
  case isFalse => exact hplus _ (by decide)

theorem lexSub_tells (h : l.current = chr '-') :
    Yields lexSub l fun exit l' => Tells lexType l l' exit := by
  have hrest : Punctuates lexType ['-'] ['-'] (ifNext '=' (token .minusEqual) (token .minus)) := by
    refine .ifNext (.done ?_ ?_) (.done ?_ ?_) <;> decide
  refine Punctuates.start (.ifNext (fun l₀ l₁ h₁ hno => ?_) hrest) hv h
  simp only [yields_bind, yields_get, yields_getCurrent, yields_ite, yields_shift]
  split
  case isTrue hopen =>
    intro _
    refine (yields_pure _).mpr ⟨_, [], ['-', '-', '>'], h₁.trans (h₁.valid.shift_chr hopen.2), ?_,
      rfl, List.nil_prefix, List.all_iff_forall_prop.mp (by decide)⟩
    rw [← h₁.atLineStart, hopen.1]
    decide
  case isFalse =>
    have hminus : ∀ t, (['-', '-'], t) ∈ punctuators →
        Yields (token t) l₁ fun exit l' => Tells lexType l₀ l' exit :=
      fun t ht => Punctuates.done ht (by decide) l₀ l₁ h₁ hno
    split
    case isTrue => exact hminus _ (by decide)
    case isFalse => exact hminus _ (by decide)

theorem lexMultiply_tells (h : l.current = chr '*') :
    Yields lexMultiply l fun exit l' => Tells lexType l l' exit := by
  refine Punctuates.start (.ifNext (.done ?_ ?_) (.done ?_ ?_)) hv h <;> decide

theorem lexSlash_tells (h : l.current = chr '/') :
    Yields lexSlash l fun exit l' => Tells lexType l l' exit := by
  have hrest : Punctuates lexType ['/'] ['*', '/']
      (ifNext '=' (token .divEqual) (token .divide)) := by
    refine .ifNext (.done ?_ ?_) (.done ?_ ?_) <;> decide
  refine Punctuates.start (.ifNext (fun l₀ l₁ h₁ hno => ?_)
    (.ifNext (fun l₀ l₁ h₁ hno => ?_) hrest)) hv h
  · exact (yields_pure _).mpr ⟨_, [], ['/', '/'], h₁, by simp [lineCommentOpeners], rfl,
      List.nil_prefix, List.all_iff_forall_prop.mp (by decide)⟩
  · simp only [yields_bind, yields_bound, yields_ite]
    refine (parseMultilineComment_takes _ h₁.valid).mono fun ok l₂ h => ?_
    split
    case isTrue hok =>
      obtain ⟨body, h₂, hbody⟩ := h hok
      refine (yields_pure _).mpr ⟨_, (h₁.trans h₂).passes, fun gap b hgap => ?_⟩
      rw [(h₁.trans h₂).atLineStart] at hgap
      exact .comment ⟨body, by rw [List.append_assoc]; rfl, hbody⟩ hgap
    case isFalse => exact (yields_pure _).mpr trivial

theorem lexAnd_tells (h : l.current = chr '&') :
    Yields lexAnd l fun exit l' => Tells lexType l l' exit := by
  refine Punctuates.start (.ifNext (.done ?_ ?_) (.ifNext (.done ?_ ?_) (.done ?_ ?_))) hv h <;> decide

theorem lexXor_tells (h : l.current = chr '^') :
    Yields lexXor l fun exit l' => Tells lexType l l' exit := by
  refine Punctuates.start (.ifNext (.done ?_ ?_) (.done ?_ ?_)) hv h <;> decide

theorem lexModulo_tells (h : l.current = chr '%') :
    Yields lexModulo l fun exit l' => Tells lexType l l' exit := by
  refine Punctuates.start (.ifNext (.done ?_ ?_) (.done ?_ ?_)) hv h <;> decide

theorem lexOr_tells (h : l.current = chr '|') :
    Yields lexOr l fun exit l' => Tells lexType l l' exit := by
  refine Punctuates.start (.ifNext (.done ?_ ?_) (.ifNext (.done ?_ ?_) (.done ?_ ?_))) hv h <;> decide

theorem lexSingle_tells {c : Char} {t : JSTokenType} (h : l.current = chr c)
    (ht : ([c], t) ∈ punctuators) (hno : followers [c] = []) :
    Yields (lexSingle t) l fun exit l' => Tells lexType l l' exit :=
  Punctuates.start (.done ht (by simp [hno])) hv h

theorem lexBrace_tells {c : Char} {t : JSTokenType} (h : l.current = chr c)
    (ht : ([c], t) ∈ punctuators) (hno : followers [c] = []) :
    Yields (lexBrace t) l fun exit l' => Tells lexType l l' exit := by
  simp only [lexBrace, yields_bind, yields_currentOffset]
  simpa only [yields_bind] using Punctuates.start (.done ht (by simp [hno])) hv h

end Punctuators

theorem ReadsNumber.tells [Platform] {lexType : LexType} {l l' : Lexer} {exit : Exit}
    (h : ReadsNumber l exit l') : Tells lexType l l' exit := by
  obtain ⟨text, rest, -, -, h⟩ := h
  split at h
  · rw [h]
    trivial
  · obtain ⟨d, rfl, hscan, h, -⟩ := h
    obtain ⟨q, hnumber⟩ := numberText_of_scan hscan
    exact fun _ => ⟨text, h, hnumber.ne_nil, fun _ => .number hnumber⟩

theorem lexQuote_tells [Platform] {lexType : LexType} {l : Lexer} (hv : l.Valid)
    (hbuffer : l.buffer16 = []) (h : l.current = chr '"' ∨ l.current = chr '\'') :
    Yields lexQuote l fun exit l' => Tells lexType l l' exit := by
  simp only [lexQuote, yields_bind]
  refine (parseString_scans hv hbuffer).mono ?_
  rintro (_ | value) l₁ hstring
  · exact (yields_pure _).mpr trivial
  · obtain ⟨quote, text, hquote, h₁, hend, hchars⟩ := hstring value rfl
    simp only [yields_bind, yields_shift]
    intro hne
    obtain ⟨c, hc, h₂⟩ := h₁.valid.shift hne
    have hc : c = quote := UInt16.toNat_inj.mp (Int.ofNat_inj.mp (hc.symm.trans hend))
    subst hc
    rw [hquote] at h
    exact (yields_pure _).mpr fun _ => ⟨_, h₁.trans h₂.scans, by simp, fun _ => .string h hchars⟩

theorem lexIdentifier_tells [Platform] {lexType : LexType} {l : Lexer} (hv : l.Valid)
    (hbuffer : l.buffer16 = [])
    (hfirst : isIdentStart l.current = true ∨ l.current = chr '\\') :
    Yields (lexIdentifier lexType) l fun exit l' => Tells lexType l l' exit := by
  simp only [lexIdentifier, yields_bind]
  refine (parseIdentifier_scans hv hbuffer hfirst).mono ?_
  rintro ⟨t, _ | name⟩ l₁ ⟨hnone, hsome⟩
  · exact (yields_pure _).mpr fun ht => absurd (hnone rfl) ht
  · obtain ⟨text, escaped, h₁, hne, hparts, rfl⟩ := hsome name rfl
    exact (yields_pure _).mpr fun _ => ⟨text, h₁, hne, fun _ => .identifier hparts hne⟩

/-- A prefix without the character that comes after `q` ends before that. -/
theorem prefix_of_prefix_append {α : Type} {p q r : List α} (h : p <+: q ++ r)
    (hr : ∀ c, r.head? = some c → c ∉ p) : p <+: q := by
  rcases Nat.le_total p.length q.length with hlen | hlen
  · exact List.prefix_of_prefix_length_le h (List.prefix_append q r) hlen
  · obtain ⟨t, rfl⟩ := List.prefix_of_prefix_length_le (List.prefix_append q r) h hlen
    rw [List.prefix_append_right_inj] at h
    obtain ⟨s, rfl⟩ := h
    cases t with
    | nil => simp
    | cons c t => exact absurd (by simp) (hr c rfl)

/-- What ends a line, after a comment or directly. -/
theorem endLine_tells [Platform] {lexType : LexType} {l₀ l : Lexer} {comment : List UChar}
    (h : Takes l₀ comment l) (hc : comment = [] ∨ LineComment l₀.atLineStart comment) :
    Yields endLine l fun exit l' => Tells lexType l₀ l' exit ∧ exit ≠ .inSingleLineComment := by
  simp only [endLine, yields_bind, yields_modify, yields_lastTokenWasRestrKeyword, yields_ite]
  refine (shiftLineTerminator_takes h.valid).mono ?_
  rintro _ l₁ ⟨eol, heol, h₁⟩
  have h₂ := h.trans h₁
  have h₃ : Passes l₀ (comment ++ eol) { l₁ with atLineStart := true, terminator := true } :=
    ⟨h₂.valid, h₂.codeStart, h₂.lastToken, h₂.buffer8, h₂.buffer16, h₂.code⟩
  split
  case isTrue hlast =>
    refine (yields_pure _).mpr ⟨⟨rfl, ?_, _, ⟨comment, eol, rfl, hc, heol⟩, ?_, h₃, rfl⟩, by simp⟩
    · rw [← h₂.lastToken]
      simpa [Restricted, or_assoc] using hlast
    · simp [heol.ne_nil]
  case isFalse =>
    refine (yields_pure _).mpr ⟨⟨_, h₃, fun gap b hgap => ?_⟩, by simp⟩
    rcases hc with rfl | hc
    · exact .line heol hgap
    · exact .lineComment hc heol hgap

/-- What the label `inSingleLineComment` reads. -/
theorem inSingleLineComment_tells [Platform] {lexType : LexType} {l l₁ : Lexer}
    (h : Tells lexType l l₁ .inSingleLineComment) :
    Yields inSingleLineComment l₁ fun r l' => ∀ exit ∈ r,
      Tells lexType l l' exit ∧ exit ≠ .inSingleLineComment := by
  obtain ⟨text, more, opener, h₁, hopener, htext, hmore, hlines⟩ := h
  simp only [inSingleLineComment, yields_bind, yields_bound, yields_getCurrent, yields_ite]
  refine (whileShift_takes h₁.valid _).mono ?_
  rintro _ l₂ ⟨rest, h₂, hrest, hend⟩
  split
  case isTrue => exact (yields_pure _).mpr (by simp)
  case isFalse hne =>
    have hterm : isLineTerminator l₂.current = true := by simpa [hne] using hend
    have hcomment : LineComment l.atLineStart (text ++ rest) := by
      refine ⟨opener, hopener, ?_, fun c hc => ?_⟩
      · rw [← htext, List.prefix_append_right_inj]
        rw [h₂.code] at hmore
        refine prefix_of_prefix_append hmore fun c hc hmem => ?_
        have hline := hlines c (by rw [← htext]; simp [hmem])
        rw [← h₂.valid.current_of_head hc, hterm] at hline
        cases hline
      · rcases List.mem_append.mp hc with hc | hc
        · exact hlines c (by rw [← htext]; simp [hc])
        · have := hrest c hc
          simp only [Bool.and_eq_true, Bool.not_eq_true'] at this
          exact this.1
    refine (@endLine_tells _ lexType _ _ _ (h₁.trans h₂) (Or.inr hcomment)).mono fun exit l' h => ?_
    refine (yields_pure _).mpr ?_
    rintro _ ⟨rfl⟩
    exact h

/-- The one character of a type. -/
def onlyCharacter : CharacterType → Option Char
  | .greater => '>'
  | .equal => '='
  | .less => '<'
  | .exclamationMark => '!'
  | .add => '+'
  | .sub => '-'
  | .multiply => '*'
  | .slash => '/'
  | .and => '&'
  | .xor => '^'
  | .modulo => '%'
  | .or => '|'
  | .openParen => '('
  | .closeParen => ')'
  | .openBracket => '['
  | .closeBracket => ']'
  | .comma => ','
  | .colon => ':'
  | .question => '?'
  | .tilde => '~'
  | .semicolon => ';'
  | .openBrace => '{'
  | .closeBrace => '}'
  | .dot => '.'
  | .zero => '0'
  | .backSlash => '\\'
  | _ => none

theorem asciiType_only {c : Int} (h : isASCII c = true) {d : Char}
    (hd : onlyCharacter (asciiType c) = some d) : c = chr d := by
  have hall : ∀ n < 128,
      (onlyCharacter (asciiType (n : Nat))).all (fun d => (n : Int) == chr d) = true := by
    decide +kernel
  simp only [isASCII, Bool.and_eq_true, decide_eq_true_eq] at h
  obtain ⟨n, rfl⟩ := Int.eq_ofNat_of_zero_le h.1
  have hn := hall n (by omega)
  rw [hd, Option.all_some] at hn
  exact beq_iff_eq.mp hn

/-- The digits other than zero, and the quotes. -/
theorem asciiType_several {c : Int} (h : isASCII c = true) :
    (asciiType c = .number → isASCIIDigit c = true ∧ c ≠ chr '0') ∧
      (asciiType c = .quote → c = chr '"' ∨ c = chr '\'') := by
  have hall : ∀ n < 128, (asciiType (n : Nat) = .number →
      isASCIIDigit (n : Nat) = true ∧ (n : Int) ≠ chr '0') ∧
      (asciiType (n : Nat) = .quote → (n : Int) = chr '"' ∨ (n : Int) = chr '\'') := by
    decide +kernel
  simp only [isASCII, Bool.and_eq_true, decide_eq_true_eq] at h
  obtain ⟨n, rfl⟩ := Int.eq_ofNat_of_zero_le h.1
  exact hall n (by omega)

/-- What the switch has read when it is left. -/
theorem lexSwitch_tells [Platform] {lexType : LexType} {l : Lexer} (hv : l.Valid)
    (h8 : l.buffer8 = []) (h16 : l.buffer16 = []) :
    Yields (lexSwitch lexType (characterType l.current)) l fun exit l' =>
      Tells lexType l l' exit := by
  have hline : Yields lexLineTerminator l fun exit l' => Tells lexType l l' exit := by
    simp only [lexLineTerminator, yields_bind, yields_getCurrent, yields_assert]
    exact fun _ => (endLine_tells (Takes.refl hv) (Or.inl rfl)).mono fun _ _ h => h.1
  cases hascii : isASCII l.current with
  | false =>
      simp only [characterType, hascii, Bool.false_eq_true, if_false]
      split
      case isTrue => exact hline
      case isFalse => exact (yields_pure _).mpr trivial
  | true =>
      obtain ⟨hnumber, hquote⟩ := asciiType_several hascii
      have honly := @asciiType_only _ hascii
      simp only [characterType, hascii, if_true]
      cases htype : asciiType l.current with
      | greater => exact lexGreater_tells hv (honly (by rw [htype]; rfl))
      | equal => exact lexEqual_tells hv (honly (by rw [htype]; rfl))
      | less => exact lexLess_tells hv (honly (by rw [htype]; rfl))
      | exclamationMark => exact lexExclamationMark_tells hv (honly (by rw [htype]; rfl))
      | add => exact lexAdd_tells hv (honly (by rw [htype]; rfl))
      | sub => exact lexSub_tells hv (honly (by rw [htype]; rfl))
      | multiply => exact lexMultiply_tells hv (honly (by rw [htype]; rfl))
      | slash => exact lexSlash_tells hv (honly (by rw [htype]; rfl))
      | and => exact lexAnd_tells hv (honly (by rw [htype]; rfl))
      | xor => exact lexXor_tells hv (honly (by rw [htype]; rfl))
      | modulo => exact lexModulo_tells hv (honly (by rw [htype]; rfl))
      | or => exact lexOr_tells hv (honly (by rw [htype]; rfl))
      | openParen | closeParen | openBracket | closeBracket | comma | colon | question | tilde
      | semicolon =>
          exact lexSingle_tells hv (honly (by rw [htype]; rfl)) (by decide) (by decide)
      | openBrace | closeBrace =>
          exact lexBrace_tells hv (honly (by rw [htype]; rfl)) (by decide) (by decide)
      | dot =>
          refine (lexDot_reads hv h8 (honly (by rw [htype]; rfl))).mono fun exit l' h => ?_
          split at h
          · exact h.tells
          · obtain ⟨rfl, h⟩ := h
            exact tells_punctuator ['.'] (by decide) h (by simp [show followers ['.'] = [] by decide])
      | zero =>
          exact (lexZero_reads hv h8 (honly (by rw [htype]; rfl))).mono fun _ _ h => h.tells
      | number =>
          exact (lexNumber_first_reads hv h8 (hnumber htype).1 (hnumber htype).2).mono
            fun _ _ h => h.tells
      | quote => exact lexQuote_tells hv h16 (hquote htype)
      | identifierStart =>
          simp only [lexSwitch, yields_bind, yields_getCurrent, yields_assert]
          exact fun h => lexIdentifier_tells hv h16 (Or.inl h)
      | backSlash => exact lexIdentifier_tells hv h16 (Or.inr (honly (by rw [htype]; rfl)))
      | lineTerminator => exact hline
      | invalid => exact (yields_pure _).mpr trivial
      | whiteSpace => exact (yields_throw _).mpr trivial

/-! ## One call -/

theorem Gap.spaces {b b' : Bool} {spaces gap : List UChar}
    (hs : ∀ c ∈ spaces, isWhiteSpace (UInt16.toNat c) = true) (h : Gap b gap b') :
    Gap b (spaces ++ gap) b' := by
  induction spaces with
  | nil => exact h
  | cons c spaces ih => exact .space (hs c (by simp)) (ih fun d hd => hs d (by simp [hd]))

/-- The text of a token, and the state after it. -/
structure TokenText [Platform] (lexType : LexType) (l : Lexer) (b : Bool) (text : List UChar)
    (t : JSToken) (l' : Lexer) : Prop where
  ne_nil : text ≠ []
  lastToken : l'.lastToken = some t.type
  spelled : Spells lexType l'.code text t.type t.data ∧ l'.atLineStart = false ∨
    t.type = .semicolon ∧ Restricted l.lastToken ∧ LineBreak b text ∧ l'.atLineStart = true

/-- What a call that starts in `l` and answers the token `t` has read: a gap, and the text of
the token. -/
structure TokenRead [Platform] (lexType : LexType) (l : Lexer) (gap text : List UChar)
    (t : JSToken) (l' : Lexer) : Prop where
  codeStart : l'.codeStart = l.codeStart
  code : l.code = gap ++ text ++ l'.code
  start : t.info.startOffset = l.codeStart.length - l.code.length + gap.length
  stop : t.info.endOffset = l.codeStart.length - l'.code.length
  token : ∃ b, Gap l.atLineStart gap b ∧ TokenText lexType l b text t l'

/-- A token behind more of a gap. -/
theorem TokenRead.after [Platform] {lexType : LexType} {l l' l'' : Lexer}
    {piece gap text : List UChar} {t : JSToken} (hlen : l.code.length ≤ l.codeStart.length)
    (h : Passes l piece l')
    (hgap : ∀ gap b, Gap l'.atLineStart gap b → Gap l.atLineStart (piece ++ gap) b)
    (h' : TokenRead lexType l' gap text t l'') : TokenRead lexType l (piece ++ gap) text t l'' := by
  obtain ⟨b, hb, htoken⟩ := h'.token
  have hcode := congrArg List.length h.code
  rw [List.length_append] at hcode
  refine ⟨h'.codeStart.trans h.codeStart, ?_, ?_, ?_, b, hgap gap b hb, htoken.ne_nil,
    htoken.lastToken, h.lastToken ▸ htoken.spelled⟩
  · rw [h.code, h'.code]
    simp
  · rw [h'.start, h.codeStart, List.length_append]
    omega
  · rw [h'.stop, h.codeStart]

/-- What follows the switch. -/
theorem afterSwitch_reads [Platform] {lexType : LexType} {old : JSToken} {n : Nat} {l l₁ : Lexer}
    {exit : Exit} (hlen : l.code.length ≤ l.codeStart.length)
    (again : ∀ {piece}, Passes l piece l₁ → Yields (lexFrom lexType old n) l₁ fun t l' =>
      t.type.isReal = true → ∃ gap text, TokenRead lexType l₁ gap text t l')
    (h : Tells lexType l l₁ exit) (hne : exit ≠ .inSingleLineComment) :
    Yields (match (some exit : Option Exit) with
      | none => return { old with type := .eofTok }
      | some (.done t data) => do
          modify fun l => { l with atLineStart := false }
          returnToken (l.codeStart.length - l.code.length) t (data.getD old.data)
      | some (.returnToken t) => returnToken (l.codeStart.length - l.code.length) t old.data
      | some .returnError => do
          modify fun l => { l with error := true }
          return { old with type := .errorTok }
      | some _ => lexFrom lexType old n) l₁ fun t l' => t.type.isReal = true →
        ∃ gap text, TokenRead lexType l gap text t l' := by
  cases exit with
  | inSingleLineComment => exact absurd rfl hne
  | start =>
      obtain ⟨piece, hpiece, hgap⟩ := h
      refine (again hpiece).mono fun t l' h' hreal => ?_
      obtain ⟨gap, text, hread⟩ := h' hreal
      exact ⟨piece ++ gap, text, hread.after hlen hpiece hgap⟩
  | returnError =>
      simp only [yields_bind, yields_modify]
      exact (yields_pure _).mpr fun h => by cases h
  | returnToken t =>
      obtain ⟨rfl, hlast, text, hbreak, hne, hpass, hline⟩ := h
      simp only [returnToken, yields_bind, yields_currentOffset, yields_modify, yields_get]
      refine (yields_pure _).mpr fun _ => ⟨[], text, hpass.codeStart, ?_, ?_, ?_,
        l.atLineStart, .nil, hne, rfl, Or.inr ⟨rfl, hlast, hbreak, hline⟩⟩
      · rw [List.nil_append]
        exact hpass.code
      · rfl
      · rw [hpass.codeStart]
  | done t data =>
      simp only [returnToken, yields_bind, yields_currentOffset, yields_modify, yields_get]
      refine (yields_pure _).mpr fun hreal => ?_
      have ht : t ≠ .errorTok := by
        rintro rfl
        cases hreal
      obtain ⟨text, hscan, hne, hspells⟩ := h ht
      refine ⟨[], text, hscan.codeStart, ?_, ?_, ?_, l.atLineStart, .nil, hne, rfl,
        Or.inl ⟨hspells old.data, rfl⟩⟩
      · rw [List.nil_append]
        exact hscan.code
      · rfl
      · rw [hscan.codeStart]

theorem lexFrom_reads [Platform] {lexType : LexType} {old : JSToken} (n : Nat) {l : Lexer}
    (hv : l.Valid) (h8 : l.buffer8 = []) (h16 : l.buffer16 = [])
    (hlen : l.code.length ≤ l.codeStart.length) :
    Yields (lexFrom lexType old n) l fun t l' => t.type.isReal = true →
      ∃ gap text, TokenRead lexType l gap text t l' := by
  induction n generalizing l with
  | zero => simp [lexFrom]
  | succ n ih =>
      simp only [lexFrom, yields_bind, yields_bound, yields_currentOffset, yields_getCurrent,
        yields_ite]
      refine (whileShift_takes hv _).mono ?_
      rintro _ l₁ ⟨spaces, h₁, hspaces, -⟩
      have hlen₁ : l₁.code.length ≤ l₁.codeStart.length := by
        have := congrArg List.length h₁.code
        rw [List.length_append] at this
        rw [h₁.codeStart]
        omega
      have hread : ∀ {t l'}, (t.type.isReal = true → ∃ gap text, TokenRead lexType l₁ gap text t l') →
          t.type.isReal = true → ∃ gap text, TokenRead lexType l gap text t l' := by
        intro t l' h hreal
        obtain ⟨gap, text, h⟩ := h hreal
        refine ⟨spaces ++ gap, text, h.after hlen h₁.passes fun gap b hgap => ?_⟩
        exact Gap.spaces hspaces (h₁.atLineStart ▸ hgap)
      have again : ∀ {piece l₂}, Passes l₁ piece l₂ → Yields (lexFrom lexType old n) l₂ fun t l' =>
          t.type.isReal = true → ∃ gap text, TokenRead lexType l₂ gap text t l' := by
        intro piece l₂ h₂
        have := congrArg List.length h₂.code
        rw [List.length_append] at this
        exact ih h₂.valid (h₂.buffer8.trans (h₁.buffer8.trans h8))
          (h₂.buffer16.trans (h₁.buffer16.trans h16)) (by rw [h₂.codeStart]; omega)
      split
      case isTrue => exact (yields_pure _).mpr fun h => by cases h
      case isFalse =>
      refine (lexSwitch_tells (h₁.valid) (h₁.buffer8.trans h8) (h₁.buffer16.trans h16)).mono
        fun exit l₂ h₂ => ?_
      split
      case isFalse hcomment =>
        refine (yields_pure _).mpr ?_
        exact (afterSwitch_reads hlen₁ again h₂ hcomment).mono fun _ _ h => hread h
      case isTrue hcomment =>
        subst hcomment
        refine (inSingleLineComment_tells h₂).mono ?_
        rintro (_ | exit) l₃ h₃
        · exact (yields_pure _).mpr fun h => by cases h
        · obtain ⟨h₃, hne⟩ := h₃ exit rfl
          exact (afterSwitch_reads hlen₁ again h₃ hne).mono fun _ _ h => hread h

/-- What one call of `lex` has read. -/
theorem lex_reads [Platform] {lexType : LexType} {old : JSToken} {l : Lexer} (hi : l.Idle)
    (hlen : l.code.length ≤ l.codeStart.length) :
    Yields (lex lexType old) l fun t l' => t.type.isReal = true →
      ∃ gap text, TokenRead lexType l gap text t l' := by
  simp only [lex, yields_bind, yields_get, yields_assert, yields_modify, yields_bound]
  intro _
  refine (lexFrom_reads _ (l := { l with terminator := false }) hi.valid hi.buffer8 hi.buffer16
    hlen).mono fun t l' h hreal => ?_
  obtain ⟨gap, text, hread⟩ := h hreal
  obtain ⟨b, hb, htoken⟩ := hread.token
  exact ⟨gap, text, hread.codeStart, hread.code, hread.start, hread.stop, b, hb, htoken.ne_nil,
    htoken.lastToken, htoken.spelled⟩

end Lexer

/-! ## Runs of calls -/

open Lexer

/-- Calls of `lex`, one after another, that all return a token. -/
inductive LexRun [Platform] : Lexer → List (LexType × JSToken) → Lexer → Prop
  | nil {l : Lexer} : LexRun l [] l
  | cons {l l' l'' : Lexer} {lexType : LexType} {old t : JSToken} {ts : List (LexType × JSToken)}
      (h : lex lexType old l = .ok (t, l')) (hreal : t.type.isReal = true)
      (hrest : LexRun l' ts l'') : LexRun l ((lexType, t) :: ts) l''

/-- The calls cut the text that is left into gaps and tokens. -/
theorem LexRun.partition [Platform] {l l' : Lexer} {ts : List (LexType × JSToken)}
    (h : LexRun l ts l') (hi : l.Idle) (hlen : l.code.length ≤ l.codeStart.length) :
    Partition l.lastToken l.atLineStart (l.codeStart.length - l.code.length) ts l.code l'.code ∧
      ∀ last ∈ ts.getLast?, last.2.info.endOffset = l.codeStart.length - l'.code.length := by
  induction h with
  | nil => exact ⟨.done, by simp⟩
  | @cons l l₁ l₂ lexType old t ts h hreal hrest ih =>
      obtain ⟨gap, text, hread⟩ := (lex_reads hi hlen).of_eq h hreal
      have hlexed := (lex_succeeds lexType old hi).of_eq h
      have hi₁ := hlexed.idle (by rintro ht; rw [ht] at hreal; cases hreal) hi
      obtain ⟨b, hgap, htoken⟩ := hread.token
      have hcode := congrArg List.length hread.code
      simp only [List.length_append] at hcode
      have hne : 0 < text.length := List.length_pos_iff.mpr htoken.ne_nil
      obtain ⟨hpart, hlast⟩ := ih hi₁ (by rw [hread.codeStart]; omega)
      have hstart := hread.start
      have hstop := hread.stop
      rw [hread.codeStart] at hpart hlast
      rw [htoken.lastToken, ← hstop] at hpart
      have hend : t.info.endOffset = t.info.startOffset + text.length := by omega
      constructor
      · generalize l.codeStart.length - l.code.length = offset at hstart ⊢
        rw [hread.code]
        rcases htoken.spelled with ⟨hspells, hline⟩ | ⟨htype, hrestricted, hbreak, hline⟩
        · rw [hline] at hpart
          exact .token hgap hspells hstart hend (by omega) hpart
        · rw [hline] at hpart
          exact .semicolon hgap hrestricted htype hbreak hstart hend (by omega) hpart
      · cases hrest with
        | nil => simpa using hstop
        | cons _ _ _ => simpa using hlast

/-- **Lexing partitions the source**: the tokens of any run of calls, each with either type,
stand one behind the other with only gaps between them; their offsets say where; each has
the text of its type; and the last of them ends where the lexer stands. -/
theorem lexing_partitions [Platform] (source : List UChar) (ts : List (LexType × JSToken))
    (l : Lexer) (h : LexRun (setCode source) ts l) :
    Partition none true 0 ts source l.code ∧
      ∀ last ∈ ts.getLast?, last.2.info.endOffset = source.length - l.code.length := by
  obtain ⟨hpart, hlast⟩ := h.partition ⟨rfl, rfl, rfl, rfl⟩ le_rfl
  refine ⟨?_, hlast⟩
  rw [show (setCode source).codeStart.length - (setCode source).code.length = 0 from
    Nat.sub_self _] at hpart
  exact hpart

/-- The two tokens of `a ;`. -/
theorem lexing_partitions_two :
    @Partition exactPlatform none true 0
      [(.identifyReservedWords, ⟨.ident, .ident (identifierOfChars ['a']), ⟨1, 0, 1⟩⟩),
        (.ignoreReservedWords, ⟨.semicolon, .unset, ⟨1, 2, 3⟩⟩)]
      (identifierOfChars ['a', ' ', ';']) [] := by
  let _ : Platform := exactPlatform
  let old : JSToken := ⟨.eofTok, .unset, ⟨0, 0, 0⟩⟩
  let l : Lexer := setCode (identifierOfChars ['a', ' ', ';'])
  let l₁ : Lexer := { l with
    code := l.code.drop 1, current := chr ' ', lastToken := some .ident, atLineStart := false }
  let l₂ : Lexer := { l₁ with code := [], current := -1, lastToken := some .semicolon }
  have h₁ : lex .identifyReservedWords old l =
      .ok (⟨.ident, .ident (identifierOfChars ['a']), ⟨1, 0, 1⟩⟩, l₁) := rfl
  have h₂ : lex .ignoreReservedWords old l₁ = .ok (⟨.semicolon, .unset, ⟨1, 2, 3⟩⟩, l₂) := rfl
  exact (lexing_partitions _ _ _ (.cons h₁ rfl (.cons h₂ rfl .nil))).1

end HammerJS
