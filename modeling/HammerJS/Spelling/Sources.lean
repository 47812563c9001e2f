import HammerJS.Reflect.ParserSafety
import HammerJS.Spelling.Tokens
import HammerJS.Syntax.Reads

/-!
# Lexemes in a source

Where the lexemes that a run of the parser moves over stand in the source.

* `Lexer.scanRegExp_scans` — what `scanRegExp` reads.
* `Lexeme.Text` — the text of a lexeme.
* `Cut` — a source cut into gaps and the texts of lexemes.
* `reads_cut` — what is read is cut so.
-/

namespace HammerJS

open Procs

/-! ## Regular expressions -/

namespace Lexer

/-- What the loop of `scanRegExp` reads and records. -/
theorem regExpLoop_scans (n : Nat) {escape brackets : Bool} {l : Lexer} (hv : l.Valid) :
    Yields (regExpLoop escape brackets n) l fun r l' => r = true →
      ∃ body, Scans l (body ++ identifierOfChars ['/']) l' ∧ RegExpChars escape brackets body ∧
        l'.buffer16 = l.buffer16 ++ body := by
  induction n generalizing escape brackets l with
  | zero => simp [regExpLoop]
  | succ n ih =>
      simp only [regExpLoop, yields_bind, yields_getCurrent, yields_ite, yields_clearBuffer16,
        yields_shift, yields_record16]
      split
      case isTrue => exact (yields_pure _).mpr (by simp)
      case isFalse hend =>
      intro hne
      obtain ⟨c, hc, hshift⟩ := hv.shift hne
      have hline : isLineTerminator c.toNat = false := by
        rw [hc] at hend
        simpa using hend
      split
      case isTrue hclose =>
        obtain ⟨hslash, hplain, hclass⟩ := hclose
        refine (yields_pure _).mpr fun _ => ⟨[], (hv.shift_chr hslash).scans, ?_, ?_⟩
        · rw [show escape = false by simpa using hplain, show brackets = false by simpa using hclass]
          exact .nil
        · simp [advance]
      case isFalse hopen =>
      intro _ _
      -- what follows the character, in the mode that it leads to
      have hrest : ∀ {escape' brackets'}, (∀ body, RegExpChars escape' brackets' body →
          RegExpChars escape brackets (c :: body)) →
          Yields (regExpLoop escape' brackets' n)
            { l.advance with buffer16 := l.advance.buffer16 ++ [l.current.toNat.toUInt16] }
            fun r l' => r = true → ∃ body, Scans l (body ++ identifierOfChars ['/']) l' ∧
              RegExpChars escape brackets body ∧ l'.buffer16 = l.buffer16 ++ body := by
        intro escape' brackets' hchars
        refine (ih (l := { l.advance with
          buffer16 := l.advance.buffer16 ++ [l.current.toNat.toUInt16] }) hshift.valid).mono ?_
        intro r l' h hr
        obtain ⟨body, hscan, hbody, hbuffer⟩ := h hr
        refine ⟨c :: body, (hshift.scans.record _).trans hscan, hchars body hbody, ?_⟩
        rw [hbuffer, hc, recorded_unit]
        simp [advance]
      have hunit : ∀ {d : Char}, l.current = chr d → ∀ body,
          c :: body = identifierOfChars [d] ++ body := by
        intro d hd body
        have hcd : d.toNat = c.toNat := Int.ofNat_inj.mp (hd.symm.trans hc)
        simp [identifierOfChars, hcd]
      split
      case isTrue hescape =>
        exact hrest fun body h => hescape ▸ .escaped hline h
      case isFalse hescape =>
      have hescape : escape = false := by simpa using hescape
      subst hescape
      split
      case isTrue h => exact hrest fun body hbody => hunit h body ▸ .openBracket hbody
      case isFalse hnotOpen =>
      split
      case isTrue h => exact hrest fun body hbody => hunit h body ▸ .closeBracket hbody
      case isFalse hnotClose =>
      split
      case isTrue h => exact hrest fun body hbody => hunit h body ▸ .backslash hbody
      case isFalse hnotEscape =>
        rw [hc] at hopen hnotOpen hnotClose hnotEscape
        refine hrest fun body hbody => .char hline ?_ (fun hslash => ?_) hbody
        · simpa using ⟨hnotOpen, hnotClose, hnotEscape⟩
        · simpa [hslash] using hopen

/-- A loop that records the characters of a class in `m_buffer16`. -/
theorem recordWhile16_scans {cond : Int → Bool} {l : Lexer} (hv : l.Valid) (n : Nat) :
    Yields (whileCurrent cond (do record16 (← getCurrent); shift) n) l fun _ l' =>
      ∃ text, Scans l text l' ∧ (∀ c ∈ text, cond (UInt16.toNat c) = true) ∧
        l'.buffer16 = l.buffer16 ++ text := by
  let I : Lexer → Prop := fun l' => ∃ text, Scans l text l' ∧
    (∀ c ∈ text, cond (UInt16.toNat c) = true) ∧ l'.buffer16 = l.buffer16 ++ text
  refine (whileCurrent_yields (I := I) ?_ n l ⟨[], (Takes.refl hv).scans, by simp, by simp⟩).mono
    fun _ _ h => h.1
  rintro l₁ ⟨text, h, hall, h16⟩ hc
  simp only [yields_bind, yields_getCurrent, yields_record16, yields_shift]
  intro _ _ hne
  obtain ⟨c, hcur, hshift⟩ := h.valid.shift hne
  refine ⟨text ++ [c], (h.trans hshift.scans).buffers l₁.buffer8 _, ?_, ?_⟩
  · intro d hd
    rcases List.mem_append.mp hd with hd | hd
    · exact hall d hd
    · rw [List.mem_singleton.mp hd, ← hcur]
      exact hc
  · simp [advance, h16, hcur]

/-- What `scanRegExp` reads, behind the token that turns out to start a regular expression. -/
theorem scanRegExp_scans {patternPrefix : Option UChar} {l : Lexer} (hv : l.Valid) :
    Yields (scanRegExp patternPrefix) l fun r l' => ∀ pattern flags, r = some (pattern, flags) →
      ∃ body, pattern = patternPrefix.toList ++ body ∧ RegExpChars false false body ∧
        RegExpFlags flags ∧ Scans l (body ++ identifierOfChars ['/'] ++ flags) l' := by
  have hpattern : ∀ {l₁ : Lexer}, Scans l [] l₁ → l₁.buffer16 = patternPrefix.toList →
      Yields scanPattern l₁ fun r l' => ∀ pattern flags, r = some (pattern, flags) →
        ∃ body, pattern = patternPrefix.toList ++ body ∧ RegExpChars false false body ∧
          RegExpFlags flags ∧ Scans l (body ++ identifierOfChars ['/'] ++ flags) l' := by
    intro l₁ h₁ hbuffer
    simp only [scanPattern, yields_bind, yields_bound, yields_ite, yields_get,
      yields_clearBuffer16]
    refine (regExpLoop_scans _ h₁.valid).mono fun ok l₂ h₂ => ?_
    split
    case isTrue => exact (yields_pure _).mpr (by simp)
    case isFalse hok =>
    obtain ⟨body, h₂, hbody, hpattern⟩ := h₂ (by simpa using hok)
    have h₂ := (h₁.trans h₂).buffers l₂.buffer8 []
    refine (recordWhile16_scans h₂.valid _).mono ?_
    rintro _ l₃ ⟨flags, h₃, hflags, hbuffer₃⟩
    refine (yields_pure _).mpr ?_
    rintro _ _ ⟨rfl⟩
    rw [hbuffer₃, hpattern, hbuffer]
    exact ⟨body, rfl, hbody, hflags, (h₂.trans h₃).buffers _ _⟩
  simp only [scanRegExp, yields_bind, yields_get, yields_assert, List.isEmpty_iff]
  intro hempty
  cases patternPrefix with
  | none =>
      exact hpattern (Takes.refl hv).scans hempty
  | some c =>
      simp only [yields_bind, yields_assert, yields_record16]
      intro _ _ _ _ _
      refine hpattern ((Takes.refl hv).scans.record _) ?_
      rw [hempty, recorded_unit]
      rfl

end Lexer

/-! ## Texts of lexemes -/

open Lexer

/-- The text of a regular expression, between its slashes and with its flags. -/
def RegExpText (pattern flags text : List UChar) : Prop :=
  text = identifierOfChars ['/'] ++ pattern ++ identifierOfChars ['/'] ++ flags ∧
    RegExpChars false false pattern ∧ RegExpFlags flags

/-- The text of a token that `following` stands behind, the data of which meet `p`. -/
def TokenSpelled [Platform] (following text : List UChar) (t : JSTokenType)
    (p : JSTokenData → Prop) : Prop :=
  (∃ lexType data, Spells lexType following text t data ∧ p data) ∨
    t = .semicolon ∧ ∃ lineStart, LineBreak lineStart text

/-- The text of a lexeme that `following` stands behind. -/
def Lexeme.Text [Platform] (following text : List UChar) : Lexeme → Prop
  | .mark t => t.isReal = true → TokenSpelled following text t fun _ => True
  | .ident name => TokenSpelled following text .ident (·.getIdent = name)
  | .string value => TokenSpelled following text .string (·.getIdent = value)
  | .number value | .numericKey value => TokenSpelled following text .number (·.getDouble = value)
  | .dot => TokenSpelled following text .dot fun _ => True
  | .regExp _ pattern flags => RegExpText pattern flags text
  | .key t name => TokenSpelled following text t (·.getIdent = name)
  | .skipped t name => t.isReal = true → TokenSpelled following text t (·.getIdent = name)

/-- A lexeme, where it stands in a source. -/
structure Spelling where
  lexeme : Lexeme
  /-- The source before it. -/
  before : List UChar
  text : List UChar

/-- What is left of a source, behind `before`, is cut into gaps and lexemes up to `rest`. -/
inductive Cut [Platform] : List UChar → List Spelling → List UChar → List UChar → Prop
  | nil {before rest : List UChar} : Cut before [] rest rest
  | cons {before gap text following rest : List UChar} {l : Lexeme} {ls : List Spelling}
      {b b' : Bool} (hgap : Gap b gap b') (htext : l.Text following text)
      (h : Cut (before ++ gap ++ text) ls following rest) :
      Cut before (⟨l, before ++ gap, text⟩ :: ls) (gap ++ text ++ following) rest

/-! ## What is read -/

section Reads

variable [Platform]

/-- The current token of a stream was read by a lexer that stood at `l`. -/
structure Stream.From (a : Stream) (l : Lexer) : Prop where
  idle : l.Idle
  length_le : l.code.length ≤ l.codeStart.length
  read : ∃ lexType old, lex lexType old l = .ok (a.token, a.lexer)

/-- `lex` was called between two tokens, if it has returned one. -/
theorem idle_of_lex {lexType : LexType} {old : JSToken} {l : Lexer} {r : JSToken × Lexer}
    (hv : l.Valid) (h : lex lexType old l = .ok r) : l.Idle := by
  refine idle_of_not_stuck hv fun hs => ?_
  rw [lex_stuck lexType old hs] at h
  cases h

theorem Stream.From.next {a b : Stream} {l m : Lexer} {lexType : LexType} (h : a.From l)
    (hm : Reached l m) (hn : Stream.Next lexType { a with lexer := m } b) : b.From m where
  idle := idle_of_lex hm.valid hn
  length_le := by
    rw [hm.codeStart]
    exact hm.length_le.trans h.length_le
  read := ⟨lexType, a.token, hn⟩

theorem Stream.From.lexed {a : Stream} {l : Lexer} (h : a.From l) : Lexed l a.token a.lexer := by
  obtain ⟨lexType, old, hread⟩ := h.read
  exact (lex_succeeds lexType old h.idle).of_eq hread

/-- The text of the current token. -/
theorem Stream.From.token_read {a : Stream} {l : Lexer} (h : a.From l)
    (hreal : a.token.type.isReal = true) :
    ∃ lexType gap text, TokenRead lexType l gap text a.token a.lexer := by
  obtain ⟨lexType, old, hread⟩ := h.read
  exact ⟨lexType, (lex_reads h.idle h.length_le).of_eq hread hreal⟩

/-- From `l` to `m` the lexer has read a gap and the text of a lexeme. -/
structure LexemeRead (x : Lexeme) (l : Lexer) (gap text : List UChar) (m : Lexer) : Prop where
  code : l.code = gap ++ text ++ m.code
  gap : ∃ b b', Gap b gap b'
  text : x.Text m.code text

/-- A token that was read, with its text. -/
theorem Stream.From.spelled {a : Stream} {l : Lexer} {t : JSTokenType} {p : JSTokenData → Prop}
    (h : a.From l) (hreal : t.isReal = true) (ht : a.token.type = t) (hp : p a.token.data) :
    ∃ gap text, l.code = gap ++ text ++ a.lexer.code ∧ (∃ b b', Gap b gap b') ∧
      TokenSpelled a.lexer.code text t p := by
  subst ht
  obtain ⟨lexType, gap, text, hread⟩ := h.token_read hreal
  obtain ⟨b, hgap, htoken⟩ := hread.token
  refine ⟨gap, text, hread.code, ⟨_, _, hgap⟩, ?_⟩
  rcases htoken.spelled with ⟨hspells, -⟩ | ⟨ht, -, hbreak, -⟩
  · exact Or.inl ⟨lexType, _, hspells, hp⟩
  · exact Or.inr ⟨ht, _, hbreak⟩

/-- The token that turns out to start a regular expression, with the rest of it. -/
theorem regExp_text {patternPrefix : Option UChar} {body flags : List UChar} {a : Stream}
    {l : Lexer} (h : a.From l)
    (ht : a.token.type = if patternPrefix.isSome then .divEqual else .divide)
    (hpre : ∀ c ∈ patternPrefix, c = '='.toNat.toUInt16)
    (hbody : RegExpChars false false body) (hflags : RegExpFlags flags) :
    ∃ gap text, l.code = gap ++ text ++ a.lexer.code ∧ (∃ b b', Gap b gap b') ∧
      RegExpText (patternPrefix.toList ++ body) flags
        (text ++ (body ++ identifierOfChars ['/'] ++ flags)) := by
  have hreal : a.token.type.isReal = true := by rw [ht]; split <;> rfl
  obtain ⟨gap, text, hcode, hgap, hspelled⟩ := h.spelled (p := fun _ => True) hreal rfl trivial
  refine ⟨gap, text, hcode, hgap, ?_⟩
  rcases hspelled with ⟨lexType, data, hspells, -⟩ | ⟨hsemi, -⟩
  · cases patternPrefix with
    | none =>
        rw [show a.token.type = .divide from ht] at hspells
        obtain ⟨chars, hmem, rfl⟩ :=
          hspells.punctuator_text (by decide) (by decide) (by decide)
        have honly : ∀ p ∈ punctuators, p.2 = .divide → p.1 = ['/'] := by decide
        rw [show chars = ['/'] from honly _ hmem rfl]
        exact ⟨by simp, hbody, hflags⟩
    | some c =>
        rw [hpre c rfl]
        rw [show a.token.type = .divEqual from ht] at hspells
        obtain ⟨chars, hmem, rfl⟩ :=
          hspells.punctuator_text (by decide) (by decide) (by decide)
        have honly : ∀ p ∈ punctuators, p.2 = .divEqual → p.1 = ['/', '='] := by decide
        rw [show chars = ['/', '='] from honly _ hmem rfl]
        exact ⟨rfl, .char (by decide) (List.all_iff_forall_prop.mp (by decide)) (by decide) hbody,
          hflags⟩
  · rw [hsemi] at ht
    split at ht <;> cases ht

/-- Moving over one lexeme reads its text. -/
theorem Lexeme.Step.reads {x : Lexeme} {a b : Stream} {l : Lexer} (hstep : x.Step a b)
    (h : a.From l) : ∃ gap text m, LexemeRead x l gap text m ∧ b.From m := by
  have hnext : ∀ {lexType}, a.Next lexType b → b.From a.lexer := fun hn =>
    h.next h.lexed.reached hn
  have hreads : ∀ {lexType t p}, t.isReal = true → a.token.type = t → p a.token.data →
      (∀ following text, TokenSpelled following text t p → x.Text following text) →
        a.Next lexType b → ∃ gap text m, LexemeRead x l gap text m ∧ b.From m := by
    intro lexType t p hreal ht hp htext hn
    obtain ⟨gap, text, hcode, hgap, hspelled⟩ := h.spelled hreal ht hp
    exact ⟨gap, text, a.lexer, ⟨hcode, hgap, htext _ _ hspelled⟩, hnext hn⟩
  have hunreal : ∀ {lexType} {t : JSTokenType} {p}, t.isReal = false →
      (∀ following text, (t.isReal = true → TokenSpelled following text t p) →
        x.Text following text) →
      a.Next lexType b → ∃ gap text m, LexemeRead x l gap text m ∧ b.From m := by
    intro lexType t p hreal htext hn
    obtain ⟨text, hcode⟩ := h.lexed.reached.suffix
    refine ⟨[], text, a.lexer, ⟨hcode.symm, ⟨true, true, .nil⟩, htext _ _ fun h => ?_⟩, hnext hn⟩
    rw [hreal] at h
    cases h
  cases x with
  | mark t =>
      obtain ⟨ht, hn⟩ := hstep
      cases hreal : t.isReal with
      | true => exact hreads (p := fun _ => True) hreal ht trivial (fun _ _ h _ => h) hn
      | false => exact hunreal hreal (fun _ _ h => h) hn
  | ident name =>
      obtain ⟨ht, hname, hn⟩ := hstep
      exact hreads rfl ht hname (fun _ _ h => h) hn
  | string value =>
      obtain ⟨ht, hvalue, hn⟩ := hstep
      exact hreads rfl ht hvalue (fun _ _ h => h) hn
  | number value | numericKey value =>
      obtain ⟨ht, hvalue, hn⟩ := hstep
      exact hreads rfl ht hvalue (fun _ _ h => h) hn
  | dot =>
      obtain ⟨ht, hn⟩ := hstep
      exact hreads (p := fun _ => True) rfl ht trivial (fun _ _ h => h) hn
  | key t name =>
      obtain ⟨ht, htype, hname, hn⟩ := hstep
      have hreal : t.isReal = true := by
        rcases htype with rfl | rfl | hkeyword
        · rfl
        · rfl
        · revert hkeyword
          cases t <;> decide
      exact hreads hreal ht hname (fun _ _ h => h) hn
  | skipped t name =>
      obtain ⟨ht, hname, hn⟩ := hstep
      cases hreal : t.isReal with
      | true => exact hreads hreal ht hname (fun _ _ h _ => h) hn
      | false => exact hunreal hreal (fun _ _ h => h) hn
  | regExp patternPrefix pattern flags =>
      obtain ⟨ht, hpre, m, hscan, hn⟩ := hstep
      obtain ⟨body, rfl, hbody, hflags, hscans⟩ :=
        (scanRegExp_scans h.lexed.reached.valid).of_eq hscan _ _ rfl
      have hreached := h.lexed.reached.trans hscans.toMoved.reached
      have hread := regExp_text h ht hpre hbody hflags
      obtain ⟨gap, text, hcode, hgap, htext⟩ := hread
      refine ⟨gap, text ++ (body ++ identifierOfChars ['/'] ++ flags), m,
        ⟨?_, hgap, htext⟩, h.next hreached hn⟩
      rw [hcode, hscans.code]
      simp

/-- **What is read is cut into gaps and lexemes.** -/
theorem reads_cut {ls : List Lexeme} {a b : Stream} {l : Lexer} (hreads : Reads ls a b)
    (h : a.From l) (before : List UChar) :
    ∃ pieces m, pieces.map Spelling.lexeme = ls ∧ Cut before pieces l.code m.code ∧ b.From m := by
  induction ls generalizing a l before with
  | nil => exact ⟨[], l, rfl, .nil, (show a = b from hreads) ▸ h⟩
  | cons x ls ih =>
      obtain ⟨c, hstep, hrest⟩ := hreads
      obtain ⟨gap, text, m, hread, hc⟩ := hstep.reads h
      obtain ⟨b₀, b₁, hgap⟩ := hread.gap
      obtain ⟨pieces, m', hpieces, hcut, hb⟩ := ih hrest hc (before ++ gap ++ text)
      refine ⟨⟨x, before ++ gap, text⟩ :: pieces, m', by simp [hpieces], ?_, hb⟩
      rw [hread.code]
      exact .cons hgap hread.text hcut

/-- The pieces of a source stand in it one behind the other. -/
theorem Cut.mem {before left rest : List UChar} {pieces : List Spelling}
    (h : Cut before pieces left rest) : ∀ piece ∈ pieces, ∃ following,
      before ++ left = piece.before ++ piece.text ++ following ∧
        piece.lexeme.Text following piece.text := by
  induction h with
  | nil => simp
  | @cons before gap text following rest l ls b b' hgap htext h ih =>
      rw [List.forall_mem_cons]
      refine ⟨⟨following, by simp, htext⟩, fun piece hpiece => ?_⟩
      obtain ⟨following', hall, htext'⟩ := ih piece hpiece
      exact ⟨following', by rw [← hall]; simp, htext'⟩

end Reads

end HammerJS
