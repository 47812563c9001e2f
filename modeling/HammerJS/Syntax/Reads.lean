import HammerJS.Reflect.ParserLogic
import HammerJS.Syntax.Phrase

/-!
# Reading lexemes

The tokens that a run of the parser moves over.

* `Stream` — the lexer and the current token: the part of the state that says
  what is still to be read.
* `Reads` — moving over a list of lexemes leads from one stream to another.
* `Consumed`, `Read` — what a part of a run has read, how often it has counted in
  `m_nonLHSCount`, and that it has left the stacks as they were.
-/

namespace HammerJS

open Procs Machine Lexer

variable [Platform]

/-! ## Streams -/

/-- What is still to be read: the current token, and the lexer behind it. -/
structure Stream where
  lexer : Lexer
  token : JSToken

/-- The stream of a state. -/
def ParserState.stream (s : ParserState) : Stream := ⟨s.lexer, s.token⟩

/-- `next(lexType)`, on the stream. -/
def Stream.Next (lexType : LexType) (a b : Stream) : Prop :=
  lex lexType a.token a.lexer = .ok (b.token, b.lexer)

/-- The current token is the lexeme, and moving over it leads from `a` to `b`. -/
def Lexeme.Step : Lexeme → Stream → Stream → Prop
  | .mark t, a, b => a.token.type = t ∧ a.Next .identifyReservedWords b
  | .ident name, a, b =>
      a.token.type = .ident ∧ a.token.data.getIdent = name ∧ a.Next .identifyReservedWords b
  | .string value, a, b =>
      a.token.type = .string ∧ a.token.data.getIdent = value ∧ a.Next .identifyReservedWords b
  | .number value, a, b =>
      a.token.type = .number ∧ a.token.data.getDouble = value ∧ a.Next .identifyReservedWords b
  | .dot, a, b => a.token.type = .dot ∧ a.Next .ignoreReservedWords b
  | .regExp patternPrefix pattern flags, a, b =>
      a.token.type = (if patternPrefix.isSome then .divEqual else .divide) ∧
        (∀ c ∈ patternPrefix, c = '='.toNat.toUInt16) ∧ ∃ lexer,
        scanRegExp patternPrefix a.lexer = .ok (some (pattern, flags), lexer) ∧
          Stream.Next .identifyReservedWords { a with lexer } b
  | .key t name, a, b =>
      a.token.type = t ∧ (t = .ident ∨ t = .string ∨ t.isKeyword = true) ∧
        a.token.data.getIdent = name ∧ a.Next .ignoreReservedWords b
  | .numericKey value, a, b =>
      a.token.type = .number ∧ a.token.data.getDouble = value ∧ a.Next .identifyReservedWords b
  | .skipped t name, a, b =>
      a.token.type = t ∧ a.token.data.getIdent = name ∧ a.Next .identifyReservedWords b

/-- Moving over the lexemes leads from `a` to `b`. -/
def Reads : List Lexeme → Stream → Stream → Prop
  | [], a, b => a = b
  | l :: ls, a, b => ∃ m, l.Step a m ∧ Reads ls m b

theorem reads_append {ls ls' : List Lexeme} {a b c : Stream} (h : Reads ls a b)
    (h' : Reads ls' b c) : Reads (ls ++ ls') a c := by
  induction ls generalizing a with
  | nil => exact (show a = b from h) ▸ h'
  | cons l ls ih =>
      obtain ⟨m, hstep, hrest⟩ := h
      exact ⟨m, hstep, ih hrest⟩

theorem ParserState.Next.eq {lexType : LexType} {s s' : ParserState} (hn : s.Next lexType s') :
    s.stream.Next lexType s'.stream ∧
      s' = { s with lexer := s'.lexer, token := s'.token, tokenCount := s.tokenCount + 1 } := by
  unfold ParserState.Next at hn
  simp only [parserStep] at hn
  cases hlex : lex lexType s.token s.lexer with
  | error e => rw [hlex] at hn; cases hn
  | ok r => rw [hlex] at hn; cases hn; exact ⟨hlex, rfl⟩

/-! ## Parts of a run -/

/-- From `s` to `s'` the lexemes `ls` were read, and `m_nonLHSCount` did not
decrease; it is unchanged exactly when `calm`.  `m_allowsIn` is as it was. -/
structure Consumed (s : ParserState) (ls : List Lexeme) (calm : Prop) (s' : ParserState) :
    Prop where
  reads : Reads ls s.stream s'.stream
  tokenCount : s'.tokenCount = s.tokenCount + ls.length
  le : s.regs.nonLHSCount ≤ s'.regs.nonLHSCount
  eq_iff : s'.regs.nonLHSCount = s.regs.nonLHSCount ↔ calm
  allowsIn : s'.regs.allowsIn = s.regs.allowsIn

/-- Moreover the stacks are as they were. -/
structure Read (s : ParserState) (ls : List Lexeme) (calm : Prop) (s' : ParserState) : Prop
    extends Consumed s ls calm s' where
  context : s'.regs.context = s.regs.context

section Parts

variable {s s' s'' : ParserState} {ls ls' : List Lexeme} {calm calm' : Prop}

theorem Consumed.refl (s : ParserState) : Consumed s [] True s :=
  ⟨rfl, rfl, le_rfl, by simp, rfl⟩

theorem Consumed.trans (h : Consumed s ls calm s') (h' : Consumed s' ls' calm' s'') :
    Consumed s (ls ++ ls') (calm ∧ calm') s'' := by
  refine ⟨reads_append h.reads h'.reads, ?_, h.le.trans h'.le, ?_, h'.allowsIn.trans h.allowsIn⟩
  · rw [h'.tokenCount, h.tokenCount, List.length_append]
    omega
  · rw [← h.eq_iff, ← h'.eq_iff]
    have := h.le
    have := h'.le
    omega

theorem Consumed.cast (h : Consumed s ls calm s') (hls : ls = ls') (hcalm : calm ↔ calm') :
    Consumed s ls' calm' s' := by
  rw [← hls, ← propext hcalm]
  exact h

/-- An operator counts. -/
theorem Consumed.bump (h : Consumed s ls calm s') :
    Consumed s ls False { s' with regs :=
      { s'.regs with nonLHSCount := s'.regs.nonLHSCount + 1 } } := by
  refine ⟨h.reads, h.tokenCount, h.le.trans (Nat.le_succ _), ?_, h.allowsIn⟩
  have := h.le
  simp only [iff_false]
  omega

/-- What the parser holds besides the stream and the counters does not matter. -/
theorem Consumed.congr {t t' : ParserState} (h : Consumed s ls calm s')
    (hs : t.stream = s.stream) (hc : t.tokenCount = s.tokenCount)
    (hn : t.regs.nonLHSCount = s.regs.nonLHSCount) (hi : t.regs.allowsIn = s.regs.allowsIn)
    (hs' : t'.stream = s'.stream) (hc' : t'.tokenCount = s'.tokenCount)
    (hn' : t'.regs.nonLHSCount = s'.regs.nonLHSCount)
    (hi' : t'.regs.allowsIn = s'.regs.allowsIn) : Consumed t ls calm t' := by
  refine ⟨?_, ?_, ?_, ?_, ?_⟩
  · rw [hs, hs']; exact h.reads
  · rw [hc, hc']; exact h.tokenCount
  · rw [hn, hn']; exact h.le
  · rw [hn, hn']; exact h.eq_iff
  · rw [hi, hi']; exact h.allowsIn

/-- Once the stacks are put back. -/
theorem Consumed.read (h : Consumed s ls calm s') {k : BuilderStacks} (hk : k = s.regs.context) :
    Read s ls calm { s' with regs := { s'.regs with context := k } } :=
  ⟨⟨h.reads, h.tokenCount, h.le, h.eq_iff, h.allowsIn⟩, hk⟩

theorem Read.refl (s : ParserState) : Read s [] True s := ⟨.refl s, rfl⟩

theorem Read.trans (h : Read s ls calm s') (h' : Read s' ls' calm' s'') :
    Read s (ls ++ ls') (calm ∧ calm') s'' :=
  ⟨h.toConsumed.trans h'.toConsumed, h'.context.trans h.context⟩

theorem Read.cast (h : Read s ls calm s') (hls : ls = ls') (hcalm : calm ↔ calm') :
    Read s ls' calm' s' :=
  ⟨h.toConsumed.cast hls hcalm, h.context⟩

theorem Read.bump (h : Read s ls calm s') :
    Read s ls False { s' with regs :=
      { s'.regs with nonLHSCount := s'.regs.nonLHSCount + 1 } } :=
  ⟨h.toConsumed.bump, h.context⟩

/-- The count is put back. -/
theorem Read.restore (h : Read s ls calm s') :
    Read s ls True { s' with regs := { s'.regs with nonLHSCount := s.regs.nonLHSCount } } :=
  ⟨⟨h.reads, h.tokenCount, le_rfl, by simp, h.allowsIn⟩, h.context⟩

/-- `m_allowsIn` is put back. -/
theorem Read.withAllowsIn {b b' : Bool} (hb : b' = s.regs.allowsIn)
    (h : Read { s with regs := { s.regs with allowsIn := b } } ls calm s') :
    Read s ls calm { s' with regs := { s'.regs with allowsIn := b' } } :=
  ⟨⟨h.reads, h.tokenCount, h.le, h.eq_iff, hb⟩, h.context⟩

/-- Where nothing was read, the current token is the same. -/
theorem Read.stream_eq (h : Read s [] calm s') : s'.stream = s.stream := by
  have h : s.stream = s'.stream := h.reads
  exact h.symm

/-- One lexeme. -/
theorem Read.of_step {l : Lexeme} {lexType : LexType} (hn : s.Next lexType s')
    (hl : l.Step s.stream s'.stream) : Read s [l] True s' := by
  have heq := hn.eq.2
  have hregs := hn.regs_error.1
  refine ⟨⟨⟨s'.stream, hl, rfl⟩, ?_, ?_, ?_, ?_⟩, ?_⟩
  · rw [heq]
    rfl
  · rw [hregs]
  · rw [hregs]
    simp
  · rw [hregs]
  · rw [hregs]

theorem Read.mark {t : JSTokenType} (ht : s.token.type = t)
    (hn : s.Next .identifyReservedWords s') : Read s [.mark t] True s' :=
  .of_step hn ⟨ht, hn.eq.1⟩

theorem Read.ident (ht : s.token.type = .ident) (hn : s.Next .identifyReservedWords s') :
    Read s [.ident s.token.data.getIdent] True s' :=
  .of_step hn ⟨ht, rfl, hn.eq.1⟩

end Parts

end HammerJS
