import HammerJS.Syntax.Derivations
import HammerJS.Syntax.Grammar

/-!
# Reading on

What code that accepts has read, and up to where in the stream.

* `Arrives` — a part of a run that has read some lexemes, and the stream behind them.
* `accepts_read`, `accepts_skip` and the rest — the rules for code that moves on.
* `Phrase.TakenBy` — code returns what is built of a phrase where the phrase stands.
-/

namespace HammerJS

open Procs Machine Lexer Parse

variable [Platform]

/-! ## Parts of a run -/

/-- From `s` to `s'` the lexemes `ls` were read, up to `b`, and `m_error` is as it was. -/
structure Arrives (s : ParserState) (ls : List Lexeme) (calm : Prop) (b : Stream)
    (s' : ParserState) : Prop extends Read s ls calm s' where
  stream : s'.stream = b
  error : s'.error = s.error

section Parts

variable {s s' s'' : ParserState} {a b m : Stream} {ls ls' : List Lexeme} {calm calm' : Prop}

theorem Arrives.refl (hs : s.stream = b) : Arrives s [] True b s := ⟨.refl s, hs, rfl⟩

theorem Arrives.trans (h : Arrives s ls calm m s') (h' : Arrives s' ls' calm' b s'') :
    Arrives s (ls ++ ls') (calm ∧ calm') b s'' :=
  ⟨h.toRead.trans h'.toRead, h'.stream, h'.error.trans h.error⟩

theorem Arrives.cast (h : Arrives s ls calm b s') (hls : ls = ls') (hcalm : calm ↔ calm') :
    Arrives s ls' calm' b s' :=
  ⟨h.toRead.cast hls hcalm, h.stream, h.error⟩

/-- An operator counts. -/
theorem Arrives.bump (h : Arrives s ls calm b s') :
    Arrives s ls False b { s' with regs :=
      { s'.regs with nonLHSCount := s'.regs.nonLHSCount + 1 } } :=
  ⟨h.toRead.bump, h.stream, h.error⟩

/-- The count is put back. -/
theorem Arrives.restore (h : Arrives s ls calm b s') :
    Arrives s ls True b { s' with regs := { s'.regs with nonLHSCount := s.regs.nonLHSCount } } :=
  ⟨h.toRead.restore, h.stream, h.error⟩

/-- `m_allowsIn` is put back. -/
theorem Arrives.withAllowsIn {c c' : Bool} (hc : c' = s.regs.allowsIn)
    (h : Arrives { s with regs := { s.regs with allowsIn := c } } ls calm b s') :
    Arrives s ls calm b { s' with regs := { s'.regs with allowsIn := c' } } :=
  ⟨h.toRead.withAllowsIn hc, h.stream, h.error⟩

omit [Platform] in
theorem token_eq (hs : s.stream = a) : s.token = a.token := congrArg Stream.token hs

/-- The parser moves on as the stream does. -/
theorem next_of_stream {lexType : LexType} (hn : s.stream.Next lexType b) :
    s.Next lexType
      { s with lexer := b.lexer, token := b.token, tokenCount := s.tokenCount + 1 } := by
  have hlex : lex lexType s.token s.lexer = .ok (b.token, b.lexer) := hn
  simp only [ParserState.Next, parserStep, hlex]
  rfl

theorem arrives_next {x : Lexeme} {lexType : LexType} (hs : s.stream = a) (hx : x.Step a b)
    (hn : a.Next lexType b) : ∃ s', s.Next lexType s' ∧ Arrives s [x] True b s' := by
  subst hs
  have hnext := next_of_stream hn
  exact ⟨_, hnext, .of_step hnext hx, rfl, rfl⟩

/-- `next()` does not look at the registers. -/
theorem next_withRegs {lexType : LexType} {regs : Registers}
    (hn : ParserState.Next lexType { s with regs } s') :
    ∃ t, s.Next lexType t ∧ s' = { t with regs } ∧ t.regs = s.regs := by
  obtain ⟨hstream, heq⟩ := hn.eq
  refine ⟨_, next_of_stream (s := s) hstream, ?_, rfl⟩
  rw [heq]
  rfl

end Parts

/-! ## Rules -/

section Rules

variable {α β : Type} {s : ParserState} {a m : Stream} {Q : β → ParserState → Prop}
  {f : Unit → Parse β}

/-- `next(lexType)`, over a lexeme. -/
theorem accepts_read {x : Lexeme} {lexType : LexType} (hs : s.stream = a) (hx : x.Step a m)
    (hn : a.Next lexType m) (hf : ∀ s', Arrives s [x] True m s' → Accepts (f ()) s' Q) :
    Accepts (next lexType >>= f) s Q := by
  obtain ⟨s', hnext, h⟩ := arrives_next hs hx hn
  exact accepts_next hnext (hf s' h)

section Marks

variable {t : JSTokenType}

/-- `next()`, over a token of which only the type matters. -/
theorem accepts_skip (hs : s.stream = a) (hx : (Lexeme.mark t).Step a m)
    (hf : ∀ s', Arrives s [.mark t] True m s' → Accepts (f ()) s' Q) :
    Accepts (next >>= f) s Q :=
  accepts_read hs hx hx.2 hf

theorem accepts_consumeMark (hs : s.stream = a) (hx : (Lexeme.mark t).Step a m)
    (hf : ∀ s', Arrives s [.mark t] True m s' → Accepts (f ()) s' Q) :
    Accepts (consumeOrFail t >>= f) s Q := by
  obtain ⟨s', hnext, h⟩ := arrives_next hs hx hx.2
  exact accepts_consumeOrFail (token_eq hs ▸ hx.1) hnext (hf s' h)

variable {x y : Parse β}

/-- The token is the one that is looked for. -/
theorem accepts_match (hs : s.stream = a) (ht : a.token.type = t) (hx : Accepts x s Q) :
    Accepts (isToken t >>= fun c => if c = true then x else y) s Q :=
  accepts_then (token_eq hs ▸ ht) hx

/-- It is not. -/
theorem accepts_noMatch (hs : s.stream = a) (ht : a.token.type ≠ t) (hy : Accepts y s Q) :
    Accepts (isToken t >>= fun c => if c = true then x else y) s Q :=
  accepts_else (token_eq hs ▸ ht) hy

end Marks

end Rules

/-! ## Phrases that are read -/

/-- Started where the phrase stands, `R` returns `r`, having read the phrase.  What is required of
`m_allowsIn` and of the token behind the phrase is `pre`. -/
def Phrase.TakenBy {c : Category} (p : Phrase c) {α : Type} (pre : Bool → JSTokenType → Prop)
    (r : α) (R : ParserState → (α → ParserState → Prop) → Prop) : Prop :=
  ∀ {a b : Stream} {s : ParserState}, p.Spans a b → s.stream = a → s.error = false →
    p.Legal s.regs.allowsIn → pre s.regs.allowsIn b.token.type →
      R s fun r' s' => r' = r ∧ Arrives s p.lexemes p.Calm b s'

namespace Phrase

/-- `parseExpression` reads the expression. -/
abbrev TakenAsExpression (e : Phrase .expr) : Prop :=
  e.TakenBy (fun allowsIn t => Ends 0 allowsIn t) e.build (parser.Answers .expression)

/-- `parseAssignmentExpression` reads the expression. -/
abbrev TakenAsAssignment (e : Phrase .expr) : Prop :=
  e.TakenBy (fun allowsIn t => 1 ≤ e.rank ∧ Ends 1 allowsIn t) e.build
    (parser.Answers .assignmentExpression)

/-- `parseArguments` reads the arguments. -/
abbrev TakenAsArguments (args : Phrase .args) : Prop :=
  args.TakenBy (fun allowsIn _ => allowsIn = true) args.build (parser.Answers .arguments)

/-- The loops over expressions with commas before them read the expressions. -/
structure TakenAsExprs (rest : Phrase .exprs) : Prop where
  arguments (list : Node) : rest.TakenBy (fun allowsIn t => Ends 0 allowsIn t)
    (list.appendAll rest.build) (parser.Answers (.argumentsLoop list))
  comma (list : Node) : rest.TakenBy (fun allowsIn t => Ends 0 allowsIn t)
    (list.appendAll rest.build) (parser.Answers (.commaLoop list))

/-- The loop of `parseArrayLiteral` reads the elements, and the end of the array. -/
abbrev TakenAsElements (rest : Phrase .elements) : Prop :=
  ∀ list : Node, rest.TakenBy (fun allowsIn _ => allowsIn = true)
    (Builder.createArray (some (list.appendAll rest.build))) (parser.Answers (.arrayLoop list))

/-- `parseProperty` reads the property. -/
abbrev TakenAsProperty (p : Phrase .prop) : Prop :=
  p.TakenBy (fun allowsIn t => allowsIn = true ∧ Ends 1 true t) p.build
    (parser.Answers .property)

/-- The loop of `parseObjectLiteral` reads the properties. -/
abbrev TakenAsProperties (rest : Phrase .props) : Prop :=
  ∀ (list : Node) (startOffset : Nat),
    rest.TakenBy (fun allowsIn t => allowsIn = true ∧ t = .closeBrace)
      (Sum.inl (list.appendAll rest.build)) (parser.Answers (.objectLoop list startOffset))

/-- The loop of `parseSourceElements` reads the statements. -/
abbrev TakenAsStatements (body : Phrase .stmts) : Prop :=
  ∀ list : Node, body.TakenBy (fun allowsIn _ => allowsIn = true) (list.appendAll body.build)
    (parser.Answers (.sourceElementsLoop list))

end Phrase

end HammerJS
