import HammerJS.Reflect.LexSafety
import HammerJS.Reflect.ParserLogic

/-!
# What every production keeps

The contract under which no production crashes, but for three defects, and every
production comes to an end.

* `Sound` — the invariant of the parser between two commands.
* `Kept`, `Past` — what holds inside a production: the invariant, the stacks of
  the callers, and whether a token has been read since its start.
* `safety` — the contract: `Pre`, `Post` and the three excused faults.
* `Production.rank` — the order in which productions call each other on one token.
-/

namespace HammerJS

open Procs Machine Lexer Parse

variable [Platform]

/-! ## The invariant -/

/-- The number of characters that are left, the current token counting as one. -/
def ParserState.left (s : ParserState) : Nat :=
  s.lexer.code.length + if s.token.type.isReal then 1 else 0

/-- The invariant of the parser: unless the current token is invalid, the lexer
is between two tokens; what is on the stacks can be taken off them. -/
structure Sound (s : ParserState) : Prop where
  valid : s.lexer.Valid
  idle : s.token.type ≠ .errorTok → s.lexer.Idle
  unary : ∀ t ∈ s.regs.context.unaryToken, t.isUnaryOp = true
  operators : ∀ o ∈ s.regs.context.binaryOperator, (convertToken o.1).isSome = true

/-- The entries below those that `p`, called in `s₀`, works on are on the stacks of
`s` as they were. -/
structure Untouched (p : Production) (s₀ s : ParserState) : Prop where
  assignments : s₀.regs.context.assignmentInfo <:+ s.regs.context.assignmentInfo
  operands : s₀.regs.context.binaryOperand.drop p.slack <:+ s.regs.context.binaryOperand
  operators : s₀.regs.context.binaryOperator.drop p.slack <:+ s.regs.context.binaryOperator
  unary : s₀.regs.context.unaryToken <:+ s.regs.context.unaryToken

/-- What holds between the start `s₀` of the production `p` and its end. -/
structure Kept (p : Production) (s₀ s : ParserState) : Prop extends Untouched p s₀ s where
  sound : Sound s
  left : s.left ≤ s₀.left
  allowsIn : s.regs.allowsIn = s₀.regs.allowsIn

/-- What holds once `p` has read a token. -/
structure Past (p : Production) (s₀ s : ParserState) : Prop extends Kept p s₀ s where
  progress : s.left < s₀.left

section Kept

variable {p q : Production} {s₀ s s' : ParserState}

omit [Platform] in
/-- What is taken off a stack leaves the entries below. -/
theorem suffix_of_pop {α : Type} {a : α} {below stack : List α} (h : below <:+ a :: stack)
    (hlen : below.length ≤ stack.length) : below <:+ stack := by
  rcases List.suffix_cons_iff.mp h with rfl | h
  · exact absurd hlen (by simp)
  · exact h

omit [Platform] in
/-- The entries below are still there when as many are dropped as there are above. -/
theorem suffix_drop {α : Type} {below stack : List α} {n : Nat} (h : below <:+ stack)
    (hlen : below.length + n ≤ stack.length) : below <:+ stack.drop n := by
  refine List.suffix_of_suffix_length_le h (List.drop_suffix n stack) ?_
  rw [List.length_drop]
  omega

omit [Platform] in
theorem Untouched.refl : Untouched p s s :=
  ⟨List.suffix_rfl, List.drop_suffix _ _, List.drop_suffix _ _, List.suffix_rfl⟩

omit [Platform] in
theorem Untouched.trans (h : Untouched p s₀ s) (h' : Untouched q s s') (hq : q.slack = 0) :
    Untouched p s₀ s' := by
  have h₁ := h'.operands
  have h₂ := h'.operators
  rw [hq, List.drop_zero] at h₁ h₂
  exact ⟨h.assignments.trans h'.assignments, h.operands.trans h₁, h.operators.trans h₂,
    h.unary.trans h'.unary⟩

omit [Platform] in
/-- The operand stack is not lower than where the work of `p` began. -/
theorem Untouched.operands_length (h : Untouched p s₀ s) :
    s₀.regs.context.binaryOperand.length ≤ s.regs.context.binaryOperand.length + p.slack := by
  have := h.operands.length_le
  rw [List.length_drop] at this
  omega

omit [Platform] in
/-- The operator stack is not lower than where the work of `p` began. -/
theorem Untouched.operators_length (h : Untouched p s₀ s) :
    s₀.regs.context.binaryOperator.length ≤ s.regs.context.binaryOperator.length + p.slack := by
  have := h.operators.length_le
  rw [List.length_drop] at this
  omega

omit [Platform] in
theorem Kept.refl (h : Sound s) : Kept p s s := ⟨.refl, h, le_rfl, rfl⟩

omit [Platform] in
theorem Kept.trans (h : Kept p s₀ s) (h' : Kept q s s') (hq : q.slack = 0) : Kept p s₀ s' :=
  ⟨h.toUntouched.trans h'.toUntouched hq, h'.sound, h'.left.trans h.left,
    h'.allowsIn.trans h.allowsIn⟩

omit [Platform] in
theorem Past.trans (h : Past p s₀ s) (h' : Kept q s s') (hq : q.slack = 0) : Past p s₀ s' :=
  ⟨h.toKept.trans h' hq, lt_of_le_of_lt h'.left h.progress⟩

omit [Platform] in
/-- The registers other than the stacks do not matter, but for `m_allowsIn`. -/
theorem Kept.withCount (h : Kept p s₀ s) (n : Nat) :
    Kept p s₀ { s with regs := { s.regs with nonLHSCount := n } } :=
  ⟨⟨h.assignments, h.operands, h.operators, h.unary⟩,
    ⟨h.sound.valid, h.sound.idle, h.sound.unary, h.sound.operators⟩, h.left, h.allowsIn⟩

omit [Platform] in
theorem Past.withCount (h : Past p s₀ s) (n : Nat) :
    Past p s₀ { s with regs := { s.regs with nonLHSCount := n } } :=
  ⟨h.toKept.withCount n, h.progress⟩

omit [Platform] in
/-- Other stacks, as long as they are well formed and the entries of the callers
are on them. -/
theorem Kept.withStacks (h : Kept p s₀ s) {k : BuilderStacks}
    (unaryOps : ∀ t ∈ k.unaryToken, t.isUnaryOp = true)
    (converts : ∀ o ∈ k.binaryOperator, (convertToken o.1).isSome = true)
    (assignments : s₀.regs.context.assignmentInfo <:+ k.assignmentInfo)
    (operands : s₀.regs.context.binaryOperand.drop p.slack <:+ k.binaryOperand)
    (operators : s₀.regs.context.binaryOperator.drop p.slack <:+ k.binaryOperator)
    (unary : s₀.regs.context.unaryToken <:+ k.unaryToken) :
    Kept p s₀ { s with regs := { s.regs with context := k } } :=
  ⟨⟨assignments, operands, operators, unary⟩, ⟨h.sound.valid, h.sound.idle, unaryOps, converts⟩,
    h.left, h.allowsIn⟩

omit [Platform] in
theorem Kept.failed (h : Kept p s₀ s) : Kept p s₀ s.failed :=
  ⟨⟨h.assignments, h.operands, h.operators, h.unary⟩,
    ⟨h.sound.valid, h.sound.idle, h.sound.unary, h.sound.operators⟩, h.left, h.allowsIn⟩

end Kept

/-- `lex` asserts that there is no error and that the buffers are empty. -/
def Lexer.Stuck (l : Lexer) : Prop := l.error = true ∨ l.buffer8 ≠ [] ∨ l.buffer16 ≠ []

omit [Platform] in
theorem Lexer.idle_of_not_stuck {l : Lexer} (hv : l.Valid) (h : ¬ l.Stuck) : l.Idle := by
  simp only [Lexer.Stuck, not_or, not_not, Bool.not_eq_true] at h
  exact ⟨hv, h.1, h.2.1, h.2.2⟩

omit [Platform] in
theorem Lexer.Idle.not_stuck {l : Lexer} (h : l.Idle) : ¬ l.Stuck := by
  simp [Lexer.Stuck, h.error, h.buffer8, h.buffer16]

/-- The assertion of `lex` fails. -/
theorem Lexer.lex_stuck {l : Lexer} (lexType : LexType) (old : JSToken) (h : l.Stuck) :
    lex lexType old l = .error .lexEntry := by
  have hassert : (!l.error && l.buffer8.isEmpty && l.buffer16.isEmpty) = false := by
    rcases h with h | h | h <;> simp [h]
  show Except.bind _ _ = _
  simp only [Lexer.assert, hassert]
  rfl

theorem ParserState.next_stuck {s : ParserState} (lexType : LexType) (h : s.lexer.Stuck) :
    parserStep (.next lexType) s = .error .lexEntry := by
  simp only [parserStep, lex_stuck lexType s.token h, Except.map]

/-- Moving to the next token keeps the invariant, and reads something if there
was a token. -/
theorem Sound.next {s s' : ParserState} {lexType : LexType} (h : Sound s)
    (hi : s.lexer.Idle) (hn : s.Next lexType s') :
    Sound s' ∧ s'.left ≤ s.lexer.code.length := by
  obtain ⟨token, lexer, hlex, hlexed⟩ := lex_succeeds lexType s.token hi
  unfold ParserState.Next at hn
  simp only [parserStep, hlex, Except.map] at hn
  cases hn
  refine ⟨⟨hlexed.reached.valid, fun ht => hlexed.idle ht hi, h.unary, h.operators⟩, ?_⟩
  simp only [ParserState.left]
  have hle := hlexed.reached.length_le
  split
  · rename_i hreal
    have := hlexed.progress hreal
    omega
  · omega

/-- `next` crashes in no other way. -/
theorem Sound.next_error {s : ParserState} {lexType : LexType} {e : Crash} (h : Sound s)
    (he : parserStep (.next lexType) s = .error e) : s.lexer.Stuck := by
  by_contra hs
  obtain ⟨token, lexer, hlex, -⟩ :=
    lex_succeeds lexType s.token (Lexer.idle_of_not_stuck h.valid hs)
  simp only [parserStep, hlex, Except.map] at he
  cases he

/-- The crash is the failing assertion of `lex`. -/
theorem Sound.next_crash {s : ParserState} {lexType : LexType} {e : Crash} (h : Sound s)
    (he : parserStep (.next lexType) s = .error e) : e = .lexEntry := by
  have hstuck := s.next_stuck lexType (h.next_error he)
  rw [he] at hstuck
  exact Except.error.inj hstuck

/-- Where `next` succeeds, the lexer was between two tokens. -/
theorem Sound.idle_of_next {s s' : ParserState} {lexType : LexType} (h : Sound s)
    (hn : s.Next lexType s') : s.lexer.Idle := by
  by_cases hs : s.lexer.Stuck
  · rw [ParserState.Next, s.next_stuck lexType hs] at hn
    cases hn
  · exact Lexer.idle_of_not_stuck h.valid hs

/-! ## The contract -/

/-- The order in which productions call each other before they read a token. -/
def Production.rank : Production → Nat
  | .createSyntaxTree => 15
  | .functionBody => 14
  | .sourceElements => 13
  | .sourceElementsLoop _ => 12
  | .statement => 11
  | .expressionOrLabelStatement | .expressionStatement | .varDeclaration | .constDeclaration => 10
  | .expression | .varDeclarationList | .constDeclarationList => 9
  | .assignmentExpression => 8
  | .conditionalExpression => 7
  | .binaryExpression => 6
  | .binaryLoop _ _ => 5
  | .unaryExpression => 4
  | .unaryExpressionBody => 3
  | .memberExpression => 2
  | .primaryExpression | .memberLoop _ _ => 1
  | _ => 0

/-- The measure that every call decreases. -/
def safetyMeasure (p : Production) (s : ParserState) : Nat := 16 * s.left + p.rank

/-- The productions that may return null without an error. -/
def Production.nullable : Production → Bool
  | .statement | .switchClauses | .switchDefaultClause | .functionInfo _ => true
  | _ => false

/-- The productions that read a token when they return something. -/
def Production.consumes : Production → Bool
  | .statement | .blockStatement | .varDeclaration | .constDeclaration | .functionDeclaration
  | .ifStatement | .doWhileStatement | .whileStatement | .forStatement | .continueStatement
  | .breakStatement | .returnStatement | .withStatement | .switchStatement | .throwStatement
  | .tryStatement | .debuggerStatement | .expressionOrLabelStatement | .expressionStatement
  | .expression | .assignmentExpression | .conditionalExpression | .binaryExpression
  | .binaryLoop _ _ | .unaryExpression | .unaryExpressionBody | .memberExpression
  | .primaryExpression | .objectLiteral | .arrayLiteral | .arguments
  | .varDeclarationList | .varDeclarationLoop _ _ _ => true
  | _ => false

/-- The productions that are called with `m_allowsIn` set. -/
def Production.needsIn : Production → Bool
  | .expression | .commaLoop _ | .assignmentExpression | .assignmentLoop _ _ _
  | .conditionalExpression | .binaryExpression | .binaryLoop _ _ | .unaryExpression
  | .varDeclarationList | .varDeclarationLoop _ _ _ | .arrayLiteral | .elisionsLoop _
  | .arrayLoop _ | .arguments | .argumentsLoop _ | .newLoop _ | .memberLoop _ _
  | .unaryTokensLoop _ | .formalParameters | .formalParametersLoop _ => false
  | _ => true

/-- What a production expects of the token it starts at, and of its arguments. -/
def Production.Start : Production → ParserState → Prop
  | .blockStatement, s => s.token.type = .openBrace
  | .varDeclaration, s => s.token.type = .var
  | .constDeclaration, s => s.token.type = .constToken
  | .functionDeclaration, s => s.token.type = .function
  | .ifStatement, s => s.token.type = .if
  | .doWhileStatement, s => s.token.type = .do
  | .whileStatement, s => s.token.type = .while
  | .forStatement, s => s.token.type = .for
  | .continueStatement, s => s.token.type = .continue
  | .breakStatement, s => s.token.type = .break
  | .returnStatement, s => s.token.type = .return
  | .withStatement, s => s.token.type = .with
  | .switchStatement, s => s.token.type = .switch
  | .throwStatement, s => s.token.type = .throw
  | .tryStatement, s => s.token.type = .try
  | .debuggerStatement, s => s.token.type = .debugger
  | .varDeclarationList, s => s.token.type.isReal = true
  | .varDeclarationLoop _ _ _, s => s.token.type.isReal = true
  | .constDeclarationList, s => s.token.type.isReal = true
  | .constDeclarationLoop _ tail, s => s.token.type.isReal = true ∧ tail = none
  | .ifLoop exprStack posStack statementStack, s =>
      s.token.type.isReal = true ∧ posStack.length = exprStack.length ∧
        statementStack.length = exprStack.length
  | .binaryLoop operandStackDepth operatorStackDepth, s =>
      operatorStackDepth = operandStackDepth ∧
        operandStackDepth ≤ s.regs.context.binaryOperand.length ∧
        operandStackDepth ≤ s.regs.context.binaryOperator.length
  | .createSyntaxTree, s => s.lexer.Idle ∧ s.tokenCount = 0
  | .expressionOrLabelStatement, s => s.token.type = .ident
  | .strictObjectLiteral, _ => False
  | .strictObjectLoop _, _ => False
  | _, _ => True

/-- What a caller guarantees. -/
structure Pre (p : Production) (s : ParserState) : Prop where
  sound : Sound s
  allowsIn : p.needsIn = true → s.regs.allowsIn = true
  start : p.Start s

/-- What a production says of the value it returns. -/
def Production.Result : (p : Production) → ParserState → p.Ret → ParserState → Prop
  | .property, _, node, _ => node.propertyType = .constant
  | .constDeclarationList, _, _, _ => False
  | .constDeclarationLoop _ _, _, _, _ => False
  | .unaryTokensLoop tokenStackDepth, s, depth, s' =>
      s.regs.context.unaryToken.length + depth ≤
        s'.regs.context.unaryToken.length + tokenStackDepth
  | .assignmentLoop _ assignmentStack _, s, r, s' =>
      s.regs.context.assignmentInfo.length + r.2 ≤
        s'.regs.context.assignmentInfo.length + assignmentStack
  | .binaryLoop operandStackDepth operatorStackDepth, s, r, s' =>
      r.1 = r.2 + 1 ∧
        s.regs.context.binaryOperand.length + r.1 ≤
          s'.regs.context.binaryOperand.length + operandStackDepth ∧
        s.regs.context.binaryOperator.length + r.2 ≤
          s'.regs.context.binaryOperator.length + operatorStackDepth
  | .ifLoop _ _ _, _, r, _ =>
      r.2.1.length = r.1.length ∧
        if r.2.2.2 then r.2.2.1.length = r.1.length + 1
        else r.2.2.1.length = r.1.length ∧ r.1 ≠ []
  | _, _, _, _ => True

/-- What a production guarantees. -/
structure Post (p : Production) (s : ParserState) (r : Option p.Ret) (s' : ParserState) :
    Prop where
  kept : Kept p s s'
  error : r = none → p.nullable = false → s'.error = true
  progress : r ≠ none → p.consumes = true → s'.left < s.left
  result : ∀ a, r = some a → p.Result s a s'

/-- The name of a constant follows: `appendConstDecl` is going to be called on
the null list. -/
def StartsConstant (s : ParserState) : Prop :=
  ∃ s', s.Next .identifyReservedWords s' ∧ s'.token.type = .ident

/-- An accessor property follows, complete with its function. -/
def IsAccessor (s : ParserState) : Prop :=
  (s.token.data.getIdent = identifierOfChars ['g', 'e', 't'] ∨
      s.token.data.getIdent = identifierOfChars ['s', 'e', 't']) ∧
    (s.token.type = .ident ∨ s.token.type.isKeyword = true) ∧
    ∃ s₁ info s₂, s.Next .ignoreReservedWords s₁ ∧ s₁.token.type = .ident ∧
      parser.Returns (.functionInfo true) s₁ (some info) s₂

/-- A `for` header declares two variables at least, and an invalid token follows:
it is skipped as if it were the semicolon. -/
def SkipsInvalid (s : ParserState) : Prop :=
  ∃ s₁ s₂ decls s₃, s.Next .identifyReservedWords s₁ ∧ s₁.token.type = .openParen ∧
    s₁.Next .identifyReservedWords s₂ ∧ s₂.token.type = .var ∧
      parser.Returns .varDeclarationList { s₂ with regs := { s₂.regs with allowsIn := false } }
        (some decls) s₃ ∧
      s₃.error = false ∧ 1 < decls.declarations ∧ s₃.token.type = .errorTok

/-- The three ways to crash: `next` after an invalid token, a constant declaration
and an accessor property. -/
def Excused : Event parserInterface → ParserState → Crash → Prop
  | .call .forStatement, s, e => e = .lexEntry ∧ SkipsInvalid s
  | .call (.constDeclarationLoop _ _), s, e => e = .nullNode ∧ StartsConstant s
  | .call .property, s, e => e = .getterOrSetter ∧ IsAccessor s
  | _, _, _ => False

/-- What `next` expects: the lexer is between two tokens, and it has not come upon
an invalid one. -/
def ParserState.Ready (s : ParserState) : Prop :=
  s.lexer.Idle ∧ (s.token.type = .errorTok → s.tokenCount = 0)

/-- A call of `next` that is not expected counts as a failing assertion of `lex`; one
outside the invariant, and any call of `setOffset`, as code that is never reached. -/
def Forbidden : ParserOp → ParserState → Crash → Prop
  | .next _, s, e => (e = .lexEntry ∧ ¬ s.Ready) ∨ (e = .notReached ∧ ¬ Sound s)
  | .setOffset _, _, e => e = .notReached
  | _, _, _ => False

/-- The contract of the parser. -/
def safety : Contract parserInterface ParserState Crash where
  pre := Pre
  post := Post
  excuses := Excused
  forbids := Forbidden
  dead _ _ := False

instance : Ordinary safety where
  dead_eq h := h.elim
  forbids_moves {o s e} h := by
    cases o with
    | next lexType => trivial
    | setOffset offset => trivial
    | _ => exact h.elim

theorem safety_neverDead : safety.NeverDead := fun _ _ h => h

/-! ## Rules -/

/-- The stacks when `p`, called in `s₀`, calls `q`: the entries of the callers are
untouched, and those that `q` is told to work on are there. -/
structure Nested (p : Production) (s₀ : ParserState) (q : Production) (s : ParserState) : Prop
    extends Untouched p s₀ s where
  operandDepth : s₀.regs.context.binaryOperand.length + q.slack ≤
    s.regs.context.binaryOperand.length + p.slack
  operatorDepth : s₀.regs.context.binaryOperator.length + q.slack ≤
    s.regs.context.binaryOperator.length + p.slack
  unaryDepth : s₀.regs.context.unaryToken.length + q.unaryDepth ≤
    s.regs.context.unaryToken.length + p.unaryDepth
  assignmentDepth : s₀.regs.context.assignmentInfo.length + q.assignmentDepth ≤
    s.regs.context.assignmentInfo.length + p.assignmentDepth

/-- The calls that the production `p`, called in `s₀`, may make.  The statements of a
function start with stacks of their own, and only two productions change `m_allowsIn`. -/
structure MayCall (p : Production) (s₀ : ParserState) (q : Production) (s : ParserState) : Prop
    where
  measure : safetyMeasure q s < safetyMeasure p s₀
  nested : p ≠ .functionBody → Nested p s₀ q s
  allowsIn : p ≠ .unaryExpression → p ≠ .forStatement → s.regs.allowsIn = s₀.regs.allowsIn

/-- The contract inside the production `p` that was called in `s₀`. -/
abbrev within (p : Production) (s₀ : ParserState) : Contract parserInterface ParserState Crash :=
  safety.calling (MayCall p s₀)

/-- `Q` of what is returned, and what `p` guarantees when it leaves with null. -/
def answers (p : Production) (s₀ : ParserState) {α : Type} (Q : α → ParserState → Prop) :
    Option α → ParserState → Prop
  | some a, s => Q a s
  | none, s => Kept p s₀ s ∧ (p.nullable = false → s.error = true)

/-- The code `x`, inside the production `p` that was called in `s₀`, reaches `Q`
or leaves `p`. -/
def Safe (p : Production) (s₀ : ParserState) {α : Type} (x : Parse α)
    (Q : α → ParserState → Prop) (s : ParserState) : Prop :=
  parser.wp (within p s₀) (Excused (.call p) s₀) x (answers p s₀ Q) s

/-- The postcondition of `p`, of a value it returns. -/
abbrev Done (p : Production) (s₀ : ParserState) (a : p.Ret) (s : ParserState) : Prop :=
  Post p s₀ (some a) s

section Rules

variable {p q : Production} {s₀ s : ParserState} {α β : Type} {Q : β → ParserState → Prop}

/-- The code of a production is safe when it reaches its postcondition. -/
theorem Safe.body {x : Parse p.Ret} (h : Safe p s₀ x (Done p s₀) s) :
    parser.wp (within p s₀) (Excused (.call p) s₀) x (Post p s₀) s := by
  refine wp_mono ?_ h
  rintro (_ | a) s' hr
  · exact ⟨hr.1, fun _ => hr.2, fun h => absurd rfl h, fun _ h => by cases h⟩
  · exact hr

theorem safe_pure {b : β} : Safe p s₀ (pure b) Q s = Q b s := rfl

/-- A sequence is safe when its first part reaches a state where the rest is. -/
theorem safe_bind {x : Parse α} {f : α → Parse β} :
    Safe p s₀ (x >>= f) Q s = Safe p s₀ x (fun a => Safe p s₀ (f a) Q) s := by
  unfold Safe
  rw [wp_bind]
  congr 1
  funext r s'
  cases r <;> rfl

theorem Safe.mono {Q' : β → ParserState → Prop} {x : Parse β} (hx : Safe p s₀ x Q s)
    (h : ∀ b s', Q b s' → Q' b s') : Safe p s₀ x Q' s := by
  refine wp_mono ?_ hx
  rintro (_ | b) s' hr
  · exact hr
  · exact h b s' hr

omit [Platform] in
theorem Kept.post (h : Kept p s₀ s) {a : p.Ret} (hc : p.consumes = false)
    (hr : p.Result s₀ a s) : Done p s₀ a s :=
  ⟨h, fun h => (by cases h), fun _ h => (by rw [hc] at h; cases h), fun b hb => by
    cases hb
    exact hr⟩

omit [Platform] in
theorem Past.post (h : Past p s₀ s) {a : p.Ret} (hr : p.Result s₀ a s) : Done p s₀ a s :=
  ⟨h.toKept, fun h => (by cases h), fun _ _ => h.progress, fun b hb => by
    cases hb
    exact hr⟩

/-- `return 0`. -/
theorem safe_returnNull (h : Kept p s₀ s) (he : p.nullable = false → s.error = true) :
    Safe p s₀ returnNull Q s :=
  ⟨h, he⟩

/-- `fail()`. -/
theorem safe_fail (h : Kept p s₀ s) : Safe p s₀ fail Q s := by
  unfold Safe
  rw [wp_fail]
  intro _
  exact ⟨h.failed, fun _ => rfl⟩

omit [Platform] in
theorem Kept.next (h : Kept p s₀ s) {s' : ParserState} (hsound : Sound s')
    (hleft : s'.left ≤ s.left) (hregs : s'.regs = s.regs) : Kept p s₀ s' := by
  refine ⟨⟨?_, ?_, ?_, ?_⟩, hsound, hleft.trans h.left, ?_⟩
  · rw [hregs]; exact h.assignments
  · rw [hregs]; exact h.operands
  · rw [hregs]; exact h.operators
  · rw [hregs]; exact h.unary
  · rw [hregs]; exact h.allowsIn

/-- `next()`, on a token. -/
theorem safe_next {lexType : LexType} {f : Unit → Parse β} (h : Kept p s₀ s)
    (ht : s.token.type.isReal = true)
    (hf : ∀ s', s.Next lexType s' → Past p s₀ s' → Safe p s₀ (f ()) Q s') :
    Safe p s₀ (next lexType >>= f) Q s := by
  have hi : s.lexer.Idle := by
    refine h.sound.idle fun he => ?_
    rw [he] at ht
    cases ht
  have hready : s.Ready := ⟨hi, fun he => by
    rw [he] at ht
    cases ht⟩
  rw [safe_bind]
  unfold Safe
  rw [wp_next]
  refine ⟨?_, ?_, ?_⟩
  · rintro e (⟨-, hnot⟩ | ⟨-, hnot⟩)
    · exact absurd hready hnot
    · exact absurd h.sound hnot
  · intro s' hn
    obtain ⟨hsound, hleft⟩ := h.sound.next hi hn
    have hs : s.left = s.lexer.code.length + 1 := by rw [ParserState.left, if_pos ht]
    have hle := h.left
    exact hf s' hn ⟨h.next hsound (by omega) hn.regs_error.1, by omega⟩
  · intro e he
    exact absurd (h.sound.next_error he) hi.not_stuck

/-- `next()`, once something was read, whatever the current token is. -/
theorem safe_skip {lexType : LexType} {f : Unit → Parse β} (h : Past p s₀ s)
    (hexcused : s.token.type = .errorTok → Excused (.call p) s₀ .lexEntry)
    (hf : ∀ s', s.Next lexType s' → Past p s₀ s' → Safe p s₀ (f ()) Q s') :
    Safe p s₀ (next lexType >>= f) Q s := by
  rw [safe_bind]
  unfold Safe
  rw [wp_next]
  refine ⟨?_, ?_, ?_⟩
  · rintro e (⟨rfl, hnot⟩ | ⟨-, hnot⟩)
    · refine Or.inr (hexcused ?_)
      by_contra ht
      exact hnot ⟨h.sound.idle ht, fun ht' => absurd ht' ht⟩
    · exact absurd h.sound hnot
  · intro s' hn
    obtain ⟨hsound, hleft⟩ := h.sound.next (h.sound.idle_of_next hn) hn
    have hle : s'.left ≤ s.left := hleft.trans (Nat.le_add_right _ _)
    exact hf s' hn ⟨h.toKept.next hsound hle hn.regs_error.1, lt_of_le_of_lt hle h.progress⟩
  · intro e he
    have hstuck := h.sound.next_error he
    have ht : s.token.type = .errorTok := by
      by_contra ht
      exact (h.sound.idle ht).not_stuck hstuck
    rw [h.sound.next_crash he]
    exact Or.inr (hexcused ht)

omit [Platform] in
theorem Kept.allowsIn_of (h : Kept p s₀ s) (hp : Pre p s₀) (hin : (!q.needsIn || p.needsIn) = true)
    (hq : q.needsIn = true) : s.regs.allowsIn = true := by
  rw [h.allowsIn]
  rw [hq] at hin
  exact hp.allowsIn hin

omit [Platform] in
/-- A call of a production that is told to work on no entries. -/
theorem Kept.nested (h : Kept p s₀ s) (hslack : q.slack = 0)
    (hdepth : q.unaryDepth = 0 ∧ q.assignmentDepth = 0) : Nested p s₀ q s := by
  refine ⟨h.toUntouched, ?_, ?_, ?_, ?_⟩
  · rw [hslack]
    exact h.operands_length
  · rw [hslack]
    exact h.operators_length
  · have := h.unary.length_le
    omega
  · have := h.assignments.length_le
    omega

/-- What a call of `q` asks of the production `p` that makes it: `in` is allowed where `q`
needs it, and `q` is told to work on no entries. -/
def Production.calls (p q : Production) : Bool :=
  (!q.needsIn || p.needsIn) && decide (q.slack = 0) && decide (q.unaryDepth = 0) &&
    decide (q.assignmentDepth = 0)

omit [Platform] in
theorem Production.calls_iff : p.calls q = true ↔ (!q.needsIn || p.needsIn) = true ∧ q.slack = 0 ∧
    q.unaryDepth = 0 ∧ q.assignmentDepth = 0 := by
  simp only [Production.calls, Bool.and_eq_true, decide_eq_true_eq, and_assoc]

/-- A call before anything was read: the callee comes later in the order. -/
theorem safe_parse_first {f : Option q.Ret → Parse β} (hq : p.calls q = true)
    (hrank : decide (q.rank < p.rank) = true) (hp : Pre p s₀) (h : Kept p s₀ s)
    (hstart : q.Start s)
    (hf : ∀ r s', Kept p s₀ s' → Post q s r s' → Safe p s₀ (f r) Q s') :
    Safe p s₀ (parse q >>= f) Q s := by
  obtain ⟨hin, hslack, hdepth⟩ := Production.calls_iff.mp hq
  refine wp_parse ⟨⟨h.sound, h.allowsIn_of hp hin, hstart⟩, ?_,
    fun _ => h.nested hslack hdepth, fun _ _ => h.allowsIn⟩ ?_
  · have := h.left
    have := of_decide_eq_true hrank
    simp only [safetyMeasure]
    omega
  · intro r s' _ hpost
    exact hf r s' (h.trans hpost.kept hslack) hpost

omit [Platform] in
theorem Production.rank_lt (q : Production) : q.rank < 16 := by
  cases q <;> simp [Production.rank]

/-- A call once something was read. -/
theorem safe_parse {f : Option q.Ret → Parse β} (hq : p.calls q = true) (hp : Pre p s₀)
    (h : Past p s₀ s) (hstart : q.Start s)
    (hf : ∀ r s', Past p s₀ s' → Post q s r s' → Safe p s₀ (f r) Q s') :
    Safe p s₀ (parse q >>= f) Q s := by
  obtain ⟨hin, hslack, hdepth⟩ := Production.calls_iff.mp hq
  refine wp_parse ⟨⟨h.sound, h.allowsIn_of hp hin, hstart⟩, ?_,
    fun _ => h.toKept.nested hslack hdepth, fun _ _ => h.allowsIn⟩ ?_
  · have := h.progress
    have := q.rank_lt
    simp only [safetyMeasure]
    omega
  · intro r s' _ hpost
    exact hf r s' (h.trans hpost.kept hslack) hpost

theorem safe_failIfNull {r : Option α} {f : α → Parse β} (h : Kept p s₀ s)
    (hf : ∀ a, r = some a → Safe p s₀ (f a) Q s) : Safe p s₀ (failIfNull r >>= f) Q s := by
  cases r with
  | none => exact safe_fail h
  | some a => exact hf a rfl

theorem safe_orReturnNull {r : Option α} {f : α → Parse β} (h : Kept p s₀ s)
    (hr : r = none → s.error = true)
    (hf : ∀ a, r = some a → Safe p s₀ (f a) Q s) : Safe p s₀ (orReturnNull r >>= f) Q s := by
  cases r with
  | none => exact safe_returnNull h fun _ => hr rfl
  | some a => exact hf a rfl

/-- A call that must return something. -/
theorem safe_parseOrFail {f : q.Ret → Parse β} (hq : p.calls q = true) (hp : Pre p s₀)
    (h : Past p s₀ s) (hstart : q.Start s)
    (hf : ∀ a s', Past p s₀ s' → Post q s (some a) s' → Safe p s₀ (f a) Q s') :
    Safe p s₀ (parse q >>= fun r => failIfNull r >>= f) Q s := by
  refine safe_parse hq hp h hstart fun r s' h' hpost => ?_
  exact safe_failIfNull h'.toKept fun a ha => hf a s' h' (ha ▸ hpost)

/-- A call before anything was read, that must return something. -/
theorem safe_parseOrFail_first {f : q.Ret → Parse β} (hq : p.calls q = true)
    (hrank : decide (q.rank < p.rank) = true) (hconsumes : q.consumes = true) (hp : Pre p s₀)
    (h : Kept p s₀ s) (hstart : q.Start s)
    (hf : ∀ a s', Past p s₀ s' → Post q s (some a) s' → Safe p s₀ (f a) Q s') :
    Safe p s₀ (parse q >>= fun r => failIfNull r >>= f) Q s := by
  refine safe_parse_first hq hrank hp h hstart fun r s' h' hpost => ?_
  refine safe_failIfNull h' fun a ha => hf a s' ⟨h', ?_⟩ (ha ▸ hpost)
  have := hpost.progress (by simp [ha]) hconsumes
  have := h.left
  omega

/-- A call of a loop, whose null is returned. -/
theorem safe_parseOrNull {f : q.Ret → Parse β} (hq : p.calls q = true)
    (hnull : q.nullable = false) (hp : Pre p s₀)
    (h : Past p s₀ s) (hstart : q.Start s)
    (hf : ∀ a s', Past p s₀ s' → Post q s (some a) s' → Safe p s₀ (f a) Q s') :
    Safe p s₀ (parse q >>= fun r => orReturnNull r >>= f) Q s := by
  refine safe_parse hq hp h hstart fun r s' h' hpost => ?_
  exact safe_orReturnNull h'.toKept (fun hr => hpost.error hr hnull)
    fun a ha => hf a s' h' (ha ▸ hpost)

/-- A call of a loop before anything was read, whose null is returned. -/
theorem safe_parseOrNull_first {f : q.Ret → Parse β} (hq : p.calls q = true)
    (hrank : decide (q.rank < p.rank) = true) (hnull : q.nullable = false) (hp : Pre p s₀)
    (h : Kept p s₀ s) (hstart : q.Start s)
    (hf : ∀ a s', Kept p s₀ s' → Post q s (some a) s' → Safe p s₀ (f a) Q s') :
    Safe p s₀ (parse q >>= fun r => orReturnNull r >>= f) Q s := by
  refine safe_parse_first hq hrank hp h hstart fun r s' h' hpost => ?_
  exact safe_orReturnNull h' (fun hr => hpost.error hr hnull)
    fun a ha => hf a s' h' (ha ▸ hpost)

theorem safe_answer {r : Option β} (h : Kept p s₀ s) (hr : r = none → s.error = true)
    (hf : ∀ a, r = some a → Q a s) : Safe p s₀ (orReturnNull r) Q s := by
  cases r with
  | none => exact safe_returnNull h fun _ => hr rfl
  | some a => exact hf a rfl

/-- A call whose answer is the answer. -/
theorem safe_parseLast {Q : q.Ret → ParserState → Prop} (hq : p.calls q = true)
    (hnull : q.nullable = false) (hp : Pre p s₀)
    (h : Past p s₀ s) (hstart : q.Start s)
    (hf : ∀ a s', Past p s₀ s' → Post q s (some a) s' → Q a s') :
    Safe p s₀ (parse q >>= fun r => orReturnNull r) Q s := by
  refine safe_parse hq hp h hstart fun r s' h' hpost => ?_
  exact safe_answer h'.toKept (fun hr => hpost.error hr hnull) fun a ha => hf a s' h' (ha ▸ hpost)

/-- A call of a loop by itself, whose answer is the answer: the loop says how many
entries it has put on the stacks. -/
theorem safe_parseLast_nested {Q : q.Ret → ParserState → Prop}
    (hin : (!q.needsIn || p.needsIn) = true) (hslack : q.slack = 0) (hnull : q.nullable = false)
    (hp : Pre p s₀) (h : Past p s₀ s) (hstart : q.Start s) (hnested : Nested p s₀ q s)
    (hf : ∀ a s', Past p s₀ s' → Post q s (some a) s' → Q a s') :
    Safe p s₀ (parse q >>= fun r => orReturnNull r) Q s := by
  refine wp_parse ⟨⟨h.sound, h.allowsIn_of hp hin, hstart⟩,
    ⟨?_, fun _ => hnested, fun _ _ => h.allowsIn⟩⟩ ?_
  · have := h.progress
    have := q.rank_lt
    simp only [safetyMeasure]
    omega
  · intro r s' _ hpost
    have h' := h.trans hpost.kept hslack
    exact safe_answer h'.toKept (fun hr => hpost.error hr hnull) fun a ha => hf a s' h' (ha ▸ hpost)

/-- A call whose answer is the answer, before anything was read. -/
theorem safe_parseLast_first {Q : q.Ret → ParserState → Prop} (hq : p.calls q = true)
    (hrank : decide (q.rank < p.rank) = true) (hnull : q.nullable = false)
    (hp : Pre p s₀) (h : Kept p s₀ s) (hstart : q.Start s)
    (hf : ∀ a s', Kept p s₀ s' → Post q s (some a) s' → Q a s') :
    Safe p s₀ (parse q >>= fun r => orReturnNull r) Q s := by
  refine safe_parse_first hq hrank hp h hstart fun r s' h' hpost => ?_
  exact safe_answer h' (fun hr => hpost.error hr hnull) fun a ha => hf a s' h' (ha ▸ hpost)

/-! ### Tokens -/

theorem safe_ifToken {t : JSTokenType} {x y : Parse β}
    (hx : s.token.type = t → Safe p s₀ x Q s) (hy : s.token.type ≠ t → Safe p s₀ y Q s) :
    Safe p s₀ (isToken t >>= fun b => if b = true then x else y) Q s := by
  rw [safe_bind]
  unfold Safe
  rw [wp_isToken]
  by_cases ht : s.token.type = t
  · simpa [answers, ht, Safe] using hx ht
  · simpa [answers, ht, Safe] using hy ht

theorem safe_tokenType {f : JSTokenType → Parse β} (hf : Safe p s₀ (f s.token.type) Q s) :
    Safe p s₀ (tokenType >>= f) Q s := by
  rw [safe_bind]
  unfold Safe
  rw [wp_tokenType]
  exact hf

theorem safe_tokenData {f : JSTokenData → Parse β} (hf : Safe p s₀ (f s.token.data) Q s) :
    Safe p s₀ (tokenData >>= f) Q s := by
  rw [safe_bind]
  unfold Safe
  rw [wp_tokenData]
  exact hf

theorem safe_tokenLine {f : Nat → Parse β} (hf : Safe p s₀ (f s.token.info.line) Q s) :
    Safe p s₀ (tokenLine >>= f) Q s := by
  rw [safe_bind]
  unfold Safe
  rw [wp_tokenLine]
  exact hf

theorem safe_assert {c : Bool} {e : Crash} {f : Unit → Parse β} (hc : c = true)
    (hf : Safe p s₀ (f ()) Q s) : Safe p s₀ (Parse.assert c e >>= f) Q s := by
  subst hc
  exact hf

theorem safe_assertToken {t : JSTokenType} {f : Unit → Parse β} (ht : s.token.type = t)
    (hf : Safe p s₀ (f ()) Q s) : Safe p s₀ (assertToken t >>= f) Q s := by
  rw [safe_bind]
  unfold assertToken
  rw [safe_bind]
  unfold Safe
  rw [wp_isToken]
  simp only [answers, Parse.assert, decide_eq_true ht, if_true]
  exact hf

theorem safe_matchOrFail {t : JSTokenType} {f : Unit → Parse β}
    (h : Kept p s₀ s) (hf : s.token.type = t → Safe p s₀ (f ()) Q s) :
    Safe p s₀ (matchOrFail t >>= f) Q s := by
  rw [safe_bind]
  exact safe_ifToken hf fun _ => safe_fail h

theorem safe_consume {t : JSTokenType} {x y : Parse β} (ht : t.isReal = true) (h : Kept p s₀ s)
    (hx : s.token.type = t → ∀ s', s.Next .identifyReservedWords s' → Past p s₀ s' →
      Safe p s₀ x Q s')
    (hy : ∀ s', Kept p s₀ s' → Safe p s₀ y Q s') :
    Safe p s₀ (consume t >>= fun b => if b = true then x else y) Q s := by
  rw [safe_bind]
  refine safe_ifToken (fun htoken => ?_) fun _ => ?_
  · refine safe_next h (htoken ▸ ht) fun s' hn h' => ?_
    show Safe p s₀ (if true = true then x else y) Q s'
    rw [if_pos rfl]
    exact hx htoken s' hn h'
  · rw [safe_bind]
    unfold Safe
    rw [wp_setError]
    intro _
    show Safe p s₀ (if false = true then x else y) Q s.failed
    rw [if_neg (by simp)]
    exact hy s.failed h.failed

theorem safe_consumeToken {t : JSTokenType} {f : Unit → Parse β} (ht : t.isReal = true)
    (h : Kept p s₀ s)
    (hf : s.token.type = t → ∀ s', s.Next .identifyReservedWords s' → Past p s₀ s' →
      Safe p s₀ (f ()) Q s') :
    Safe p s₀ (consumeOrFail t >>= f) Q s := by
  rw [safe_bind]
  exact safe_consume ht h hf fun s' h' => safe_fail h'

theorem safe_consumeOrFail {t : JSTokenType} {f : Unit → Parse β} (ht : t.isReal = true)
    (h : Kept p s₀ s)
    (hf : ∀ s', s.Next .identifyReservedWords s' → Past p s₀ s' → Safe p s₀ (f ()) Q s') :
    Safe p s₀ (consumeOrFail t >>= f) Q s :=
  safe_consumeToken ht h fun _ => hf

theorem safe_failIfFalse {c : Bool} {f : Unit → Parse β} (h : Kept p s₀ s)
    (hf : c = true → Safe p s₀ (f ()) Q s) : Safe p s₀ (failIfFalse c >>= f) Q s := by
  cases c with
  | true => exact hf rfl
  | false => exact safe_fail h

theorem safe_hasError {f : Bool → Parse β} (hf : Safe p s₀ (f s.error) Q s) :
    Safe p s₀ (hasError >>= f) Q s := by
  rw [safe_bind]
  unfold Safe
  rw [wp_hasError]
  exact hf

theorem safe_failIfError {f : Unit → Parse β} (h : Kept p s₀ s)
    (hf : s.error = false → Safe p s₀ (f ()) Q s) :
    Safe p s₀ (hasError >>= fun e => failIfTrue e >>= f) Q s := by
  refine safe_hasError ?_
  cases he : s.error with
  | true => exact safe_fail h
  | false => exact hf he

theorem safe_tokenCount {f : Nat → Parse β} (hf : Safe p s₀ (f s.tokenCount) Q s) :
    Safe p s₀ (tokenCount >>= f) Q s := by
  rw [safe_bind]
  unfold Safe
  rw [wp_tokenCount]
  exact hf

/-- `allowAutomaticSemicolon()`. -/
theorem safe_allowAutomaticSemicolon {Q : Bool → ParserState → Prop} (hf : ∀ b, Q b s) :
    Safe p s₀ allowAutomaticSemicolon Q s := by
  refine safe_tokenType ?_
  rw [safe_bind]
  unfold Safe
  rw [wp_perform_ok ⟨by simp, id⟩ (rfl : parserStep .prevTerminator s = .ok
    (s.lexer.terminator, s))]
  exact hf _

/-- `autoSemiColon()`, once something was read. -/
theorem safe_autoSemiColon {f : Bool → Parse β} (h : Past p s₀ s)
    (hf : ∀ b s', Past p s₀ s' → Safe p s₀ (f b) Q s') :
    Safe p s₀ (autoSemiColon >>= f) Q s := by
  rw [safe_bind]
  refine safe_ifToken (fun ht => ?_) fun _ => ?_
  · exact safe_next h.toKept (ht ▸ rfl) fun s' _ h' => hf true s' h'
  · exact safe_allowAutomaticSemicolon fun b => hf b s h

/-- `failIfFalse(autoSemiColon())`. -/
theorem safe_semicolonOrFail {f : Unit → Parse β} (h : Past p s₀ s)
    (hf : ∀ s', Past p s₀ s' → Safe p s₀ (f ()) Q s') :
    Safe p s₀ (autoSemiColon >>= fun b => failIfFalse b >>= f) Q s :=
  safe_autoSemiColon h fun _ s' h' => safe_failIfFalse h'.toKept fun _ => hf s' h'

/-! ### Registers -/

theorem safe_getRegs {f : Registers → Parse β} (hf : Safe p s₀ (f s.regs) Q s) :
    Safe p s₀ (getRegs >>= f) Q s := by
  rw [safe_bind]
  unfold Safe
  rw [wp_getRegs]
  exact hf

theorem safe_modifyRegs {g : Registers → Registers} {f : Unit → Parse β}
    (hf : Safe p s₀ (f ()) Q { s with regs := g s.regs }) :
    Safe p s₀ (modifyRegs g >>= f) Q s := by
  rw [safe_bind]
  unfold Safe
  rw [wp_modifyRegs]
  exact hf

theorem safe_allowsIn {f : Bool → Parse β} (hf : Safe p s₀ (f s.regs.allowsIn) Q s) :
    Safe p s₀ (allowsIn >>= f) Q s := by
  rw [safe_bind]
  exact safe_getRegs hf

theorem safe_getStacks {f : BuilderStacks → Parse β} (hf : Safe p s₀ (f s.regs.context) Q s) :
    Safe p s₀ (getStacks >>= f) Q s := by
  rw [safe_bind]
  exact safe_getRegs hf

theorem safe_nonLHSCount {f : Nat → Parse β} (hf : Safe p s₀ (f s.regs.nonLHSCount) Q s) :
    Safe p s₀ (nonLHSCount >>= f) Q s := by
  rw [safe_bind]
  exact safe_getRegs hf

theorem safe_setNonLHSCount {n : Nat} {f : Unit → Parse β}
    (hf : Safe p s₀ (f ()) Q { s with regs := { s.regs with nonLHSCount := n } }) :
    Safe p s₀ (setNonLHSCount n >>= f) Q s :=
  safe_modifyRegs hf

theorem safe_bumpNonLHSCount {f : Unit → Parse β}
    (hf : ∀ n, Safe p s₀ (f ()) Q { s with regs := { s.regs with nonLHSCount := n } }) :
    Safe p s₀ (bumpNonLHSCount >>= f) Q s :=
  safe_modifyRegs (hf _)

theorem safe_modifyStacks {g : BuilderStacks → BuilderStacks} {f : Unit → Parse β}
    (hf : Safe p s₀ (f ()) Q { s with regs := { s.regs with context := g s.regs.context } }) :
    Safe p s₀ (modifyStacks g >>= f) Q s :=
  safe_modifyRegs hf

end Rules

end HammerJS
