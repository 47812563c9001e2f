import HammerJS.Syntax.Legal
import HammerJS.Syntax.Reads

/-!
# What a production finds

The contract under which a production that returns a node has read the lexemes of
a phrase, and the node is the one built of that phrase.  A run is given up where
`m_error` is set: what is parsed after a failure is never returned.

* `Production.Parsed`, `Production.Null` — what a production that returned
  something, or null, has read.
* `grammar` — the contract.
* `Finds` and its rules — how the code of a production meets it.
-/

namespace HammerJS

open Procs Machine Lexer Parse

variable [Platform]

/-! ## The contract -/

/-- A phrase of category `c` was read, and `b` built of it. -/
def Found (c : Category) (s : ParserState) (b : c.Built) (s' : ParserState) : Prop :=
  ∃ ph : Phrase c, b = ph.build ∧ Read s ph.lexemes ph.Calm s' ∧ ph.Legal true

/-- An expression of rank `n` at least was read, with `in` where `m_allowsIn` lets it. -/
def FoundExpr (n : Nat) (s : ParserState) (node : Node) (s' : ParserState) : Prop :=
  ∃ e : Phrase .expr, node = e.build ∧ Read s e.lexemes e.Calm s' ∧
    e.Legal s.regs.allowsIn ∧ n ≤ e.rank

/-- An expression of rank `n` at least was read without regard to `m_allowsIn`. -/
def FoundOperand (n : Nat) (s : ParserState) (node : Node) (s' : ParserState) : Prop :=
  ∃ e : Phrase .expr, node = e.build ∧ Read s e.lexemes e.Calm s' ∧ e.Legal true ∧ n ≤ e.rank

/-- What is legal after a part of a run is so before it. -/
theorem Consumed.legal {s s' : ParserState} {ls : List Lexeme} {calm : Prop} {c : Category}
    {ph : Phrase c} (h : Consumed s ls calm s') (hlegal : ph.Legal s'.regs.allowsIn) :
    ph.Legal s.regs.allowsIn :=
  h.allowsIn ▸ hlegal

/-- Add nodes to the children of a node. -/
def Node.appendAll (n : Node) (children : List Node) : Node :=
  { n with children := n.children ++ children.map some }

/-- Some statements were read, up to a token that ends a list of statements. -/
def FoundStatements (elements : Node) (s : ParserState) (node : Node) (s' : ParserState) : Prop :=
  (∃ body : Phrase .stmts, node = elements.appendAll body.build ∧
    Read s body.lexemes body.Calm s' ∧ body.Legal true) ∧ endsStatements s'.token.type = true

/-- Variables were declared, after those in `decls`. -/
def FoundVariables (decls : Option Node) (declarations : Nat) (lastInitializer : Option Node)
    (s : ParserState) (r : VarDeclarations) (s' : ParserState) : Prop :=
  ∃ (name : Identifier) (init : Phrase .init) (rest : Phrase .decls),
    r.decls = combineDeclarations
      (Builder.combineCommaNodes decls (declarationNode name init.build)) rest.build ∧
    r.declarations = declarations + 1 + rest.build.length ∧
    (rest.build = [] → r.lastIdent = name ∧
      r.lastInitializer = (init.build : Option Node).or lastInitializer) ∧
    Read s (.mark s.token.type :: .ident name :: init.lexemes ++ rest.lexemes)
      (init.Calm ∧ rest.Calm) s' ∧
    init.Legal s.regs.allowsIn ∧ rest.Legal s.regs.allowsIn

/-- The assignments of a chain: each operator with the operand after it. -/
abbrev AssignmentChain := List (AssignmentToken × Phrase .expr)

/-- The tokens of a chain. -/
def AssignmentChain.lexemes (chain : AssignmentChain) : List Lexeme :=
  chain.flatMap fun link => .mark link.1.1 :: link.2.lexemes

/-- The operands of a chain are legal, and those before an operator can be assigned to. -/
def AssignmentChain.Legal (allowsIn : Bool) : AssignmentChain → Prop
  | [] => True
  | (_, e) :: rest =>
      (e.Legal allowsIn ∧ 2 ≤ e.rank) ∧ (rest ≠ [] → e.Calm) ∧ Legal allowsIn rest

/-- The last operand of a chain that starts with `lhs`. -/
def AssignmentChain.last (lhs : Node) (chain : AssignmentChain) : Node :=
  chain.foldl (fun _ link => link.2.build) lhs

/-- What a chain that starts with `lhs` puts on the assignment stack. -/
def AssignmentChain.push : Node → AssignmentChain → List (Node × Operator) →
    List (Node × Operator)
  | _, [], stack => stack
  | lhs, (op, e) :: rest, stack => push e.build rest ((lhs, op.operator) :: stack)

/-- An operand of a binary expression that is still to be reduced, with the
operator behind it and its precedence. -/
structure SpineLink where
  left : Phrase .expr
  op : BinaryToken
  precedence : Nat

/-- The operands before the last one; the one read last comes first. -/
abbrev Spine := List SpineLink

/-- The tokens of a spine. -/
def Spine.lexemes : Spine → List Lexeme
  | [] => []
  | link :: rest => Spine.lexemes rest ++ link.left.lexemes ++ [.mark link.op.1]

/-- What a spine puts on the operand stack. -/
def Spine.operands (spine : Spine) : List Node := spine.map fun link => link.left.build

/-- What a spine puts on the operator stack. -/
def Spine.operators (spine : Spine) : List (JSTokenType × Nat) :=
  spine.map fun link => (link.op.1, link.precedence)

/-- The operator on top of a spine binds less tightly than an expression of rank `n`. -/
def Spine.Below (n : Nat) (spine : Spine) : Prop :=
  ∀ link ∈ spine.head?, 2 + link.op.precedence < n

/-- The operands of a spine are legal, and its operators bind ever more tightly. -/
def Spine.Legal (allowsIn : Bool) : Spine → Prop
  | [] => True
  | link :: rest =>
      (link.left.Legal allowsIn ∧ 2 + link.op.precedence ≤ link.left.rank) ∧
        (link.op.1 = .inToken → allowsIn = true) ∧
          link.precedence = link.op.1.isBinaryOperator allowsIn ∧ link.precedence ≠ 0 ∧
            Spine.Below (2 + link.op.precedence) rest ∧ Spine.Legal allowsIn rest

/-- The operand that a spine is followed by. -/
structure Spine.Follows (allowsIn : Bool) (spine : Spine) (current : Phrase .expr) : Prop where
  operands : Spine.Legal allowsIn spine
  legal : current.Legal allowsIn
  rank : 3 ≤ current.rank
  below : Spine.Below current.rank spine

/-- The spine that a call of the loop of `parseBinaryExpression` goes on with, and
what the stacks hold below it. -/
structure SpineAt (s : ParserState) (operandStackDepth operatorStackDepth : Nat) where
  spine : Spine
  operands : List Node
  operators : List (JSTokenType × Nat)
  operandDepth : operandStackDepth = spine.length
  operatorDepth : operatorStackDepth = spine.length
  operand_eq : s.regs.context.binaryOperand = spine.operands ++ operands
  operator_eq : s.regs.context.binaryOperator = spine.operators ++ operators
  legal : spine.Legal s.regs.allowsIn

/-- The links of a chain of `if` statements: each `else if` with its condition and
its branch. -/
abbrev IfChain := List (Phrase .expr × Phrase .stmt)

/-- The tokens of a chain of `if` statements, and of a last `else`. -/
def IfChain.lexemes (chain : IfChain) (last : Option (Phrase .stmt)) : List Lexeme :=
  (chain.flatMap fun link => .mark .else :: .mark .if :: .mark .openParen ::
      link.1.lexemes ++ .mark .closeParen :: link.2.lexemes) ++
    last.elim [] fun body => .mark .else :: body.lexemes

/-- The parts of a chain of `if` statements are legal. -/
def IfChain.Legal (chain : IfChain) (last : Option (Phrase .stmt)) : Prop :=
  (∀ link ∈ chain, link.1.Legal true ∧ link.2.Legal true) ∧
    ∀ body, last = some body → body.Legal true

/-- Whether a chain of `if` statements leaves the count as it was. -/
def IfChain.Calm (chain : IfChain) (last : Option (Phrase .stmt)) : Prop :=
  (∀ link ∈ chain, link.1.Calm ∧ link.2.Calm) ∧ ∀ body, last = some body → body.Calm

/-- What the loop of `parseMemberExpression` goes on with: what follows a `new` without
arguments is no call. -/
abbrev MemberBase (base : Node) (newCount : Nat) :=
  { e : Phrase .expr // base = e.build ∧ e.Legal true ∧ 16 ≤ e.rank ∧
    (newCount ≠ 0 → e.rank = 17) }

/-- What a production that returned something has read. -/
def Production.Parsed : (p : Production) → ParserState → p.Ret → ParserState → Prop
  | .createSyntaxTree, s, node, s' =>
      ∃ s₁, s.Next .identifyReservedWords s₁ ∧ FoundStatements Builder.createSourceElements s₁ node s'
  | .sourceElements, s, node, s' => FoundStatements Builder.createSourceElements s node s'
  | .sourceElementsLoop elements, s, node, s' => FoundStatements elements s node s'
  | .varDeclarationList, s, r, s' => FoundVariables none 0 none s r s'
  | .varDeclarationLoop decls declarations lastInitializer, s, r, s' =>
      FoundVariables decls declarations lastInitializer s r s'
  | .constDeclarationList, _, _, _ => False
  | .constDeclarationLoop _ _, _, _, _ => False
  | .switchClauses, s, node, s' =>
      ∃ clauses : Phrase .clauses, some node = Node.ofListOrNull .clauseList clauses.build ∧
        Read s clauses.lexemes clauses.Calm s' ∧ clauses.Legal true
  | .switchClausesLoop list, s, node, s' =>
      ∃ clauses : Phrase .clauses, node = list.appendAll clauses.build ∧
        Read s clauses.lexemes clauses.Calm s' ∧ clauses.Legal true
  | .switchDefaultClause, s, node, s' => Found .default s (some node) s'
  | .statement, s, node, s' => Found .stmt s node s' ∧ endsStatements s.token.type = false
  | .varDeclaration, s, node, s' | .constDeclaration, s, node, s'
  | .doWhileStatement, s, node, s' | .whileStatement, s, node, s' | .forStatement, s, node, s'
  | .breakStatement, s, node, s' | .continueStatement, s, node, s'
  | .returnStatement, s, node, s' | .throwStatement, s, node, s' | .withStatement, s, node, s'
  | .switchStatement, s, node, s' | .tryStatement, s, node, s'
  | .debuggerStatement, s, node, s' | .functionDeclaration, s, node, s'
  | .expressionOrLabelStatement, s, node, s' | .expressionStatement, s, node, s'
  | .ifStatement, s, node, s' => Found .stmt s node s'
  | .blockStatement, s, node, s' =>
      ∃ body : Phrase .stmts, node = blockNode body.build ∧
        Read s (.mark .openBrace :: body.lexemes ++ [.mark .closeBrace]) body.Calm s' ∧
          body.Legal true
  | .formalParameters, s, node, s' =>
      ∃ name rest, node = Builder.formalParameterList name rest ∧
        Read s (paramLexemes (name :: rest)) True s'
  | .formalParametersLoop tail, s, r, s' =>
      ∃ rest, r = tail ++ rest ∧
        Read s (rest.flatMap fun name => [.mark .comma, .ident name]) True s'
  | .functionBody, s, node, s' =>
      s'.regs.context = s.regs.context ∧ (s'.token.type = .closeBrace →
        ∃ body : Phrase .stmts, node = functionBodyNode body.build ∧
          Read s body.lexemes body.Calm s' ∧ body.Legal true)
  | .functionInfo _, s, info, s' =>
      ∃ (params : List Identifier) (body : Phrase .stmts),
        info.parameters = parametersNode params ∧ info.body = functionBodyNode body.build ∧
          Read s (functionLexemes info.name params body.lexemes) body.Calm s' ∧ body.Legal true
  | .ifLoop exprStack posStack statementStack, s, r, s' =>
      ∃ (chain : IfChain) (last : Option (Phrase .stmt)) (lines : List (Nat × Nat)),
        (last = none → chain ≠ []) ∧ lines.length = chain.length ∧
        r = ((chain.map fun link => (link.1.build : Node)).reverse ++ exprStack,
          lines ++ posStack, (last.toList.map fun body => (body.build : Node)) ++
            (chain.map fun link => (link.2.build : Node)).reverse ++ statementStack, last.isSome) ∧
        Read s (chain.lexemes last) (chain.Calm last) s' ∧ chain.Legal last
  | .expression, s, node, s' => FoundExpr 0 s node s'
  | .assignmentExpression, s, node, s' => FoundExpr 1 s node s'
  | .conditionalExpression, s, node, s' => FoundExpr 2 s node s'
  | .binaryExpression, s, node, s' => FoundExpr 3 s node s'
  | .unaryExpression, s, node, s' => FoundExpr 13 s node s'
  | .unaryExpressionBody, s, node, s' => FoundOperand 13 s node s'
  | .memberExpression, s, node, s' => FoundOperand 15 s node s'
  | .primaryExpression, s, node, s' | .objectLiteral, s, node, s' | .arrayLiteral, s, node, s' =>
      FoundOperand 17 s node s'
  | .commaLoop list, s, node, s' | .argumentsLoop list, s, node, s' =>
      ∃ rest : Phrase .exprs, node = list.appendAll rest.build ∧
        Read s rest.lexemes rest.Calm s' ∧ rest.Legal s.regs.allowsIn
  | .assignmentLoop lhs assignmentStack _, s, r, s' =>
      ∃ (chain : AssignmentChain) (calm : Prop), (chain = [] → calm) ∧
        r = (chain.last lhs, assignmentStack + chain.length) ∧
        s'.regs.context = { s.regs.context with
          assignmentInfo := AssignmentChain.push lhs chain s.regs.context.assignmentInfo } ∧
        Consumed s chain.lexemes calm s' ∧ chain.Legal s.regs.allowsIn
  | .binaryLoop operandStackDepth operatorStackDepth, s, r, s' =>
      ∀ before : SpineAt s operandStackDepth operatorStackDepth,
        ∃ (spine : Spine) (current : Phrase .expr) (ls : List Lexeme) (calm : Prop),
          r = (spine.length + 1, spine.length) ∧
          s'.regs.context = { s.regs.context with
            binaryOperand := current.build :: spine.operands ++ before.operands
            binaryOperator := spine.operators ++ before.operators } ∧
          spine.lexemes ++ current.lexemes = before.spine.lexemes ++ ls ∧
          (before.spine = [] → (calm ↔ spine = [] ∧ current.Calm)) ∧
          (before.spine ≠ [] → spine ≠ []) ∧ Consumed s ls calm s' ∧
          Spine.Follows s.regs.allowsIn spine current
  | .property, s, node, s' => Found .prop s node s'
  | .objectLoop list _, s, r, s' =>
      ∃ rest : Phrase .props, r = .inl (list.appendAll rest.build) ∧
        Read s rest.lexemes rest.Calm s' ∧ rest.Legal true
  | .strictObjectLiteral, _, _, _ => True
  | .strictObjectLoop _, _, _, _ => True
  | .elisionsLoop elisions, s, r, s' =>
      ∃ n, r = elisions + n ∧ Read s (elisionLexemes n) True s'
  | .arrayLoop list, s, node, s' =>
      ∃ rest : Phrase .elements, node = Builder.createArray (some (list.appendAll rest.build)) ∧
        Read s rest.lexemes rest.Calm s' ∧ rest.Legal true
  | .arguments, s, node, s' => Found .args s node s'
  | .newLoop newCount, s, r, s' =>
      ∃ n, r = newCount + n ∧ Read s (List.replicate n (.mark .new)) True s'
  | .memberLoop base newCount, s, r, s' =>
      ∀ e : MemberBase base newCount, ∃ (e' : MemberBase r.1 r.2) (ls : List Lexeme) (calm : Prop),
        r.2 ≤ newCount ∧
        e'.1.lexemes = List.replicate (newCount - r.2) (.mark .new) ++ e.1.lexemes ++ ls ∧
        (e'.1.Calm ↔ e.1.Calm ∧ calm) ∧ Read s ls calm s'
  | .unaryTokensLoop tokenStackDepth, s, r, s' =>
      ∃ ops : List UnaryToken, r = tokenStackDepth + ops.length ∧
        s'.regs.context = { s.regs.context with
          unaryToken := (ops.map Subtype.val).reverse ++ s.regs.context.unaryToken } ∧
        Consumed s (ops.map fun op => .mark op.1) (ops = []) s'

/-- What a production that returned null without an error has read. -/
def Production.Null : Production → ParserState → ParserState → Prop
  | .statement, s, s' => s' = s ∧ endsStatements s.token.type = true
  | .switchClauses, s, s' => s' = s ∧ s.token.type ≠ .case
  | .switchDefaultClause, s, s' => s' = s ∧ s.token.type ≠ .default
  | .functionInfo _, s, s' => s' = s
  | _, _, _ => False

/-- What a production goes on with; two productions are never called. -/
def Production.Starts : Production → ParserState → Prop
  | .strictObjectLiteral, _ => False
  | .strictObjectLoop _, _ => False
  | .binaryLoop operandStackDepth operatorStackDepth, s =>
      Nonempty (SpineAt s operandStackDepth operatorStackDepth)
  | .memberLoop base newCount, _ => Nonempty (MemberBase base newCount)
  | .assignmentLoop _ _ initialNonLHSCount, s => s.regs.nonLHSCount = initialNonLHSCount
  | .expressionOrLabelStatement, s => s.token.type = .ident
  | .constDeclarationLoop _ tail, _ => tail = none
  | .ifLoop _ _ _, s => s.token.type = .else
  | _, _ => True

/-- The loops over operators are told exactly how many entries of the stacks are
theirs, by the production `p` that was called in `s₀` and runs them. -/
def Production.Tells (p : Production) (s₀ : ParserState) : Production → ParserState → Prop
  | .binaryLoop operandStackDepth operatorStackDepth, s =>
      s₀.regs.context.binaryOperand.length + operandStackDepth =
          s.regs.context.binaryOperand.length + p.slack ∧
        s₀.regs.context.binaryOperator.length + operatorStackDepth =
          s.regs.context.binaryOperator.length + p.slack
  | .unaryTokensLoop tokenStackDepth, s =>
      s₀.regs.context.unaryToken.length + tokenStackDepth =
        s.regs.context.unaryToken.length + p.unaryDepth
  | .assignmentLoop _ assignmentStack _, s =>
      s₀.regs.context.assignmentInfo.length + assignmentStack =
        s.regs.context.assignmentInfo.length + p.assignmentDepth
  | _, _ => True

/-- The contract of the parser, where it does not fail. -/
def grammar : Contract parserInterface ParserState Crash where
  pre := Production.Starts
  post p s r s' :=
    match r with
    | some a => p.Parsed s a s'
    | none => p.Null s s'
  excuses _ _ _ := True
  forbids _ _ _ := False
  dead o _ := o = .setError

instance : Ordinary grammar := ⟨fun h => h, fun h => h.elim⟩

/-! ## Rules -/

/-- `Q` of what is returned, and what is left of `p` when it returns null. -/
def yields (p : Production) (s₀ : ParserState) {α : Type} (Q : α → ParserState → Prop) :
    Option α → ParserState → Prop
  | some a, s => Q a s
  | none, s => p.Null s₀ s

/-- The code `x`, inside the production `p` that was called in `s₀`, reaches `Q`,
unless it fails. -/
def Finds (p : Production) (s₀ : ParserState) {α : Type} (x : Parse α)
    (Q : α → ParserState → Prop) (s : ParserState) : Prop :=
  parser.wp (grammar.calling (p.Tells s₀)) (fun _ => True) x (yields p s₀ Q) s

section Rules

variable {p q : Production} {s₀ s : ParserState} {α β : Type} {Q : β → ParserState → Prop}

/-- The code of a production meets the contract when it finds what it should. -/
theorem Finds.body {x : Parse p.Ret} (h : Finds p s₀ x (p.Parsed s₀) s) :
    parser.wp (grammar.calling (p.Tells s₀)) (fun _ => True) x (grammar.post p s₀) s := by
  refine wp_mono ?_ h
  rintro (_ | a) s' hr
  · exact hr
  · exact hr

theorem finds_pure {b : β} : Finds p s₀ (pure b) Q s = Q b s := rfl

theorem finds_bind {x : Parse α} {f : α → Parse β} :
    Finds p s₀ (x >>= f) Q s = Finds p s₀ x (fun a => Finds p s₀ (f a) Q) s := by
  unfold Finds
  rw [wp_bind]
  congr 1
  funext r s'
  cases r <;> rfl

/-- A postcondition for every value of some auxiliary variables. -/
theorem finds_forall {ι : Sort*} (hι : Nonempty ι) {Q : ι → β → ParserState → Prop}
    {x : Parse β} (h : ∀ i, Finds p s₀ x (Q i) s) :
    Finds p s₀ x (fun b s' => ∀ i, Q i b s') s := by
  refine wp_mono ?_ (wp_forall h)
  rintro (_ | b) s' hr
  · exact hr hι.some
  · exact hr

theorem Finds.mono {Q' : β → ParserState → Prop} {x : Parse β} (hx : Finds p s₀ x Q s)
    (h : ∀ b s', Q b s' → Q' b s') : Finds p s₀ x Q' s := by
  refine wp_mono ?_ hx
  rintro (_ | b) s' hr
  · exact hr
  · exact h b s' hr

/-- Nothing is claimed where the production fails. -/
theorem finds_fail : Finds p s₀ fail Q s := by
  unfold Finds
  rw [wp_fail]
  exact fun h => absurd rfl h

theorem finds_crash {e : Crash} : Finds p s₀ (crash e) Q s := by
  unfold Finds
  rw [wp_crash]
  exact Or.inl trivial

theorem finds_returnNull (h : p.Null s₀ s) : Finds p s₀ returnNull Q s := h

theorem finds_parse {f : Option q.Ret → Parse β} (hq : q.Starts s) (htells : p.Tells s₀ q s)
    (hf : ∀ r s', parser.Returns q s r s' → grammar.post q s r s' → Finds p s₀ (f r) Q s') :
    Finds p s₀ (parse q >>= f) Q s :=
  wp_parse ⟨hq, htells⟩ hf

theorem finds_failIfNull {r : Option α} {f : α → Parse β}
    (hf : ∀ a, r = some a → Finds p s₀ (f a) Q s) : Finds p s₀ (failIfNull r >>= f) Q s := by
  cases r with
  | none => exact finds_fail
  | some a => exact hf a rfl

/-- A call that must return something. -/
theorem finds_parseOrFail {f : q.Ret → Parse β} (hq : q.Starts s) (htells : p.Tells s₀ q s)
    (hf : ∀ a s', q.Parsed s a s' → Finds p s₀ (f a) Q s') :
    Finds p s₀ (parse q >>= fun r => failIfNull r >>= f) Q s := by
  refine finds_parse hq htells fun _ s' _ hpost => finds_failIfNull fun a ha => ?_
  rw [ha] at hpost
  exact hf a s' hpost

/-- The productions that do not return null without an error. -/
def Production.NeverNull (q : Production) : Prop := ∀ s s', ¬ q.Null s s'

/-- A call whose null is returned. -/
theorem finds_parseOrNull {f : q.Ret → Parse β} (hnull : q.NeverNull) (hq : q.Starts s)
    (htells : p.Tells s₀ q s) (hf : ∀ a s', q.Parsed s a s' → Finds p s₀ (f a) Q s') :
    Finds p s₀ (parse q >>= fun r => orReturnNull r >>= f) Q s := by
  refine finds_parse hq htells fun r s' _ hpost => ?_
  cases r with
  | none => exact absurd hpost (hnull s s')
  | some a => exact hf a s' hpost

/-- A call whose answer is the answer. -/
theorem finds_parseLast {Q : q.Ret → ParserState → Prop} (hnull : q.NeverNull)
    (hq : q.Starts s) (htells : p.Tells s₀ q s) (hf : ∀ a s', q.Parsed s a s' → Q a s') :
    Finds p s₀ (parse q >>= fun r => orReturnNull r) Q s := by
  refine finds_parse hq htells fun r s' _ hpost => ?_
  cases r with
  | none => exact absurd hpost (hnull s s')
  | some a => exact hf a s' hpost

/-! ### Tokens -/

theorem finds_next {lexType : LexType} {f : Unit → Parse β}
    (hf : ∀ s', s.Next lexType s' → Finds p s₀ (f ()) Q s') :
    Finds p s₀ (next lexType >>= f) Q s := by
  rw [finds_bind]
  unfold Finds
  rw [wp_next]
  exact ⟨fun _ _ => Or.inl trivial, hf, fun _ _ => Or.inl trivial⟩

/-- `next()`, over a token of which only the type matters. -/
theorem finds_skip {t : JSTokenType} {f : Unit → Parse β} (ht : s.token.type = t)
    (hf : ∀ s', Read s [.mark t] True s' → Finds p s₀ (f ()) Q s') :
    Finds p s₀ (next >>= f) Q s :=
  finds_next fun s' hn => hf s' (.mark ht hn)

theorem finds_isToken {t : JSTokenType} {f : Bool → Parse β}
    (hf : Finds p s₀ (f (decide (s.token.type = t))) Q s) : Finds p s₀ (isToken t >>= f) Q s := by
  rw [finds_bind]
  unfold Finds
  rw [wp_isToken]
  exact hf

theorem finds_ifToken {t : JSTokenType} {x y : Parse β}
    (hx : s.token.type = t → Finds p s₀ x Q s) (hy : s.token.type ≠ t → Finds p s₀ y Q s) :
    Finds p s₀ (isToken t >>= fun b => if b = true then x else y) Q s := by
  refine finds_isToken ?_
  by_cases ht : s.token.type = t
  · simpa [ht] using hx ht
  · simpa [ht] using hy ht

theorem finds_tokenType {f : JSTokenType → Parse β} (hf : Finds p s₀ (f s.token.type) Q s) :
    Finds p s₀ (tokenType >>= f) Q s := by
  rw [finds_bind]
  unfold Finds
  rw [wp_tokenType]
  exact hf

theorem finds_tokenData {f : JSTokenData → Parse β} (hf : Finds p s₀ (f s.token.data) Q s) :
    Finds p s₀ (tokenData >>= f) Q s := by
  rw [finds_bind]
  unfold Finds
  rw [wp_tokenData]
  exact hf

theorem finds_tokenLine {f : Nat → Parse β} (hf : Finds p s₀ (f s.token.info.line) Q s) :
    Finds p s₀ (tokenLine >>= f) Q s := by
  rw [finds_bind]
  unfold Finds
  rw [wp_tokenLine]
  exact hf

theorem finds_tokenCount {f : Nat → Parse β} (hf : Finds p s₀ (f s.tokenCount) Q s) :
    Finds p s₀ (tokenCount >>= f) Q s := by
  rw [finds_bind]
  unfold Finds
  rw [wp_tokenCount]
  exact hf

theorem finds_assert {c : Bool} {e : Crash} {f : Unit → Parse β}
    (hf : c = true → Finds p s₀ (f ()) Q s) : Finds p s₀ (Parse.assert c e >>= f) Q s := by
  cases c with
  | true => exact hf rfl
  | false =>
      rw [finds_bind]
      exact finds_crash

theorem finds_assertToken {t : JSTokenType} {f : Unit → Parse β}
    (hf : s.token.type = t → Finds p s₀ (f ()) Q s) : Finds p s₀ (assertToken t >>= f) Q s := by
  rw [finds_bind]
  unfold assertToken
  rw [finds_bind]
  unfold Finds
  rw [wp_isToken]
  by_cases ht : s.token.type = t
  · simpa [yields, ht, Finds, Parse.assert] using hf ht
  · simp only [yields, ht, decide_false, Parse.assert]
    exact finds_crash

theorem finds_matchOrFail {t : JSTokenType} {f : Unit → Parse β}
    (hf : s.token.type = t → Finds p s₀ (f ()) Q s) : Finds p s₀ (matchOrFail t >>= f) Q s := by
  rw [finds_bind]
  exact finds_ifToken hf fun _ => finds_fail

theorem finds_consume {t : JSTokenType} {x y : Parse β}
    (hx : ∀ s', Read s [.mark t] True s' → Finds p s₀ x Q s') :
    Finds p s₀ (consume t >>= fun b => if b = true then x else y) Q s := by
  rw [finds_bind]
  refine finds_ifToken (fun ht => ?_) fun _ => ?_
  · refine finds_skip ht fun s' h => ?_
    show Finds p s₀ (if true = true then x else y) Q s'
    rw [if_pos rfl]
    exact hx s' h
  · rw [finds_bind]
    unfold Finds
    rw [wp_setError]
    exact fun h => absurd rfl h

theorem finds_consumeOrFail {t : JSTokenType} {f : Unit → Parse β}
    (hf : ∀ s', Read s [.mark t] True s' → Finds p s₀ (f ()) Q s') :
    Finds p s₀ (consumeOrFail t >>= f) Q s := by
  rw [finds_bind]
  exact finds_consume hf

/-- `next()`, over a name. -/
theorem finds_skipIdent {f : Unit → Parse β} (ht : s.token.type = .ident)
    (hf : ∀ s', Read s [.ident s.token.data.getIdent] True s' → Finds p s₀ (f ()) Q s') :
    Finds p s₀ (next >>= f) Q s :=
  finds_next fun s' hn => hf s' (.ident ht hn)

theorem finds_failIfFalse {c : Bool} {f : Unit → Parse β}
    (hf : c = true → Finds p s₀ (f ()) Q s) : Finds p s₀ (failIfFalse c >>= f) Q s := by
  cases c with
  | true => exact hf rfl
  | false => exact finds_fail

theorem finds_hasError {f : Bool → Parse β} (hf : Finds p s₀ (f s.error) Q s) :
    Finds p s₀ (hasError >>= f) Q s := by
  rw [finds_bind]
  unfold Finds
  rw [wp_hasError]
  exact hf

theorem finds_failIfError {f : Unit → Parse β} (hf : Finds p s₀ (f ()) Q s) :
    Finds p s₀ (hasError >>= fun e => failIfTrue e >>= f) Q s := by
  refine finds_hasError ?_
  cases s.error with
  | true => exact finds_fail
  | false => exact hf

/-- `autoSemiColon()`: a semicolon was read, or nothing. -/
theorem finds_autoSemiColon {f : Bool → Parse β}
    (hyes : ∀ semi s', Read s (semiLexemes semi) True s' → Finds p s₀ (f true) Q s')
    (hno : Finds p s₀ (f false) Q s) : Finds p s₀ (autoSemiColon >>= f) Q s := by
  rw [finds_bind]
  refine finds_ifToken (fun ht => ?_) fun _ => ?_
  · exact finds_skip ht fun s' h => hyes true s' h
  · refine finds_tokenType ?_
    rw [finds_bind]
    unfold Finds
    rw [wp_perform_ok ⟨by simp, id⟩ (rfl : parserStep .prevTerminator s = .ok (s.lexer.terminator, s))]
    show Finds p s₀ (f _) Q s
    generalize (decide (s.token.type = .closeBrace) || decide (s.token.type = .eofTok) ||
      s.lexer.terminator) = b
    cases b with
    | true => exact hyes false s (.refl s)
    | false => exact hno

/-- `failIfFalse(autoSemiColon())`. -/
theorem finds_semicolonOrFail {f : Unit → Parse β}
    (hf : ∀ semi s', Read s (semiLexemes semi) True s' → Finds p s₀ (f ()) Q s') :
    Finds p s₀ (autoSemiColon >>= fun b => failIfFalse b >>= f) Q s :=
  finds_autoSemiColon hf finds_fail

/-! ### Registers -/

theorem finds_getRegs {f : Registers → Parse β} (hf : Finds p s₀ (f s.regs) Q s) :
    Finds p s₀ (getRegs >>= f) Q s := by
  rw [finds_bind]
  unfold Finds
  rw [wp_getRegs]
  exact hf

theorem finds_modifyRegs {g : Registers → Registers} {f : Unit → Parse β}
    (hf : Finds p s₀ (f ()) Q { s with regs := g s.regs }) :
    Finds p s₀ (modifyRegs g >>= f) Q s := by
  rw [finds_bind]
  unfold Finds
  rw [wp_modifyRegs]
  exact hf

theorem finds_allowsIn {f : Bool → Parse β} (hf : Finds p s₀ (f s.regs.allowsIn) Q s) :
    Finds p s₀ (allowsIn >>= f) Q s := by
  rw [finds_bind]
  exact finds_getRegs hf

theorem finds_getStacks {f : BuilderStacks → Parse β} (hf : Finds p s₀ (f s.regs.context) Q s) :
    Finds p s₀ (getStacks >>= f) Q s := by
  rw [finds_bind]
  exact finds_getRegs hf

theorem finds_nonLHSCount {f : Nat → Parse β} (hf : Finds p s₀ (f s.regs.nonLHSCount) Q s) :
    Finds p s₀ (nonLHSCount >>= f) Q s := by
  rw [finds_bind]
  exact finds_getRegs hf

theorem finds_setNonLHSCount {n : Nat} {f : Unit → Parse β}
    (hf : Finds p s₀ (f ()) Q { s with regs := { s.regs with nonLHSCount := n } }) :
    Finds p s₀ (setNonLHSCount n >>= f) Q s :=
  finds_modifyRegs hf

theorem finds_bumpNonLHSCount {f : Unit → Parse β}
    (hf : Finds p s₀ (f ()) Q
      { s with regs := { s.regs with nonLHSCount := s.regs.nonLHSCount + 1 } }) :
    Finds p s₀ (bumpNonLHSCount >>= f) Q s :=
  finds_modifyRegs hf

theorem finds_modifyStacks {g : BuilderStacks → BuilderStacks} {f : Unit → Parse β}
    (hf : Finds p s₀ (f ()) Q { s with regs := { s.regs with context := g s.regs.context } }) :
    Finds p s₀ (modifyStacks g >>= f) Q s :=
  finds_modifyRegs hf

end Rules

end HammerJS
