import HammerJS.Procs.Program
import HammerJS.Reflect.Lex
import HammerJS.Reflect.Node

/-!
# The parser: state and commands

The state of `JSParser` and of the builder it drives, the commands a production
is written with, and the macros of `JSParser.cpp`.

A production is a `Procs.Program`: `quit` is `return 0`, and a call answers none
when the production called did that.  The commands let a production read the
current token, move to the next one, read and write the registers it shares with
the others, and set `m_error`; nothing clears `m_error`.

`m_assignmentCount`, `m_lastLine` and `m_lastTokenEnd` only reach arguments that
the builder ignores, and are left out with them.
-/

namespace HammerJS

open Procs Lexer

/-- The stacks of `SyntaxTree::Builder`, top first.  Of an operand only the node
is kept: its `BinaryOpInfo` is never read. -/
structure BuilderStacks where
  assignmentInfo : List (Node × Operator) := []
  binaryOperand : List Node := []
  binaryOperator : List (JSTokenType × Nat) := []
  unaryToken : List JSTokenType := []

/-- What productions read and write besides the token stream: `m_allowsIn`,
`m_nonLHSCount` and the stacks of the current builder. -/
structure Registers where
  allowsIn : Bool := true
  nonLHSCount : Nat := 0
  context : BuilderStacks := {}

/-- The state of `JSParser`. -/
structure ParserState where
  lexer : Lexer
  error : Bool
  token : JSToken
  tokenCount : Nat
  /-- `m_syntaxAlreadyValidated`, which no source sets. -/
  syntaxAlreadyValidated : Bool
  regs : Registers

/-- The commands of a production. -/
inductive ParserOp where
  /-- `next(lexType)`. -/
  | next (lexType : LexType)
  /-- `m_lexer->scanRegExp(…)`. -/
  | scanRegExp (patternPrefix : Option UChar)
  /-- `m_lexer->setOffset(…)`. -/
  | setOffset (offset : Nat)
  /-- Read `m_token`. -/
  | token
  /-- Read `m_tokenCount`. -/
  | tokenCount
  /-- `m_lexer->prevTerminator()`. -/
  | prevTerminator
  /-- Read `m_syntaxAlreadyValidated`. -/
  | syntaxAlreadyValidated
  /-- Read `m_error`. -/
  | hasError
  /-- `m_error = true`. -/
  | setError
  /-- Read the registers. -/
  | getRegs
  /-- Write the registers. -/
  | setRegs (regs : Registers)
  /-- A failing assertion, a call of `CRASH()` or an invalid access. -/
  | crash (e : Crash)

/-- What the commands answer. -/
abbrev ParserOp.Res : ParserOp → Type
  | .next _ => Unit
  | .scanRegExp _ => Option (Identifier × Identifier)
  | .setOffset _ => Unit
  | .token => JSToken
  | .tokenCount => Nat
  | .prevTerminator => Bool
  | .syntaxAlreadyValidated => Bool
  | .hasError => Bool
  | .setError => Unit
  | .getRegs => Registers
  | .setRegs _ => Unit
  | .crash _ => Empty

/-- What `parseVarDeclarationList` returns, its reference parameters included. -/
structure VarDeclarations where
  decls : Node
  declarations : Nat
  lastIdent : Identifier
  lastInitializer : Option Node

/-- What `parseFunctionInfo` writes through its reference parameters. -/
structure FunctionInfo where
  name : Option Identifier
  parameters : Option Node
  body : Node

/-- The productions.  A loop that reads tokens is a procedure of its own, whose
arguments are the variables the loop changes. -/
inductive Production where
  | createSyntaxTree
  | sourceElements
  | sourceElementsLoop (elements : Node)
  | varDeclaration
  | constDeclaration
  | doWhileStatement
  | whileStatement
  | varDeclarationList
  | varDeclarationLoop (varDecls : Option Node) (declarations : Nat)
      (lastInitializer : Option Node)
  | constDeclarationList
  | constDeclarationLoop (constDecls tail : Option Node)
  | forStatement
  | breakStatement
  | continueStatement
  | returnStatement
  | throwStatement
  | withStatement
  | switchStatement
  | switchClauses
  | switchClausesLoop (clauseList : Node)
  | switchDefaultClause
  | tryStatement
  | debuggerStatement
  | blockStatement
  | statement
  | formalParameters
  | formalParametersLoop (tail : List Identifier)
  | functionBody
  | functionInfo (needsName : Bool)
  | functionDeclaration
  | expressionOrLabelStatement
  | expressionStatement
  | ifStatement
  | ifLoop (exprStack : List Node) (posStack : List (Nat × Nat)) (statementStack : List Node)
  | expression
  | commaLoop (commaNode : Node)
  | assignmentExpression
  | assignmentLoop (lhs : Node) (assignmentStack initialNonLHSCount : Nat)
  | conditionalExpression
  | binaryExpression
  | binaryLoop (operandStackDepth operatorStackDepth : Nat)
  | property
  | objectLiteral
  | objectLoop (propertyList : Node) (startOffset : Nat)
  | strictObjectLiteral
  | strictObjectLoop (propertyList : Node)
  | arrayLiteral
  | elisionsLoop (elisions : Nat)
  | arrayLoop (elementList : Node)
  | primaryExpression
  | arguments
  | argumentsLoop (argList : Node)
  | memberExpression
  | newLoop (newCount : Nat)
  | memberLoop (base : Node) (newCount : Nat)
  | unaryExpression
  | unaryExpressionBody
  | unaryTokensLoop (tokenStackDepth : Nat)

/-- What the productions return. -/
abbrev Production.Ret : Production → Type
  | .varDeclarationList => VarDeclarations
  | .varDeclarationLoop _ _ _ => VarDeclarations
  | .functionInfo _ => FunctionInfo
  | .formalParametersLoop _ => List Identifier
  | .ifLoop _ _ _ => List Node × List (Nat × Nat) × List Node × Bool
  | .assignmentLoop _ _ _ => Node × Nat
  | .binaryLoop _ _ => Nat × Nat
  | .elisionsLoop _ => Nat
  | .newLoop _ => Nat
  | .memberLoop _ _ => Node × Nat
  | .unaryTokensLoop _ => Nat
  | .objectLoop _ _ => Node ⊕ Node
  | _ => Node

/-- The commands and the productions of the parser. -/
abbrev parserInterface : Interface where
  Op := ParserOp
  Res := ParserOp.Res
  Proc := Production
  Ret := Production.Ret

/-- The code of a production. -/
abbrev Parse (α : Type) := Program parserInterface α

/-- What the commands do. -/
def parserStep [Platform] : (o : ParserOp) → ParserState → Except Crash (o.Res × ParserState)
  | .next lexType, s =>
      (Lexer.lex lexType s.token s.lexer).map fun (token, lexer) =>
        ((), { s with token, lexer, tokenCount := s.tokenCount + 1 })
  | .scanRegExp patternPrefix, s =>
      (Lexer.scanRegExp patternPrefix s.lexer).map fun (r, lexer) => (r, { s with lexer })
  | .setOffset offset, s => .ok ((), { s with lexer := s.lexer.setOffset offset })
  | .token, s => .ok (s.token, s)
  | .tokenCount, s => .ok (s.tokenCount, s)
  | .prevTerminator, s => .ok (s.lexer.terminator, s)
  | .syntaxAlreadyValidated, s => .ok (s.syntaxAlreadyValidated, s)
  | .hasError, s => .ok (s.error, s)
  | .setError, s => .ok ((), { s with error := true })
  | .getRegs, s => .ok (s.regs, s)
  | .setRegs regs, s => .ok ((), { s with regs })
  | .crash e, _ => .error e

/-! ## Member functions and macros -/

namespace Parse

/-- `next(lexType)`. -/
def next (lexType : LexType := .identifyReservedWords) : Parse Unit :=
  Program.perform (S := parserInterface) (.next lexType)

/-- The type of the current token. -/
def tokenType : Parse JSTokenType := do
  let t ← Program.perform (S := parserInterface) .token
  return t.type

/-- The data of the current token. -/
def tokenData : Parse JSTokenData := do
  let t ← Program.perform (S := parserInterface) .token
  return t.data

/-- `tokenLine()`. -/
def tokenLine : Parse Nat := do
  let t ← Program.perform (S := parserInterface) .token
  return t.info.line

/-- `match(expected)`. -/
def isToken (expected : JSTokenType) : Parse Bool := do
  let t ← Program.perform (S := parserInterface) .token
  return t.type = expected

/-- Read `m_error`. -/
def hasError : Parse Bool := Program.perform (S := parserInterface) .hasError

/-- Read `m_tokenCount`. -/
def tokenCount : Parse Nat := Program.perform (S := parserInterface) .tokenCount

/-- Read `m_syntaxAlreadyValidated`. -/
def syntaxAlreadyValidated : Parse Bool :=
  Program.perform (S := parserInterface) .syntaxAlreadyValidated

/-- `m_error = true`. -/
def setError : Parse Unit := Program.perform (S := parserInterface) .setError

/-- Crash. -/
def crash {α : Type} (e : Crash) : Parse α := .op (S := parserInterface) (.crash e) Empty.elim

/-- `ASSERT(c)`. -/
def assert (c : Bool) (e : Crash) : Parse Unit := if c then pure () else crash e

/-- `ASSERT(match(expected))`. -/
def assertToken (expected : JSTokenType) : Parse Unit := do
  assert (← isToken expected) .notMatched

/-- Call a production. -/
def parse (p : Production) : Parse (Option p.Ret) := Program.invoke (S := parserInterface) p

/-- `return 0`. -/
def returnNull {α : Type} : Parse α := .quit

/-- `fail()`. -/
def fail {α : Type} : Parse α := do
  setError
  returnNull

/-- `failIfFalse(cond)`. -/
def failIfFalse (cond : Bool) : Parse Unit := if cond then pure () else fail

/-- `failIfTrue(cond)`. -/
def failIfTrue (cond : Bool) : Parse Unit := if cond then fail else pure ()

/-- `failIfFalse(pointer)`: go on with what it points to. -/
def failIfNull {α : Type} : Option α → Parse α
  | some a => pure a
  | none => fail

/-- Return 0 when a loop of this production did. -/
def orReturnNull {α : Type} : Option α → Parse α
  | some a => pure a
  | none => returnNull

/-- `consume(expected)`. -/
def consume (expected : JSTokenType) : Parse Bool := do
  if ← isToken expected then
    next
    return true
  else
    setError
    return false

/-- `consumeOrFail(expected)`. -/
def consumeOrFail (expected : JSTokenType) : Parse Unit := do
  if ← consume expected then pure () else fail

/-- `matchOrFail(expected)`. -/
def matchOrFail (expected : JSTokenType) : Parse Unit := do
  if ← isToken expected then pure () else fail

/-- `allowAutomaticSemicolon()`. -/
def allowAutomaticSemicolon : Parse Bool := do
  let t ← tokenType
  let terminator ← Program.perform (S := parserInterface) .prevTerminator
  return t = .closeBrace || t = .eofTok || terminator

/-- `autoSemiColon()`. -/
def autoSemiColon : Parse Bool := do
  if ← isToken .semicolon then
    next
    return true
  else allowAutomaticSemicolon

/-- The registers. -/
def getRegs : Parse Registers := Program.perform (S := parserInterface) .getRegs

/-- Change the registers. -/
def modifyRegs (f : Registers → Registers) : Parse Unit := do
  let r ← getRegs
  Program.perform (S := parserInterface) (.setRegs (f r))

/-- Read `m_allowsIn`. -/
def allowsIn : Parse Bool := return (← getRegs).allowsIn

/-- Write `m_allowsIn`. -/
def setAllowsIn (b : Bool) : Parse Unit := modifyRegs fun r => { r with allowsIn := b }

/-- Read `m_nonLHSCount`. -/
def nonLHSCount : Parse Nat := return (← getRegs).nonLHSCount

/-- Write `m_nonLHSCount`. -/
def setNonLHSCount (n : Nat) : Parse Unit := modifyRegs fun r => { r with nonLHSCount := n }

/-- `m_nonLHSCount++`. -/
def bumpNonLHSCount : Parse Unit :=
  modifyRegs fun r => { r with nonLHSCount := r.nonLHSCount + 1 }

/-- The stacks of the current builder. -/
def getStacks : Parse BuilderStacks := return (← getRegs).context

/-- Change the stacks of the current builder. -/
def modifyStacks (f : BuilderStacks → BuilderStacks) : Parse Unit :=
  modifyRegs fun r => { r with context := f r.context }

/-- `isBinaryOperator(m_token.m_type)`. -/
def binaryPrecedence : Parse Nat := do
  let t ← tokenType
  return t.isBinaryOperator (← allowsIn)

/-! ## Stack operations of the builder -/

/-- `appendBinaryExpressionInfo`, and the operand that `appendBinaryOperation` pushes. -/
def pushOperand (node : Node) : Parse Unit :=
  modifyStacks fun k => { k with binaryOperand := node :: k.binaryOperand }

/-- `operatorStackAppend`. -/
def operatorStackAppend (op : JSTokenType) (precedence : Nat) : Parse Unit :=
  modifyStacks fun k => { k with binaryOperator := (op, precedence) :: k.binaryOperator }

/-- `operatorStackHasHigherPrecedence`. -/
def operatorStackHasHigherPrecedence (precedence : Nat) : Parse Bool := do
  match (← getStacks).binaryOperator with
  | [] => crash .emptyVector
  | (_, last) :: _ => return precedence ≤ last

/-- One reduction: `getFromOperandStack`, `shrinkOperandStackBy`,
`appendBinaryOperation` and `operatorStackPop`. -/
def reduceOperands : Parse Unit := do
  let k ← getStacks
  match k.binaryOperand, k.binaryOperator with
  | rhs :: lhs :: operands, (op, _) :: operators =>
      match Builder.makeBinaryNode op lhs rhs with
      | some node =>
          modifyStacks fun k =>
            { k with binaryOperand := node :: operands, binaryOperator := operators }
      | none => crash .convertOperator
  | _, _ => crash .emptyVector

/-- `popOperandStack`. -/
def popOperandStack : Parse Node := do
  match (← getStacks).binaryOperand with
  | [] => crash .emptyVector
  | node :: operands =>
      modifyStacks fun k => { k with binaryOperand := operands }
      return node

/-- `appendUnaryToken`. -/
def appendUnaryToken (t : JSTokenType) : Parse Unit :=
  modifyStacks fun k => { k with unaryToken := t :: k.unaryToken }

/-- `unaryTokenStackLastType`, and `unaryTokenStackRemoveLast` at the end of the turn. -/
def popUnaryToken : Parse JSTokenType := do
  match (← getStacks).unaryToken with
  | [] => crash .emptyVector
  | t :: ts =>
      modifyStacks fun k => { k with unaryToken := ts }
      return t

/-- `assignmentStackAppend`. -/
def assignmentStackAppend (node : Node) (op : Operator) : Parse Unit :=
  modifyStacks fun k => { k with assignmentInfo := (node, op) :: k.assignmentInfo }

/-- `createAssignment`, on the last entry of the assignment stack. -/
def createAssignment (rhs : Node) : Parse Node := do
  match (← getStacks).assignmentInfo with
  | [] => crash .emptyVector
  | (node, op) :: infos =>
      modifyStacks fun k => { k with assignmentInfo := infos }
      return Builder.createAssignment node op rhs

/-- `appendConstDecl`: it calls `append` on `tail`. -/
def appendConstDecl (tail : Option Node) (name : Identifier) (initializer : Option Node) :
    Parse Node :=
  match tail with
  | none => crash .nullNode
  | some tail => return tail.append (some (Builder.constDeclaration name initializer))

/-- `createGetterOrSetterProperty`, which always crashes. -/
def createGetterOrSetterProperty : Parse Node := crash .getterOrSetter

end Parse

end HammerJS
