import HammerJS.Reflect.Expressions

/-!
# The productions for statements and functions

`parseStatement` and the productions below it, `parseFunctionInfo` and its parts,
the code of every production, and the runs of the parser.
-/

namespace HammerJS

open Procs Lexer Parse

/-! ## Lists of statements -/

/-- `JSParser::createSyntaxTree`, with the `next()` of the constructor. -/
def createSyntaxTree : Parse Node := do
  next
  orReturnNull (← parse .sourceElements)

/-- `parseSourceElements`. -/
def parseSourceElements : Parse Node := do
  let sourceElements ←
    orReturnNull (← parse (.sourceElementsLoop Builder.createSourceElements))
  if ← hasError then fail else return sourceElements

/-- The loop of `parseSourceElements`. -/
def parseSourceElementsLoop (elements : Node) : Parse Node := do
  match ← parse .statement with
  | some statement =>
      orReturnNull (← parse (.sourceElementsLoop (Builder.appendStatement elements statement)))
  | none => return elements

/-- `parseBlockStatement`. -/
def parseBlockStatement : Parse Node := do
  assertToken .openBrace
  next
  if ← isToken .closeBrace then
    next
    return Builder.createBlockStatement none
  else
    let subtree ← failIfNull (← parse .sourceElements)
    matchOrFail .closeBrace
    next
    return Builder.createBlockStatement (some subtree)

/-! ## Declarations -/

/-- `parseVarDeclaration`. -/
def parseVarDeclaration : Parse Node := do
  assertToken .var
  let varDecls ← parse .varDeclarationList
  failIfTrue (← hasError)
  let varDecls ← orReturnNull varDecls
  failIfFalse (← autoSemiColon)
  return Builder.createVarStatement varDecls.decls

/-- `parseVarDeclarationList`, with its counters starting at 0. -/
def parseVarDeclarationList : Parse VarDeclarations := do
  orReturnNull (← parse (.varDeclarationLoop none 0 none))

/-- The loop of `parseVarDeclarationList`. -/
def parseVarDeclarationLoop (varDecls : Option Node) (declarations : Nat)
    (lastInitializer : Option Node) : Parse VarDeclarations := do
  next
  matchOrFail .ident
  let name := (← tokenData).getIdent
  next
  if ← isToken .equal then
    next
    let initializer ← failIfNull (← parse .assignmentExpression)
    let node := Builder.createAssignResolve name initializer
    continueVarDeclarations (Builder.combineCommaNodes varDecls node) (declarations + 1) name
      (some initializer)
  else
    let node := Builder.createVarIdentifier name
    continueVarDeclarations (Builder.combineCommaNodes varDecls node) (declarations + 1) name
      lastInitializer
where
  /-- The condition of the loop. -/
  continueVarDeclarations (varDecls : Node) (declarations : Nat) (lastIdent : Identifier)
      (lastInitializer : Option Node) : Parse VarDeclarations := do
    if ← isToken .comma then
      orReturnNull (← parse (.varDeclarationLoop (some varDecls) declarations lastInitializer))
    else return ⟨varDecls, declarations, lastIdent, lastInitializer⟩

/-- `parseConstDeclaration`. -/
def parseConstDeclaration : Parse Node := do
  assertToken .constToken
  let constDecls ← parse .constDeclarationList
  failIfTrue (← hasError)
  let constDecls ← orReturnNull constDecls
  failIfFalse (← autoSemiColon)
  return Builder.createConstStatement constDecls

/-- `parseConstDeclarationList`, with `constDecls` and `tail` starting at 0. -/
def parseConstDeclarationList : Parse Node := do
  orReturnNull (← parse (.constDeclarationLoop none none))

/-- The initializer of a constant, which is not tested. -/
def parseConstInitializer : Parse (Option Node) := do
  if ← isToken .equal then
    next
    parse .assignmentExpression
  else return none

/-- The loop of `parseConstDeclarationList`. -/
def parseConstDeclarationLoop (constDecls tail : Option Node) : Parse Node := do
  next
  matchOrFail .ident
  let name := (← tokenData).getIdent
  next
  let initializer ← parseConstInitializer
  let tail ← appendConstDecl tail name initializer
  let constDecls := constDecls.getD tail
  if ← isToken .comma then
    orReturnNull (← parse (.constDeclarationLoop (some constDecls) (some tail)))
  else return constDecls

/-! ## Loops -/

/-- `parseDoWhileStatement`; the semicolon is always optional. -/
def parseDoWhileStatement : Parse Node := do
  assertToken .do
  next
  let statement ← failIfNull (← parse .statement)
  consumeOrFail .while
  consumeOrFail .openParen
  let expr ← failIfNull (← parse .expression)
  consumeOrFail .closeParen
  if ← isToken .semicolon then next
  return Builder.createDoWhileStatement statement expr

/-- `parseWhileStatement`. -/
def parseWhileStatement : Parse Node := do
  assertToken .while
  next
  consumeOrFail .openParen
  let expr ← failIfNull (← parse .expression)
  consumeOrFail .closeParen
  let statement ← failIfNull (← parse .statement)
  return Builder.createWhileStatement expr statement

/-- An expression unless the current token is `t`. -/
def parseExpressionUnless (t : JSTokenType) : Parse (Option Node) := do
  if ← isToken t then return none
  else
    let expr ← failIfNull (← parse .expression)
    return some expr

/-- The label `standardForLoop` of `parseForStatement`. -/
def parseStandardForLoop (decls : Option Node) : Parse Node := do
  next
  let condition ← parseExpressionUnless .semicolon
  consumeOrFail .semicolon
  let increment ← parseExpressionUnless .closeParen
  consumeOrFail .closeParen
  let statement ← failIfNull (← parse .statement)
  return Builder.createForLoop decls condition increment statement

/-- The branch of `parseForStatement` for a header that starts with `var`. -/
def parseForVar : Parse Node := do
  setAllowsIn false
  let decls ← parse .varDeclarationList
  setAllowsIn true
  if ← hasError then fail
  else
    let decls ← orReturnNull decls
    if 1 < decls.declarations ∨ (← isToken .semicolon) then
      parseStandardForLoop (some decls.decls)
    else if ← consume .inToken then
      let expr ← failIfNull (← parse .expression)
      consumeOrFail .closeParen
      let statement ← failIfNull (← parse .statement)
      return Builder.createForInVar decls.lastIdent decls.lastInitializer expr statement
    else fail

/-- The init part of a header that is neither empty nor a declaration. -/
def parseForInit : Parse (Option Node) := do
  if ← isToken .semicolon then return none
  else
    setAllowsIn false
    let decls ← parse .expression
    setAllowsIn true
    let decls ← failIfNull decls
    return some decls

/-- `parseForStatement`. -/
def parseForStatement : Parse Node := do
  assertToken .for
  next
  consumeOrFail .openParen
  let oldNonLHSCount ← nonLHSCount
  if ← isToken .var then parseForVar
  else
    let decls ← parseForInit
    if ← isToken .semicolon then parseStandardForLoop decls
    else
      failIfFalse (oldNonLHSCount = (← nonLHSCount))
      consumeOrFail .inToken
      let expr ← failIfNull (← parse .expression)
      consumeOrFail .closeParen
      let statement ← failIfNull (← parse .statement)
      let decls ← orReturnNull decls
      return Builder.createForIn decls expr statement

/-! ## Jumps -/

/-- The label of a `break` or `continue`, if there is one. -/
def parseJumpLabel : Parse (Option Identifier) := do
  if ← autoSemiColon then return none
  else
    matchOrFail .ident
    let ident := (← tokenData).getIdent
    next
    failIfFalse (← autoSemiColon)
    return some ident

/-- `parseBreakStatement`. -/
def parseBreakStatement : Parse Node := do
  assertToken .break
  next
  return Builder.createBreakStatement (← parseJumpLabel)

/-- `parseContinueStatement`. -/
def parseContinueStatement : Parse Node := do
  assertToken .continue
  next
  return Builder.createContinueStatement (← parseJumpLabel)

/-- `parseReturnStatement`. -/
def parseReturnStatement : Parse Node := do
  assertToken .return
  next
  -- the semicolon comes first, so that a line break after `return` ends the statement
  if ← autoSemiColon then return Builder.createReturnStatement none
  else
    let expr ← failIfNull (← parse .expression)
    failIfFalse (← autoSemiColon)
    return Builder.createReturnStatement (some expr)

/-- `parseThrowStatement`. -/
def parseThrowStatement : Parse Node := do
  assertToken .throw
  next
  let expr ← failIfNull (← parse .expression)
  failIfFalse (← autoSemiColon)
  return Builder.createThrowStatement expr

/-! ## Other statements -/

/-- `parseWithStatement`. -/
def parseWithStatement : Parse Node := do
  assertToken .with
  next
  consumeOrFail .openParen
  let expr ← failIfNull (← parse .expression)
  consumeOrFail .closeParen
  let statement ← failIfNull (← parse .statement)
  return Builder.createWithStatement expr statement

/-- `parseSwitchStatement`. -/
def parseSwitchStatement : Parse Node := do
  assertToken .switch
  next
  consumeOrFail .openParen
  let expr ← failIfNull (← parse .expression)
  consumeOrFail .closeParen
  consumeOrFail .openBrace
  let firstClauses ← parse .switchClauses
  failIfTrue (← hasError)
  let defaultClause ← parse .switchDefaultClause
  failIfTrue (← hasError)
  let secondClauses ← parse .switchClauses
  failIfTrue (← hasError)
  consumeOrFail .closeBrace
  return Builder.createSwitchStatement expr firstClauses defaultClause secondClauses

/-- One clause of a switch, at its `case`. -/
def parseClause : Parse Node := do
  next
  let condition ← failIfNull (← parse .expression)
  consumeOrFail .colon
  let statements ← failIfNull (← parse .sourceElements)
  return Builder.createClause (some condition) statements

/-- `parseSwitchClauses`. -/
def parseSwitchClauses : Parse Node := do
  if ← isToken .case then
    let clause ← parseClause
    orReturnNull (← parse (.switchClausesLoop (Builder.createClauseList clause)))
  else returnNull

/-- The loop of `parseSwitchClauses`; `tail` stays equal to `clauseList`. -/
def parseSwitchClausesLoop (clauseList : Node) : Parse Node := do
  if ← isToken .case then
    let clause ← parseClause
    orReturnNull (← parse (.switchClausesLoop (Builder.appendClause clauseList clause)))
  else return clauseList

/-- `parseSwitchDefaultClause`. -/
def parseSwitchDefaultClause : Parse Node := do
  if ← isToken .default then
    next
    consumeOrFail .colon
    let statements ← failIfNull (← parse .sourceElements)
    return Builder.createClause none statements
  else returnNull

/-- The `catch` part of a `try` statement: its parameter and its block. -/
def parseCatch : Parse (Identifier × Option Node) := do
  if ← isToken .catch then
    next
    consumeOrFail .openParen
    matchOrFail .ident
    let ident := (← tokenData).getIdent
    next
    consumeOrFail .closeParen
    matchOrFail .openBrace
    let catchBlock ← failIfNull (← parse .blockStatement)
    return (ident, some catchBlock)
  else return ([], none)

/-- The `finally` part of a `try` statement. -/
def parseFinally : Parse (Option Node) := do
  if ← isToken .finally then
    next
    matchOrFail .openBrace
    let finallyBlock ← failIfNull (← parse .blockStatement)
    return some finallyBlock
  else return none

/-- `parseTryStatement`. -/
def parseTryStatement : Parse Node := do
  assertToken .try
  next
  matchOrFail .openBrace
  let tryBlock ← failIfNull (← parse .blockStatement)
  let (ident, catchBlock) ← parseCatch
  let finallyBlock ← parseFinally
  failIfFalse (catchBlock.isSome || finallyBlock.isSome)
  return Builder.createTryStatement tryBlock ident catchBlock finallyBlock

/-- `parseDebuggerStatement`. -/
def parseDebuggerStatement : Parse Node := do
  assertToken .debugger
  next
  failIfFalse (← autoSemiColon)
  return Builder.createDebugger

/-- `parseExpressionOrLabelStatement`: a label is looked for when the expression
was a single token and no semicolon ends it. -/
def parseExpressionOrLabelStatement : Parse Node := do
  let ident := (← tokenData).getIdent
  let currentToken ← tokenCount
  let expression ← failIfNull (← parse .expression)
  if ← autoSemiColon then return Builder.createExprStatement expression
  else
    failIfFalse (currentToken + 1 = (← tokenCount))
    consumeOrFail .colon
    let statement ← failIfNull (← parse .statement)
    return Builder.createLabelStatement ident statement

/-- `parseExpressionStatement`. -/
def parseExpressionStatement : Parse Node := do
  let expression ← failIfNull (← parse .expression)
  failIfFalse (← autoSemiColon)
  return Builder.createExprStatement expression

/-- The condition and the first branch of an `if`, at its `if`, and between them the lines
that its head starts and ends on. -/
def parseIfPart : Parse (Node × (Nat × Nat) × Node) := do
  let start ← tokenLine
  next
  consumeOrFail .openParen
  let condition ← failIfNull (← parse .expression)
  let stop ← tokenLine
  consumeOrFail .closeParen
  let trueBlock ← failIfNull (← parse .statement)
  return (condition, (start, stop), trueBlock)

/-- The last loop of `parseIfStatement`: fold the conditions and the branches on
the stacks, top first.  The builder ignores the positions that are popped with them. -/
def foldIf : List Node → List (Nat × Nat) → List Node → Parse (List Node)
  | [], _, statementStack => return statementStack
  | condition :: exprStack, _ :: posStack, falseBlock :: trueBlock :: statementStack =>
      foldIf exprStack posStack
        (Builder.createIfStatement condition trueBlock (some falseBlock) :: statementStack)
  | _ :: _, _, _ => crash .emptyVector

/-- The branch of `parseIfStatement` for a chain without a trailing `else`: the
last `if` is built without one. -/
def closeIf (exprStack : List Node) (posStack : List (Nat × Nat)) (statementStack : List Node) :
    Parse (List Node × List (Nat × Nat) × List Node) :=
  match exprStack, posStack, statementStack with
  | condition :: exprStack, _ :: posStack, trueBlock :: statementStack =>
      return (exprStack, posStack,
        Builder.createIfStatement condition trueBlock none :: statementStack)
  | _, _, _ => crash .emptyVector

/-- `parseIfStatement`. -/
def parseIfStatement : Parse Node := do
  assertToken .if
  let (condition, _, trueBlock) ← parseIfPart
  if ← isToken .else then
    let (exprStack, posStack, statementStack, trailingElse) ←
      orReturnNull (← parse (.ifLoop [] [] []))
    let (exprStack, posStack, statementStack) ←
      if trailingElse then pure (exprStack, posStack, statementStack)
      else closeIf exprStack posStack statementStack
    match ← foldIf exprStack posStack statementStack with
    | falseBlock :: _ => return Builder.createIfStatement condition trueBlock (some falseBlock)
    | [] => crash .emptyVector
  else return Builder.createIfStatement condition trueBlock none

/-- The first loop of `parseIfStatement`, over the `else` parts: the three stacks,
and whether the chain ends in an `else` without an `if`. -/
def parseIfLoop (exprStack : List Node) (posStack : List (Nat × Nat))
    (statementStack : List Node) : Parse (List Node × List (Nat × Nat) × List Node × Bool) := do
  next
  if ← isToken .if then
    let (condition, pos, trueBlock) ← parseIfPart
    let exprStack := condition :: exprStack
    let posStack := pos :: posStack
    let statementStack := trueBlock :: statementStack
    if ← isToken .else then orReturnNull (← parse (.ifLoop exprStack posStack statementStack))
    else return (exprStack, posStack, statementStack, false)
  else
    let block ← failIfNull (← parse .statement)
    return (exprStack, posStack, block :: statementStack, true)

/-! ## Functions -/

/-- `parseFormalParameters`. -/
def parseFormalParameters : Parse Node := do
  matchOrFail .ident
  let ident := (← tokenData).getIdent
  next
  let rest ← orReturnNull (← parse (.formalParametersLoop []))
  return Builder.formalParameterList ident rest

/-- The loop of `parseFormalParameters`: the names of the nodes linked behind the
first one. -/
def parseFormalParametersLoop (tail : List Identifier) : Parse (List Identifier) := do
  if ← isToken .comma then
    next
    matchOrFail .ident
    let ident := (← tokenData).getIdent
    next
    orReturnNull (← parse (.formalParametersLoop (tail ++ [ident])))
  else return tail

/-- `parseFunctionBody`.  The statements are parsed with a builder of their own,
so with empty stacks. -/
def parseFunctionBody : Parse Node := do
  if ← isToken .closeBrace then return Builder.createFunctionBody none
  else
    let context ← getStacks
    modifyStacks fun _ => {}
    let function ← parse .sourceElements
    modifyStacks fun _ => context
    let function ← failIfNull function
    return Builder.createFunctionBody (some function)

/-- The name of a function; a declaration needs one. -/
def parseFunctionName (needsName : Bool) : Parse (Option Identifier) := do
  if ← isToken .ident then
    let name := (← tokenData).getIdent
    next
    return some name
  else if needsName then returnNull
  else return none

/-- The parameters of a function, if there are any. -/
def parseParameters : Parse (Option Node) := do
  if ← isToken .closeParen then return none
  else
    let parameters ← failIfNull (← parse .formalParameters)
    return some parameters

/-- `parseFunctionInfo`. -/
def parseFunctionInfo (needsName : Bool) : Parse FunctionInfo := do
  let name ← parseFunctionName needsName
  consumeOrFail .openParen
  let parameters ← parseParameters
  consumeOrFail .closeParen
  matchOrFail .openBrace
  next
  let body ← failIfNull (← parse .functionBody)
  matchOrFail .closeBrace
  next
  return ⟨name, parameters, body⟩

/-- `parseFunctionDeclaration`. -/
def parseFunctionDeclaration : Parse Node := do
  assertToken .function
  next
  let info ← failIfNull (← parse (.functionInfo true))
  let name ← failIfNull info.name
  return Builder.createFuncDeclStatement name info.body info.parameters

/-! ## Statements -/

/-- The tokens at which `parseStatement` returns 0 without an error. -/
def endsStatements : JSTokenType → Bool
  | .eofTok | .case | .closeBrace | .default => true
  | _ => false

/-- `parseStatement`. -/
def parseStatement : Parse Node := do
  match ← tokenType with
  | .openBrace => orReturnNull (← parse .blockStatement)
  | .var => orReturnNull (← parse .varDeclaration)
  | .constToken => orReturnNull (← parse .constDeclaration)
  | .function => orReturnNull (← parse .functionDeclaration)
  | .semicolon =>
      next
      return Builder.createEmptyStatement
  | .if => orReturnNull (← parse .ifStatement)
  | .do => orReturnNull (← parse .doWhileStatement)
  | .while => orReturnNull (← parse .whileStatement)
  | .for => orReturnNull (← parse .forStatement)
  | .continue => orReturnNull (← parse .continueStatement)
  | .break => orReturnNull (← parse .breakStatement)
  | .return => orReturnNull (← parse .returnStatement)
  | .with => orReturnNull (← parse .withStatement)
  | .switch => orReturnNull (← parse .switchStatement)
  | .throw => orReturnNull (← parse .throwStatement)
  | .try => orReturnNull (← parse .tryStatement)
  | .debugger => orReturnNull (← parse .debuggerStatement)
  | .eofTok | .case | .closeBrace | .default => returnNull
  | .ident => orReturnNull (← parse .expressionOrLabelStatement)
  | _ => orReturnNull (← parse .expressionStatement)

/-! ## The parser -/

/-- The code of each production. -/
def productionBody [Platform] : (p : Production) → Parse p.Ret
  | .createSyntaxTree => createSyntaxTree
  | .sourceElements => parseSourceElements
  | .sourceElementsLoop elements => parseSourceElementsLoop elements
  | .varDeclaration => parseVarDeclaration
  | .constDeclaration => parseConstDeclaration
  | .doWhileStatement => parseDoWhileStatement
  | .whileStatement => parseWhileStatement
  | .varDeclarationList => parseVarDeclarationList
  | .varDeclarationLoop varDecls declarations lastInitializer =>
      parseVarDeclarationLoop varDecls declarations lastInitializer
  | .constDeclarationList => parseConstDeclarationList
  | .constDeclarationLoop constDecls tail => parseConstDeclarationLoop constDecls tail
  | .forStatement => parseForStatement
  | .breakStatement => parseBreakStatement
  | .continueStatement => parseContinueStatement
  | .returnStatement => parseReturnStatement
  | .throwStatement => parseThrowStatement
  | .withStatement => parseWithStatement
  | .switchStatement => parseSwitchStatement
  | .switchClauses => parseSwitchClauses
  | .switchClausesLoop clauseList => parseSwitchClausesLoop clauseList
  | .switchDefaultClause => parseSwitchDefaultClause
  | .tryStatement => parseTryStatement
  | .debuggerStatement => parseDebuggerStatement
  | .blockStatement => parseBlockStatement
  | .statement => parseStatement
  | .formalParameters => parseFormalParameters
  | .formalParametersLoop tail => parseFormalParametersLoop tail
  | .functionBody => parseFunctionBody
  | .functionInfo needsName => parseFunctionInfo needsName
  | .functionDeclaration => parseFunctionDeclaration
  | .expressionOrLabelStatement => parseExpressionOrLabelStatement
  | .expressionStatement => parseExpressionStatement
  | .ifStatement => parseIfStatement
  | .ifLoop exprStack posStack statementStack => parseIfLoop exprStack posStack statementStack
  | .expression => parseExpression
  | .commaLoop commaNode => parseCommaLoop commaNode
  | .assignmentExpression => parseAssignmentExpression
  | .assignmentLoop lhs assignmentStack initialNonLHSCount =>
      parseAssignmentLoop lhs assignmentStack initialNonLHSCount
  | .conditionalExpression => parseConditionalExpression
  | .binaryExpression => parseBinaryExpression
  | .binaryLoop operandStackDepth operatorStackDepth =>
      parseBinaryLoop operandStackDepth operatorStackDepth
  | .property => parseProperty
  | .objectLiteral => parseObjectLiteral
  | .objectLoop propertyList startOffset => parseObjectLoop propertyList startOffset
  | .strictObjectLiteral => parseStrictObjectLiteral
  | .strictObjectLoop propertyList => parseStrictObjectLoop propertyList
  | .arrayLiteral => parseArrayLiteral
  | .elisionsLoop elisions => parseElisionsLoop elisions
  | .arrayLoop elementList => parseArrayLoop elementList
  | .primaryExpression => parsePrimaryExpression
  | .arguments => parseArguments
  | .argumentsLoop argList => parseArgumentsLoop argList
  | .memberExpression => parseMemberExpression
  | .newLoop newCount => parseNewLoop newCount
  | .memberLoop base newCount => parseMemberLoop base newCount
  | .unaryExpression => parseUnaryExpression
  | .unaryExpressionBody => parseUnaryExpressionBody
  | .unaryTokensLoop tokenStackDepth => parseUnaryTokensLoop tokenStackDepth

/-- The parser as a machine for its productions. -/
def parser [Platform] : Machine parserInterface ParserState Crash where
  step := parserStep
  body := productionBody

/-- The state the constructor of `JSParser` sets up, before its `next()`. -/
def initialState (source : List UChar) : ParserState where
  lexer := Lexer.setCode source
  error := false
  token := ⟨.errorTok, .unset, ⟨0, 0, 0⟩⟩
  tokenCount := 0
  syntaxAlreadyValidated := false
  regs := {}

/-- A depth of calls that the parse of a source never exceeds. -/
def callDepth (source : List UChar) : Nat := 64 * (source.length + 2)

/-- `JSParser::createSyntaxTree` on a source. -/
def runParser [Platform] (source : List UChar) : Outcome ParserState Crash Node :=
  parser.run (callDepth source) .createSyntaxTree (initialState source)

end HammerJS
