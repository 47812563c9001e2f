import HammerJS.Reflect.Parser

/-!
# The productions for expressions

From `parseExpression` down to `parsePrimaryExpression`, each as the code of one
`Production`.  A variable of the source that a loop changes is an argument of the
production that stands for the loop.
-/

namespace HammerJS

open Procs Lexer Parse

/-- The operator that the switch of `parseAssignmentExpression` finds for a token. -/
def assignmentOperator : JSTokenType → Option Operator
  | .equal => some .opEqual
  | .plusEqual => some .opPlusEq
  | .minusEqual => some .opMinusEq
  | .multEqual => some .opMultEq
  | .divEqual => some .opDivEq
  | .lshiftEqual => some .opLShift
  | .rshiftEqual => some .opRShift
  | .urshiftEqual => some .opURShift
  | .andEqual => some .opAndEq
  | .xorEqual => some .opXOrEq
  | .orEqual => some .opOrEq
  | .modEqual => some .opModEq
  | _ => none

/-! ## Comma, assignment and conditional expressions -/

/-- `parseExpression`. -/
def parseExpression : Parse Node := do
  let node ← failIfNull (← parse .assignmentExpression)
  if ← isToken .comma then
    next
    bumpNonLHSCount
    let right ← failIfNull (← parse .assignmentExpression)
    orReturnNull (← parse (.commaLoop (Builder.createCommaExpr node right)))
  else return node

/-- The loop of `parseExpression`. -/
def parseCommaLoop (commaNode : Node) : Parse Node := do
  if ← isToken .comma then
    next
    let right ← failIfNull (← parse .assignmentExpression)
    orReturnNull (← parse (.commaLoop (Builder.appendToComma commaNode right)))
  else return commaNode

/-- Build the assignments on top of the stack, the last one first. -/
def createAssignments (lhs : Node) : Nat → Parse Node
  | 0 => return lhs
  | n + 1 => do createAssignments (← createAssignment lhs) n

/-- `parseAssignmentExpression`. -/
def parseAssignmentExpression : Parse Node := do
  let initialNonLHSCount ← nonLHSCount
  let lhs ← failIfNull (← parse .conditionalExpression)
  if initialNonLHSCount ≠ (← nonLHSCount) then return lhs
  else
    let (lhs, assignmentStack) ←
      orReturnNull (← parse (.assignmentLoop lhs 0 initialNonLHSCount))
    if assignmentStack ≠ 0 then bumpNonLHSCount
    createAssignments lhs assignmentStack

/-- The loop of `parseAssignmentExpression`: the last operand and the number of
assignments on the stack. -/
def parseAssignmentLoop (lhs : Node) (assignmentStack initialNonLHSCount : Nat) :
    Parse (Node × Nat) := do
  match assignmentOperator (← tokenType) with
  | none => return (lhs, assignmentStack)
  | some op =>
      assignmentStackAppend lhs op
      next
      let lhs ← failIfNull (← parse .conditionalExpression)
      if initialNonLHSCount ≠ (← nonLHSCount) then return (lhs, assignmentStack + 1)
      else
        orReturnNull (← parse (.assignmentLoop lhs (assignmentStack + 1) initialNonLHSCount))

/-- `parseConditionalExpression`, which does not look whether its middle operand
is null. -/
def parseConditionalExpression : Parse Node := do
  let cond ← failIfNull (← parse .binaryExpression)
  if ← isToken .question then
    bumpNonLHSCount
    next
    let lhs ← parse .assignmentExpression
    consumeOrFail .colon
    let rhs ← failIfNull (← parse .assignmentExpression)
    return Builder.createConditionalExpr cond lhs rhs
  else return cond

/-! ## Binary expressions -/

/-- Reduce while the operator on top of the stack does not bind less tightly
than the one just read: the operand and the operator depth. -/
def reduceHigher (precedence operandStackDepth : Nat) : Nat → Parse (Nat × Nat)
  | 0 => return (operandStackDepth, 0)
  | n + 1 => do
      if ← operatorStackHasHigherPrecedence precedence then
        assert (1 < operandStackDepth) .operandStackDepth
        reduceOperands
        reduceHigher precedence (operandStackDepth - 1) n
      else return (operandStackDepth, n + 1)

/-- Reduce all operators that are left. -/
def reduceAll (operandStackDepth : Nat) : Nat → Parse Unit
  | 0 => return ()
  | n + 1 => do
      assert (1 < operandStackDepth) .operandStackDepth
      reduceOperands
      reduceAll (operandStackDepth - 1) n

/-- `parseBinaryExpression`. -/
def parseBinaryExpression : Parse Node := do
  let (operandStackDepth, operatorStackDepth) ← orReturnNull (← parse (.binaryLoop 0 0))
  reduceAll operandStackDepth operatorStackDepth
  popOperandStack

/-- The loop of `parseBinaryExpression`: the depths when no operator follows. -/
def parseBinaryLoop (operandStackDepth operatorStackDepth : Nat) : Parse (Nat × Nat) := do
  let current ← failIfNull (← parse .unaryExpression)
  pushOperand current
  let precedence ← binaryPrecedence
  if precedence = 0 then return (operandStackDepth + 1, operatorStackDepth)
  else
    bumpNonLHSCount
    let operatorToken ← tokenType
    next
    let (operandStackDepth, operatorStackDepth) ←
      reduceHigher precedence (operandStackDepth + 1) operatorStackDepth
    operatorStackAppend operatorToken precedence
    orReturnNull (← parse (.binaryLoop operandStackDepth (operatorStackDepth + 1)))

/-! ## Unary expressions -/

/-- `parseUnaryExpression`.  The destructor of its `AllowInOverride` restores
`m_allowsIn` however the rest of the production is left. -/
def parseUnaryExpression : Parse Node := do
  let oldAllowsIn ← allowsIn
  setAllowsIn true
  let expr ← parse .unaryExpressionBody
  setAllowsIn oldAllowsIn
  orReturnNull expr

/-- The loop of `parseUnaryExpression` over the prefix operators. -/
def parseUnaryTokensLoop (tokenStackDepth : Nat) : Parse Nat := do
  let t ← tokenType
  if t.isUnaryOp then
    bumpNonLHSCount
    appendUnaryToken t
    next
    orReturnNull (← parse (.unaryTokensLoop (tokenStackDepth + 1)))
  else return tokenStackDepth

/-- The node for one prefix operator. -/
def makeUnaryNode (expr : Node) : JSTokenType → Parse Node
  | .exclamation => return Builder.createLogicalNot expr
  | .tilde => return Builder.makeBitwiseNotNode expr
  | .minus => return Builder.makeNegateNode expr
  | .plus => return Builder.createUnaryPlus expr
  | .plusPlus => return Builder.makePrefixNode expr .opPlusPlus
  | .autoPlusPlus => return Builder.makePrefixNode expr .opPlusPlus
  | .minusMinus => return Builder.makePrefixNode expr .opMinusMinus
  | .autoMinusMinus => return Builder.makePrefixNode expr .opMinusMinus
  | .typeof => return Builder.makeTypeOfNode expr
  | .voidToken => return Builder.createVoid expr
  | .deleteToken => return Builder.makeDeleteNode expr
  | _ => crash .unaryOperator

/-- Build the prefix operators on top of the stack, the last one first. -/
def makeUnaryNodes (expr : Node) : Nat → Parse Node
  | 0 => return expr
  | n + 1 => do
      let t ← popUnaryToken
      makeUnaryNodes (← makeUnaryNode expr t) n

/-- The postfix operator, if there is one. -/
def parsePostfix (expr : Node) : Parse Node := do
  match ← tokenType with
  | .plusPlus =>
      bumpNonLHSCount
      next
      return Builder.makePostfixNode expr .opPlusPlus
  | .minusMinus =>
      bumpNonLHSCount
      next
      return Builder.makePostfixNode expr .opMinusMinus
  | _ => return expr

/-- The body of `parseUnaryExpression`. -/
def parseUnaryExpressionBody : Parse Node := do
  let tokenStackDepth ← orReturnNull (← parse (.unaryTokensLoop 0))
  let expr ← failIfNull (← parse .memberExpression)
  let expr ← parsePostfix expr
  makeUnaryNodes expr tokenStackDepth

/-! ## Member expressions -/

/-- The loop of `parseMemberExpression` over the `new` tokens. -/
def parseNewLoop (newCount : Nat) : Parse Nat := do
  if ← isToken .new then
    next
    orReturnNull (← parse (.newLoop (newCount + 1)))
  else return newCount

/-- The `new` tokens that found no arguments. -/
def createNewExprs (base : Node) : Nat → Node
  | 0 => base
  | n + 1 => createNewExprs (Builder.createNewExprNoArguments base) n

/-- The expression that `parseMemberExpression` starts from; a function without
a name gets the null identifier. -/
def parseMemberBase : Parse Node := do
  if ← isToken .function then
    next
    let info ← failIfNull (← parse (.functionInfo false))
    return Builder.createFunctionExpr (info.name.getD []) info.body info.parameters
  else failIfNull (← parse .primaryExpression)

/-- `parseMemberExpression`. -/
def parseMemberExpression : Parse Node := do
  let newCount ← orReturnNull (← parse (.newLoop 0))
  let base ← parseMemberBase
  let (base, newCount) ← orReturnNull (← parse (.memberLoop base newCount))
  return createNewExprs base newCount

/-- The loop of `parseMemberExpression` over the suffixes. -/
def parseMemberLoop (base : Node) (newCount : Nat) : Parse (Node × Nat) := do
  match ← tokenType with
  | .openBracket =>
      next
      let oldNonLHSCount ← nonLHSCount
      let property ← failIfNull (← parse .expression)
      let base := Builder.createBracketAccess base property
      if ← consume .closeBracket then
        setNonLHSCount oldNonLHSCount
        orReturnNull (← parse (.memberLoop base newCount))
      else fail
  | .openParen =>
      match newCount with
      | n + 1 =>
          -- the source tests the token again here, and has another branch for it
          if ← isToken .openParen then
            let arguments ← failIfNull (← parse .arguments)
            orReturnNull (← parse (.memberLoop (Builder.createNewExpr base arguments) n))
          else
            orReturnNull (← parse (.memberLoop (Builder.createNewExprNoArguments base) n))
      | 0 =>
          let oldNonLHSCount ← nonLHSCount
          let arguments ← failIfNull (← parse .arguments)
          setNonLHSCount oldNonLHSCount
          orReturnNull (← parse (.memberLoop (Builder.makeFunctionCallNode base arguments) 0))
  | .dot =>
      next .ignoreReservedWords
      matchOrFail .ident
      let name := (← tokenData).getIdent
      next
      orReturnNull (← parse (.memberLoop (Builder.createDotAccess base name) newCount))
  | _ => return (base, newCount)

/-- `parseArguments`. -/
def parseArguments : Parse Node := do
  consumeOrFail .openParen
  if ← isToken .closeParen then
    next
    return Builder.createArguments none
  else
    let firstArg ← failIfNull (← parse .assignmentExpression)
    let argList ← orReturnNull (← parse (.argumentsLoop (Builder.createArgumentsList firstArg)))
    consumeOrFail .closeParen
    return Builder.createArguments (some argList)

/-- The loop of `parseArguments`; `tail` stays equal to `argList`. -/
def parseArgumentsLoop (argList : Node) : Parse Node := do
  if ← isToken .comma then
    next
    let arg ← failIfNull (← parse .assignmentExpression)
    orReturnNull (← parse (.argumentsLoop (Builder.appendArgument argList arg)))
  else return argList

/-! ## Primary expressions -/

/-- The regular expression that a division token turns out to start. -/
def parseRegExp (patternPrefix : Option UChar) : Parse Node := do
  let (pattern, flags) ←
    failIfNull (← Program.perform (S := parserInterface) (.scanRegExp patternPrefix))
  next
  return Builder.createRegex pattern flags

/-- `parsePrimaryExpression`. -/
def parsePrimaryExpression : Parse Node := do
  match ← tokenType with
  | .openBrace => orReturnNull (← parse .objectLiteral)
  | .openBracket => orReturnNull (← parse .arrayLiteral)
  | .openParen =>
      next
      let oldNonLHSCount ← nonLHSCount
      let result ← parse .expression
      setNonLHSCount oldNonLHSCount
      consumeOrFail .closeParen
      orReturnNull result
  | .thisToken =>
      next
      return Builder.thisExpr
  | .ident =>
      let ident := (← tokenData).getIdent
      next
      return Builder.createResolve ident
  | .string =>
      let ident := (← tokenData).getIdent
      next
      return Builder.createString ident
  | .number =>
      let d := (← tokenData).getDouble
      next
      return Builder.createNumberExpr d
  | .nullToken =>
      next
      return Builder.createNull
  | .trueToken =>
      next
      return Builder.createBoolean true
  | .falseToken =>
      next
      return Builder.createBoolean false
  | .divEqual => parseRegExp (some '='.toNat.toUInt16)
  | .divide => parseRegExp none
  | _ => fail

/-- The loop over consecutive commas in `parseArrayLiteral`. -/
def parseElisionsLoop (elisions : Nat) : Parse Nat := do
  if ← isToken .comma then
    next
    orReturnNull (← parse (.elisionsLoop (elisions + 1)))
  else return elisions

/-- `parseArrayLiteral`.  The builder ignores the number of elisions. -/
def parseArrayLiteral : Parse Node := do
  consumeOrFail .openBracket
  let _elisions ← orReturnNull (← parse (.elisionsLoop 0))
  if ← isToken .closeBracket then
    next
    return Builder.createArray none
  else
    let elem ← failIfNull (← parse .assignmentExpression)
    orReturnNull (← parse (.arrayLoop (Builder.createElementList elem)))

/-- The loop of `parseArrayLiteral` over the elements, and its end; `tail` stays
equal to `elementList`. -/
def parseArrayLoop (elementList : Node) : Parse Node := do
  if ← isToken .comma then
    next
    let _elisions ← orReturnNull (← parse (.elisionsLoop 0))
    if ← isToken .closeBracket then
      next
      return Builder.createArray (some elementList)
    else
      let elem ← failIfNull (← parse .assignmentExpression)
      orReturnNull (← parse (.arrayLoop (Builder.appendElement elementList elem)))
  else
    consumeOrFail .closeBracket
    return Builder.createArray (some elementList)

/-- The label `namedProperty` and the case `STRING` of `parseProperty`. -/
def parseNamedProperty (wasIdent : Bool) : Parse Node := do
  let ident := (← tokenData).getIdent
  next .ignoreReservedWords
  if ← isToken .colon then
    next
    let node ← failIfNull (← parse .assignmentExpression)
    return Builder.createProperty ident node .constant
  else
    failIfFalse wasIdent
    matchOrFail .ident
    if ident = identifierOfChars ['g', 'e', 't'] ∨ ident = identifierOfChars ['s', 'e', 't'] then
      let _info ← failIfNull (← parse (.functionInfo true))
      createGetterOrSetterProperty
    else fail

/-- `parseProperty`; its template parameter only reaches the builder, which
ignores it. -/
def parseProperty [Platform] : Parse Node := do
  match ← tokenType with
  | .ident => parseNamedProperty true
  | .string => parseNamedProperty false
  | .number =>
      let propertyName := (← tokenData).getDouble
      next
      consumeOrFail .colon
      let node ← failIfNull (← parse .assignmentExpression)
      return Builder.createNumericProperty propertyName node .constant
  | t =>
      failIfFalse t.isKeyword
      parseNamedProperty true

/-- Whether a property sends `parseObjectLiteral` back to the opening brace. -/
def needsStrictCheck (property : Node) : Parse Bool := do
  return !(← syntaxAlreadyValidated) && property.propertyType ≠ .constant

/-- Go back to the opening brace, and read the literal again. -/
def reparseStrictObjectLiteral (startOffset : Nat) : Parse Node := do
  Program.perform (S := parserInterface) (.setOffset startOffset)
  next
  orReturnNull (← parse .strictObjectLiteral)

/-- `parseObjectLiteral`. -/
def parseObjectLiteral : Parse Node := do
  let startOffset := (← tokenData).getInt
  consumeOrFail .openBrace
  if ← isToken .closeBrace then
    next
    return Builder.createObjectLiteral none
  else
    let property ← failIfNull (← parse .property)
    if ← needsStrictCheck property then reparseStrictObjectLiteral startOffset
    else
      match ← orReturnNull (← parse (.objectLoop (Builder.createPropertyList property) startOffset))
      with
      | .inr strict => return strict
      | .inl propertyList =>
          consumeOrFail .closeBrace
          return Builder.createObjectLiteral (some propertyList)

/-- The loop of `parseObjectLiteral`: the properties, or the literal read again.
`tail` stays equal to `propertyList`. -/
def parseObjectLoop (propertyList : Node) (startOffset : Nat) : Parse (Node ⊕ Node) := do
  if ← isToken .comma then
    next
    -- allow extra comma
    if ← isToken .closeBrace then return .inl propertyList
    else
      let property ← failIfNull (← parse .property)
      if ← needsStrictCheck property then
        return .inr (← reparseStrictObjectLiteral startOffset)
      else
        orReturnNull
          (← parse (.objectLoop (Builder.appendProperty property propertyList) startOffset))
  else return .inl propertyList

/-- What `parseStrictObjectLiteral` does with `objectValidator`: the first
property is added; for a later one the stub's iterator is dereferenced, which
is a null pointer. -/
def validateProperty : Parse Unit := do
  if !(← syntaxAlreadyValidated) then crash .nullNode else pure ()

/-- `parseStrictObjectLiteral`. -/
def parseStrictObjectLiteral : Parse Node := do
  consumeOrFail .openBrace
  if ← isToken .closeBrace then
    next
    return Builder.createObjectLiteral none
  else
    let property ← failIfNull (← parse .property)
    let propertyList ←
      orReturnNull (← parse (.strictObjectLoop (Builder.createPropertyList property)))
    consumeOrFail .closeBrace
    return Builder.createObjectLiteral (some propertyList)

/-- The loop of `parseStrictObjectLiteral`. -/
def parseStrictObjectLoop (propertyList : Node) : Parse Node := do
  if ← isToken .comma then
    next
    if ← isToken .closeBrace then return propertyList
    else
      let property ← failIfNull (← parse .property)
      validateProperty
      orReturnNull (← parse (.strictObjectLoop (Builder.appendProperty property propertyList)))
  else return propertyList

end HammerJS
