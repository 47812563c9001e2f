import HammerJS.Reflect.Token

/-!
# Syntax tree nodes

`SyntaxTree::Node` and the node constructors of `SyntaxTree::Builder`.

A node owns its children here, where the code holds pointers: a node is appended
to only through the variable that holds it, before it becomes a child, so no
change is ever seen through a second pointer.  A child may be null.  The source
positions that the parser hands to the builder are not kept by it, and are left
out of the arguments.
-/

namespace HammerJS

/-- `Operator`, of `Nodes.h`. -/
inductive Operator where
  | opEqual | opPlusEq | opMinusEq | opMultEq | opDivEq | opPlusPlus | opMinusMinus
  | opAndEq | opXOrEq | opOrEq | opModEq | opLShift | opRShift | opURShift
  deriving DecidableEq, Repr

/-- `Node::OperatorType`. -/
inductive OperatorType where
  | noOperator
  | typeofOperator | deleteOperator
  | logicalNotOperator | logicalOrOperator | logicalAndOperator
  | bitwiseNotOperator | bitwiseOrOperator | bitwiseXorOperator | bitwiseAndOperator
  | equalOperator | notEqualOperator | stringEqualOperator | stringNotEqualOperator
  | lessThanOperator | greaterThanOperator | lessThanOrEqualOperator | greaterThanOrEqualOperator
  | instanceofOperator | intokenOperator
  | leftShiftOperator | rightShiftOperator | zeroFillRightShiftOperator
  | addOperator | subtractOperator | multiplyOperator | divideOperator | modulusOperator
  | plusPlusOperator | minusMinusOperator
  | assignEqual | assignAdd | assignSubtract | assignMultiply | assignDivide | assignModulus
  | assignLeftShift | assignRightShift | assignZeroFillRightShift
  | assignAnd | assignXor | assignOr
  deriving DecidableEq, Repr

/-- `Node::Type`. -/
inductive NodeType where
  | argumentsList | arguments | array | assignmentExpression | assign | binaryExpression
  | blockStatement | booleanExpression | bracketAccess | breakStatement | comma
  | conditionalExpression | constDeclaration | constStatement | continueStatement | clause
  | clauseList | debugger | declaration | doWhileStatement | dotAccess | elementList
  | emptyStatement | expressionStatement | expression | forInLoop | forLoop
  | formalParameterList | functionBody | functionCall | functionDeclStatement
  | functionExpression | identifierExpression | ifStatement | labelStatement | newExpression
  | null | numberExpression | objectLiteral | postfixType | prefixType | property | propertyList
  | regex | resolve | returnStatement | sourceElements | statement | stringExpression
  | switchStatement | this | throwStatement | tryStatement | unaryExpression
  | variableDeclaration | void | whileStatement | withStatement
  deriving DecidableEq, Repr

/-- `PropertyNode::Type`. -/
inductive PropertyType where
  | constant | getter | setter
  deriving DecidableEq, Repr

/-- `Node::convertOperator(Operator)`, which has a case for every enumerator. -/
def convertOperator : Operator → OperatorType
  | .opEqual => .assignEqual
  | .opPlusEq => .assignAdd
  | .opMinusEq => .assignSubtract
  | .opMultEq => .assignMultiply
  | .opDivEq => .assignDivide
  | .opPlusPlus => .plusPlusOperator
  | .opMinusMinus => .minusMinusOperator
  | .opAndEq => .assignAnd
  | .opXOrEq => .assignXor
  | .opOrEq => .assignOr
  | .opModEq => .assignModulus
  | .opLShift => .assignLeftShift
  | .opRShift => .assignRightShift
  | .opURShift => .assignZeroFillRightShift

/-- `Node::convertOperator(int tokenType)`; none where the code calls `CRASH()`. -/
def convertToken : JSTokenType → Option OperatorType
  | .or => some .logicalOrOperator
  | .and => some .logicalAndOperator
  | .bitOr => some .bitwiseOrOperator
  | .bitXor => some .bitwiseXorOperator
  | .bitAnd => some .bitwiseAndOperator
  | .eqEq => some .equalOperator
  | .ne => some .notEqualOperator
  | .strEq => some .stringEqualOperator
  | .strNeq => some .stringNotEqualOperator
  | .lt => some .lessThanOperator
  | .gt => some .greaterThanOperator
  | .le => some .lessThanOrEqualOperator
  | .ge => some .greaterThanOrEqualOperator
  | .instanceof => some .instanceofOperator
  | .inToken => some .intokenOperator
  | .lshift => some .leftShiftOperator
  | .rshift => some .rightShiftOperator
  | .urshift => some .zeroFillRightShiftOperator
  | .plus => some .addOperator
  | .minus => some .subtractOperator
  | .times => some .multiplyOperator
  | .divide => some .divideOperator
  | .mod => some .modulusOperator
  | .plusPlus => some .addOperator
  | .minusMinus => some .subtractOperator
  | .equal => some .assignEqual
  | .plusEqual => some .assignAdd
  | .minusEqual => some .assignSubtract
  | .multEqual => some .assignMultiply
  | .divEqual => some .assignDivide
  | .lshiftEqual => some .assignLeftShift
  | .rshiftEqual => some .assignRightShift
  | .urshiftEqual => some .assignZeroFillRightShift
  | .andEqual => some .assignAnd
  | .xorEqual => some .assignXor
  | .orEqual => some .assignOr
  | .modEqual => some .assignModulus
  | _ => none

/-- Every token with a precedence has a binary operator. -/
theorem convertToken_isSome {t : JSTokenType} {allowsIn : Bool}
    (h : t.isBinaryOperator allowsIn ≠ 0) : (convertToken t).isSome = true := by
  revert h
  cases allowsIn <;> cases t <;> decide

/-- `SyntaxTree::Node`.  A constructor that leaves `m_operator` unset leaves it
`noOperator` here, which every reader of the operator rejects. -/
structure Node where
  type : NodeType
  op : OperatorType := .noOperator
  boolean : Bool := false
  number : Double := .finite 0
  string : Identifier := []
  identifier : Identifier := []
  propertyType : PropertyType := .constant
  children : List (Option Node) := []

namespace Node

/-- `append(n)`. -/
def append (n : Node) (child : Option Node) : Node :=
  { n with children := n.children ++ [child] }

/-- `Node(Type, Node* expr)`. -/
def ofChild (type : NodeType) (expr : Option Node) : Node := { type, children := [expr] }

/-- `Node(Type, const Identifier&)`. -/
def ofIdentifier (type : NodeType) (identifier : Identifier) : Node := { type, identifier }

/-- `Node(Type, OperatorType)`. -/
def ofOperator (type : NodeType) (op : OperatorType) : Node := { type, op }

/-- The node is of the type, with this operator and these children. -/
structure Has (node : Node) (type : NodeType) (op : OperatorType) (children : List Node) :
    Prop where
  type : node.type = type
  op : node.op = op
  children : node.children = children.map some

end Node

/-! ## Node constructors of the builder -/

namespace Builder

open Node

/-- `createArguments`. -/
def createArguments (argumentsList : Option Node) : Node :=
  match argumentsList with
  | none => { type := .arguments }
  | some _ => ofChild .arguments argumentsList

/-- `createArgumentsList(expression)`. -/
def createArgumentsList (expression : Node) : Node := ofChild .argumentsList (some expression)

/-- `createArgumentsList(tail, expression)`, which returns `tail`. -/
def appendArgument (tail expression : Node) : Node := tail.append (some expression)

/-- `createArray(elisions)`, `createArray(elements)` and
`createArray(elisions, elements)`; the elisions are ignored. -/
def createArray (elements : Option Node) : Node :=
  match elements with
  | none => { type := .array }
  | some _ => Node.append { type := .array } elements

/-- `createAssignment`, given the entry of the assignment stack. -/
def createAssignment (node : Node) (op : Operator) (rhs : Node) : Node :=
  ((ofOperator .assignmentExpression (convertOperator op)).append (some node)).append (some rhs)

/-- `createAssignResolve`. -/
def createAssignResolve (ident : Identifier) (rhs : Node) : Node :=
  ((ofOperator .assignmentExpression .assignEqual).append
    (some (ofIdentifier .identifierExpression ident))).append (some rhs)

/-- `createBlockStatement`. -/
def createBlockStatement (elements : Option Node) : Node := ofChild .blockStatement elements

/-- `createBoolean`. -/
def createBoolean (b : Bool) : Node := { type := .booleanExpression, boolean := b }

/-- `createBracketAccess`. -/
def createBracketAccess (base property : Node) : Node :=
  (Node.append { type := .bracketAccess } (some base)).append (some property)

/-- `createBreakStatement`. -/
def createBreakStatement (ident : Option Identifier) : Node :=
  match ident with
  | none => { type := .breakStatement }
  | some ident => ofIdentifier .breakStatement ident

/-- `createClause`; the default clause has no expression. -/
def createClause (expr : Option Node) (elements : Node) : Node :=
  (ofChild .clause expr).append (some elements)

/-- `createClauseList(clause)`. -/
def createClauseList (clause : Node) : Node := ofChild .clauseList (some clause)

/-- `createClauseList(tail, clause)`, which returns `tail`. -/
def appendClause (tail clause : Node) : Node := tail.append (some clause)

/-- `createCommaExpr`. -/
def createCommaExpr (lhs rhs : Node) : Node :=
  (Node.append { type := .comma } (some lhs)).append (some rhs)

/-- `appendToComma`. -/
def appendToComma (comma expr : Node) : Node := comma.append (some expr)

/-- `combineCommaNodes`. -/
def combineCommaNodes (list : Option Node) (init : Node) : Node :=
  match list with
  | none => init
  | some list =>
      if list.type = .comma then list.append (some init)
      else (Node.append { type := .comma } (some list)).append (some init)

/-- `createConditionalExpr`; the middle operand may be null. -/
def createConditionalExpr (condition : Node) (lhs : Option Node) (rhs : Node) : Node :=
  ((Node.append { type := .conditionalExpression } (some condition)).append lhs).append (some rhs)

/-- The node that `appendConstDecl` appends to its list. -/
def constDeclaration (name : Identifier) (initializer : Option Node) : Node :=
  (ofIdentifier .constDeclaration name).append initializer

/-- `createConstStatement`. -/
def createConstStatement (decls : Node) : Node := ofChild .constStatement (some decls)

/-- `createContinueStatement`. -/
def createContinueStatement (ident : Option Identifier) : Node :=
  match ident with
  | none => { type := .continueStatement }
  | some ident => ofIdentifier .continueStatement ident

/-- `createDebugger`. -/
def createDebugger : Node := { type := .debugger }

/-- `createDotAccess`. -/
def createDotAccess (base : Node) (property : Identifier) : Node :=
  (ofIdentifier .dotAccess property).append (some base)

/-- `createDoWhileStatement`. -/
def createDoWhileStatement (statement expr : Node) : Node :=
  (Node.append { type := .doWhileStatement } (some statement)).append (some expr)

/-- `createElementList(elisions, expression)`; the elisions are ignored. -/
def createElementList (expression : Node) : Node := ofChild .elementList (some expression)

/-- `createElementList(tail, elisions, expression)`, which returns `tail`. -/
def appendElement (tail expression : Node) : Node := tail.append (some expression)

/-- `createEmptyStatement`. -/
def createEmptyStatement : Node := { type := .emptyStatement }

/-- `createExprStatement`. -/
def createExprStatement (expr : Node) : Node :=
  Node.append { type := .expressionStatement } (some expr)

/-- `createForLoop`. -/
def createForLoop (initializer condition iter : Option Node) (statements : Node) : Node :=
  (((Node.append { type := .forLoop } initializer).append condition).append iter).append
    (some statements)

/-- `createForInLoop`, of a variable declaration. -/
def createForInVar (ident : Identifier) (initializer : Option Node) (iter statements : Node) :
    Node :=
  (((ofIdentifier .forInLoop ident).append initializer).append (some iter)).append
    (some statements)

/-- `createForInLoop`, of an expression. -/
def createForIn (lhs iter statements : Node) : Node :=
  ((Node.append { type := .forInLoop } (some lhs)).append (some iter)).append (some statements)

/-- The chain that `createFormalParameterList` builds: each parameter has the
next one as its child, and the parser keeps the first and the last. -/
def formalParameterList (identifier : Identifier) : List Identifier → Node
  | [] => ofIdentifier .formalParameterList identifier
  | next :: rest =>
      (ofIdentifier .formalParameterList identifier).append (some (formalParameterList next rest))

/-- `createFuncDeclStatement`. -/
def createFuncDeclStatement (name : Identifier) (body : Node) (parameters : Option Node) : Node :=
  ((ofIdentifier .functionDeclStatement name).append parameters).append (some body)

/-- `createFunctionBody`. -/
def createFunctionBody (elements : Option Node) : Node := ofChild .functionBody elements

/-- `createFunctionExpr`. -/
def createFunctionExpr (name : Identifier) (body : Node) (parameters : Option Node) : Node :=
  ((ofIdentifier .functionExpression name).append parameters).append (some body)

/-- `createIfStatement`, without and with an `else`. -/
def createIfStatement (condition trueBlock : Node) (falseBlock : Option Node) : Node :=
  match falseBlock with
  | none => (ofChild .ifStatement (some condition)).append (some trueBlock)
  | some _ => ((ofChild .ifStatement (some condition)).append (some trueBlock)).append falseBlock

/-- `createLabelStatement`. -/
def createLabelStatement (ident : Identifier) (statement : Node) : Node :=
  (ofIdentifier .labelStatement ident).append (some statement)

/-- `createLogicalNot`, `makeBitwiseNotNode`, `makeNegateNode`, `createUnaryPlus`,
`makeTypeOfNode` and `makeDeleteNode`, each with its own operator. -/
def createUnary (op : OperatorType) (expr : Node) : Node :=
  (ofOperator .unaryExpression op).append (some expr)

/-- `createLogicalNot`. -/
def createLogicalNot : Node → Node := createUnary .logicalNotOperator

/-- `makeBitwiseNotNode`. -/
def makeBitwiseNotNode : Node → Node := createUnary .bitwiseNotOperator

/-- `makeNegateNode`. -/
def makeNegateNode : Node → Node := createUnary .subtractOperator

/-- `createUnaryPlus`. -/
def createUnaryPlus : Node → Node := createUnary .addOperator

/-- `makeTypeOfNode`. -/
def makeTypeOfNode : Node → Node := createUnary .typeofOperator

/-- `makeDeleteNode`. -/
def makeDeleteNode : Node → Node := createUnary .deleteOperator

/-- `createVoid`, which does not keep its operand. -/
def createVoid (_expr : Node) : Node := { type := .void }

/-- `makeFunctionCallNode`. -/
def makeFunctionCallNode (func args : Node) : Node :=
  (Node.append { type := .functionCall } (some func)).append (some args)

/-- `makePostfixNode`. -/
def makePostfixNode (expr : Node) (op : Operator) : Node :=
  (ofOperator .postfixType (convertOperator op)).append (some expr)

/-- `makePrefixNode`. -/
def makePrefixNode (expr : Node) (op : Operator) : Node :=
  (ofOperator .prefixType (convertOperator op)).append (some expr)

/-- `createObjectLiteral`. -/
def createObjectLiteral (properties : Option Node) : Node :=
  match properties with
  | none => { type := .objectLiteral }
  | some _ => Node.append { type := .objectLiteral } properties

/-- `createNewExpr`, with arguments. -/
def createNewExpr (expr arguments : Node) : Node :=
  (ofChild .newExpression (some expr)).append (some arguments)

/-- `createNewExpr`, without arguments. -/
def createNewExprNoArguments (expr : Node) : Node := ofChild .expression (some expr)

/-- `createNull`. -/
def createNull : Node := { type := .null }

/-- `createNumberExpr`. -/
def createNumberExpr (d : Double) : Node := { type := .numberExpression, number := d }

/-- `createProperty`, of a name. -/
def createProperty (name : Identifier) (expr : Node) (type : PropertyType) : Node :=
  { (ofIdentifier .property name) with propertyType := type }.append (some expr)

/-- `createProperty`, of a number. -/
def createNumericProperty [Platform] (name : Double) (expr : Node) (type : PropertyType) : Node :=
  createProperty (Platform.numberToString name) expr type

/-- `createPropertyList(property)`. -/
def createPropertyList (property : Node) : Node := ofChild .propertyList (some property)

/-- `createPropertyList(property, tail)`, which returns `tail`. -/
def appendProperty (property tail : Node) : Node := tail.append (some property)

/-- `createRegex`. -/
def createRegex (pattern flags : Identifier) : Node :=
  { type := .regex, string := flags, identifier := pattern }

/-- `createResolve`. -/
def createResolve (ident : Identifier) : Node := ofIdentifier .resolve ident

/-- `createReturnStatement`. -/
def createReturnStatement (expression : Option Node) : Node := ofChild .returnStatement expression

/-- `createSourceElements`. -/
def createSourceElements : Node := { type := .sourceElements }

/-- `appendStatement`. -/
def appendStatement (sourceElements statement : Node) : Node :=
  sourceElements.append (some statement)

/-- `createString`. -/
def createString (string : Identifier) : Node := { type := .stringExpression, string }

/-- `createSwitchStatement`. -/
def createSwitchStatement (expr : Node) (firstClauses defaultClause secondClauses : Option Node) :
    Node :=
  (((ofChild .switchStatement (some expr)).append firstClauses).append defaultClause).append
    secondClauses

/-- `createThrowStatement`. -/
def createThrowStatement (expr : Node) : Node := ofChild .throwStatement (some expr)

/-- `createTryStatement`. -/
def createTryStatement (tryBlock : Node) (ident : Identifier)
    (catchBlock finallyBlock : Option Node) : Node :=
  (((ofIdentifier .tryStatement ident).append (some tryBlock)).append catchBlock).append
    finallyBlock

/-- `createVarStatement`. -/
def createVarStatement (expr : Node) : Node := ofChild .variableDeclaration (some expr)

/-- `createWhileStatement`. -/
def createWhileStatement (expr statement : Node) : Node :=
  (ofChild .whileStatement (some expr)).append (some statement)

/-- `createWithStatement`. -/
def createWithStatement (expr statement : Node) : Node :=
  (ofChild .withStatement (some expr)).append (some statement)

/-- `createVarIdentifier`. -/
def createVarIdentifier (ident : Identifier) : Node := ofIdentifier .identifierExpression ident

/-- `thisExpr`. -/
def thisExpr : Node := { type := .this }

/-- `makeBinaryNode`; none where `convertOperator` would crash. -/
def makeBinaryNode (token : JSTokenType) (lhs rhs : Node) : Option Node :=
  (convertToken token).map fun op =>
    ((ofOperator .binaryExpression op).append (some lhs)).append (some rhs)

end Builder

end HammerJS
