import HammerJS.Reflect.Expressions

/-!
# Phrases

What the parser finds in a source, as a tree of its own: which tokens a part of
the source consists of, and which node the builder makes of it.  The abstract
counterpart of the productions: nothing here says how a phrase is found.

* `Lexeme` — a token, with what the parser takes from it.
* `Phrase` — the phrases of each category; a missing semicolon, a comma that
  stands for nothing and the like are part of a phrase, precedences are not.
* `Phrase.lexemes` — the tokens of a phrase, in order.
* `Phrase.build` — the node, or nodes, that the builder makes of it.
* `Phrase.Calm` — reading the phrase leaves `m_nonLHSCount` as it was.
-/

namespace HammerJS

/-! ## Lexemes -/

/-- A token as the parser uses it, and so the way in which the next token is read. -/
inductive Lexeme where
  /-- A token of which only the type matters. -/
  | mark (t : JSTokenType)
  | ident (name : Identifier)
  | string (value : Identifier)
  | number (value : Double)
  /-- The dot of a member access; the next token is not read as a keyword. -/
  | dot
  /-- A division token that turns out to start a regular expression. -/
  | regExp (patternPrefix : Option UChar) (pattern flags : Identifier)
  /-- The name of a property; the next token is not read as a keyword. -/
  | key (t : JSTokenType) (name : Identifier)
  /-- The number that names a property. -/
  | numericKey (value : Double)
  /-- The token after the declarations of a `for` header, whatever it is. -/
  | skipped (t : JSTokenType) (name : Identifier)

/-- A token type with a prefix operator. -/
abbrev UnaryToken := { t : JSTokenType // t.isUnaryOp = true }

/-- A token type with a binary operator. -/
abbrev BinaryToken := { t : JSTokenType // t.isBinaryOperator true ≠ 0 }

/-- A token type with an assignment operator. -/
abbrev AssignmentToken := { t : JSTokenType // (assignmentOperator t).isSome = true }

/-! ## Phrases -/

/-- The kinds of phrases. -/
inductive Category where
  | expr | exprs | args | elements | prop | props | opt | init | stmt | stmts | clauses | default
  | decls | handler | finalizer
  deriving DecidableEq

/-- The phrases of each category. -/
inductive Phrase : Category → Type where
  -- expressions
  | this : Phrase .expr
  | resolve (name : Identifier) : Phrase .expr
  | string (value : Identifier) : Phrase .expr
  | number (value : Double) : Phrase .expr
  | null : Phrase .expr
  | boolean (value : Bool) : Phrase .expr
  | regExp (patternPrefix : Option UChar) (pattern flags : Identifier) : Phrase .expr
  | paren (e : Phrase .expr) : Phrase .expr
  /-- `[`, commas, `]`. -/
  | emptyArray (elisions : Nat) : Phrase .expr
  | array (elisions : Nat) (first : Phrase .expr) (rest : Phrase .elements) : Phrase .expr
  | emptyObject : Phrase .expr
  | object (first : Phrase .prop) (rest : Phrase .props) : Phrase .expr
  | function (name : Option Identifier) (params : List Identifier) (body : Phrase .stmts) :
      Phrase .expr
  | bracket (base property : Phrase .expr) : Phrase .expr
  | dot (base : Phrase .expr) (property : Identifier) : Phrase .expr
  | call (callee : Phrase .expr) (args : Phrase .args) : Phrase .expr
  | newArgs (callee : Phrase .expr) (args : Phrase .args) : Phrase .expr
  | newNoArgs (callee : Phrase .expr) : Phrase .expr
  | unary (op : UnaryToken) (e : Phrase .expr) : Phrase .expr
  | postOp (increment : Bool) (e : Phrase .expr) : Phrase .expr
  | binary (left : Phrase .expr) (op : BinaryToken) (right : Phrase .expr) : Phrase .expr
  | cond (test left right : Phrase .expr) : Phrase .expr
  | assign (left : Phrase .expr) (op : AssignmentToken) (right : Phrase .expr) : Phrase .expr
  | comma (first second : Phrase .expr) (rest : Phrase .exprs) : Phrase .expr
  -- lists of expressions
  | noExprs : Phrase .exprs
  | moreExprs (e : Phrase .expr) (rest : Phrase .exprs) : Phrase .exprs
  -- the arguments of a call
  | noArgs : Phrase .args
  | arguments (first : Phrase .expr) (rest : Phrase .exprs) : Phrase .args
  -- what follows an element of an array
  | noElements : Phrase .elements
  | trailingElisions (elisions : Nat) : Phrase .elements
  | moreElements (elisions : Nat) (e : Phrase .expr) (rest : Phrase .elements) : Phrase .elements
  -- properties, and what follows one
  | prop (t : JSTokenType) (name : Identifier) (value : Phrase .expr) : Phrase .prop
  | numericProp (name : Double) (value : Phrase .expr) : Phrase .prop
  | noProps : Phrase .props
  | trailingComma : Phrase .props
  | moreProps (p : Phrase .prop) (rest : Phrase .props) : Phrase .props
  -- optional expressions, and initializers
  | absent : Phrase .opt
  | present (e : Phrase .expr) : Phrase .opt
  | noInit : Phrase .init
  | initializer (e : Phrase .expr) : Phrase .init
  -- statements
  | block (body : Phrase .stmts) : Phrase .stmt
  | varDecl (name : Identifier) (init : Phrase .init) (rest : Phrase .decls) (semi : Bool) :
      Phrase .stmt
  | functionDecl (name : Identifier) (params : List Identifier) (body : Phrase .stmts) :
      Phrase .stmt
  | empty : Phrase .stmt
  | ifThen (test : Phrase .expr) (yes : Phrase .stmt) : Phrase .stmt
  | ifElse (test : Phrase .expr) (yes no : Phrase .stmt) : Phrase .stmt
  | doWhile (body : Phrase .stmt) (test : Phrase .expr) (semi : Bool) : Phrase .stmt
  | while (test : Phrase .expr) (body : Phrase .stmt) : Phrase .stmt
  | for (init test update : Phrase .opt) (body : Phrase .stmt) : Phrase .stmt
  /-- The token after the declarations should be a semicolon. -/
  | forVar (name : Identifier) (init : Phrase .init) (rest : Phrase .decls) (t : JSTokenType)
      (skipped : Identifier) (test update : Phrase .opt) (body : Phrase .stmt) : Phrase .stmt
  | forIn (left right : Phrase .expr) (body : Phrase .stmt) : Phrase .stmt
  | forInVar (name : Identifier) (init : Phrase .init) (right : Phrase .expr)
      (body : Phrase .stmt) : Phrase .stmt
  | continue (label : Option Identifier) (semi : Bool) : Phrase .stmt
  | break (label : Option Identifier) (semi : Bool) : Phrase .stmt
  | return (e : Phrase .opt) (semi : Bool) : Phrase .stmt
  | throw (e : Phrase .expr) (semi : Bool) : Phrase .stmt
  | with (subject : Phrase .expr) (body : Phrase .stmt) : Phrase .stmt
  | switch (discriminant : Phrase .expr) (first : Phrase .clauses) (default : Phrase .default)
      (second : Phrase .clauses) : Phrase .stmt
  | try (body : Phrase .stmts) (handler : Phrase .handler) (finalizer : Phrase .finalizer) :
      Phrase .stmt
  | debugger (semi : Bool) : Phrase .stmt
  | labelled (label : Identifier) (body : Phrase .stmt) : Phrase .stmt
  | exprStmt (e : Phrase .expr) (semi : Bool) : Phrase .stmt
  -- lists of statements
  | noStmts : Phrase .stmts
  | moreStmts (first : Phrase .stmt) (rest : Phrase .stmts) : Phrase .stmts
  -- the clauses of a `switch`
  | noClauses : Phrase .clauses
  | moreClauses (test : Phrase .expr) (body : Phrase .stmts) (rest : Phrase .clauses) :
      Phrase .clauses
  | noDefault : Phrase .default
  | defaultClause (body : Phrase .stmts) : Phrase .default
  -- what follows the first variable declared
  | noDecls : Phrase .decls
  | moreDecls (name : Identifier) (init : Phrase .init) (rest : Phrase .decls) : Phrase .decls
  -- the parts of a `try` statement
  | noHandler : Phrase .handler
  | catch (name : Identifier) (body : Phrase .stmts) : Phrase .handler
  | noFinalizer : Phrase .finalizer
  | finally (body : Phrase .stmts) : Phrase .finalizer

/-! ## Tokens -/

/-- The tokens of a semicolon that may be missing. -/
def semiLexemes (semi : Bool) : List Lexeme := if semi then [.mark .semicolon] else []

/-- The tokens of a label that may be missing. -/
def labelLexemes (label : Option Identifier) : List Lexeme := label.toList.map .ident

/-- The commas that stand for left out elements. -/
def elisionLexemes (elisions : Nat) : List Lexeme := List.replicate elisions (.mark .comma)

/-- Names with commas between them. -/
def paramLexemes : List Identifier → List Lexeme
  | [] => []
  | [name] => [.ident name]
  | name :: rest => .ident name :: .mark .comma :: paramLexemes rest

/-- The tokens of a function, after `function`. -/
def functionLexemes (name : Option Identifier) (params : List Identifier) (body : List Lexeme) :
    List Lexeme :=
  labelLexemes name ++ .mark .openParen :: paramLexemes params ++
    .mark .closeParen :: .mark .openBrace :: body ++ [.mark .closeBrace]

namespace Phrase

/-- The tokens of a phrase. -/
def lexemes : {c : Category} → Phrase c → List Lexeme
  | _, this => [.mark .thisToken]
  | _, resolve name => [.ident name]
  | _, string value => [.string value]
  | _, number value => [.number value]
  | _, null => [.mark .nullToken]
  | _, boolean value => [.mark (if value then .trueToken else .falseToken)]
  | _, regExp patternPrefix pattern flags => [.regExp patternPrefix pattern flags]
  | _, paren e => .mark .openParen :: e.lexemes ++ [.mark .closeParen]
  | _, emptyArray elisions =>
      .mark .openBracket :: elisionLexemes elisions ++ [.mark .closeBracket]
  | _, array elisions first rest =>
      .mark .openBracket :: elisionLexemes elisions ++ first.lexemes ++ rest.lexemes
  | _, emptyObject => [.mark .openBrace, .mark .closeBrace]
  | _, object first rest =>
      .mark .openBrace :: first.lexemes ++ rest.lexemes ++ [.mark .closeBrace]
  | _, function name params body =>
      .mark .function :: functionLexemes name params body.lexemes
  | _, bracket base property =>
      base.lexemes ++ .mark .openBracket :: property.lexemes ++ [.mark .closeBracket]
  | _, dot base property => base.lexemes ++ [.dot, .ident property]
  | _, call callee args => callee.lexemes ++ args.lexemes
  | _, newArgs callee args => .mark .new :: callee.lexemes ++ args.lexemes
  | _, newNoArgs callee => .mark .new :: callee.lexemes
  | _, unary op e => .mark op.1 :: e.lexemes
  | _, postOp increment e => e.lexemes ++ [.mark (if increment then .plusPlus else .minusMinus)]
  | _, binary left op right => left.lexemes ++ .mark op.1 :: right.lexemes
  | _, cond test left right =>
      test.lexemes ++ .mark .question :: left.lexemes ++ .mark .colon :: right.lexemes
  | _, assign left op right => left.lexemes ++ .mark op.1 :: right.lexemes
  | _, comma first second rest =>
      first.lexemes ++ .mark .comma :: second.lexemes ++ rest.lexemes
  | _, noExprs => []
  | _, moreExprs e rest => .mark .comma :: e.lexemes ++ rest.lexemes
  | _, noArgs => [.mark .openParen, .mark .closeParen]
  | _, arguments first rest =>
      .mark .openParen :: first.lexemes ++ rest.lexemes ++ [.mark .closeParen]
  | _, noElements => [.mark .closeBracket]
  | _, trailingElisions elisions =>
      .mark .comma :: elisionLexemes elisions ++ [.mark .closeBracket]
  | _, moreElements elisions e rest =>
      .mark .comma :: elisionLexemes elisions ++ e.lexemes ++ rest.lexemes
  | _, prop t name value => .key t name :: .mark .colon :: value.lexemes
  | _, numericProp name value => .numericKey name :: .mark .colon :: value.lexemes
  | _, noProps => []
  | _, trailingComma => [.mark .comma]
  | _, moreProps p rest => .mark .comma :: p.lexemes ++ rest.lexemes
  | _, absent => []
  | _, present e => e.lexemes
  | _, noInit => []
  | _, initializer e => .mark .equal :: e.lexemes
  | _, block body => .mark .openBrace :: body.lexemes ++ [.mark .closeBrace]
  | _, varDecl name init rest semi =>
      .mark .var :: .ident name :: init.lexemes ++ rest.lexemes ++ semiLexemes semi
  | _, functionDecl name params body =>
      .mark .function :: functionLexemes (some name) params body.lexemes
  | _, empty => [.mark .semicolon]
  | _, ifThen test yes =>
      .mark .if :: .mark .openParen :: test.lexemes ++ .mark .closeParen :: yes.lexemes
  | _, ifElse test yes no =>
      .mark .if :: .mark .openParen :: test.lexemes ++ .mark .closeParen :: yes.lexemes ++
        .mark .else :: no.lexemes
  | _, doWhile body test semi =>
      .mark .do :: body.lexemes ++ .mark .while :: .mark .openParen :: test.lexemes ++
        .mark .closeParen :: semiLexemes semi
  | _, .while test body =>
      .mark .while :: .mark .openParen :: test.lexemes ++ .mark .closeParen :: body.lexemes
  | _, .for init test update body =>
      .mark .for :: .mark .openParen :: init.lexemes ++ .mark .semicolon :: test.lexemes ++
        .mark .semicolon :: update.lexemes ++ .mark .closeParen :: body.lexemes
  | _, forVar name init rest t skipped test update body =>
      .mark .for :: .mark .openParen :: .mark .var :: .ident name :: init.lexemes ++
        rest.lexemes ++ .skipped t skipped :: test.lexemes ++ .mark .semicolon :: update.lexemes ++
        .mark .closeParen :: body.lexemes
  | _, forIn left right body =>
      .mark .for :: .mark .openParen :: left.lexemes ++ .mark .inToken :: right.lexemes ++
        .mark .closeParen :: body.lexemes
  | _, forInVar name init right body =>
      .mark .for :: .mark .openParen :: .mark .var :: .ident name :: init.lexemes ++
        .mark .inToken :: right.lexemes ++ .mark .closeParen :: body.lexemes
  | _, .continue label semi => .mark .continue :: labelLexemes label ++ semiLexemes semi
  | _, .break label semi => .mark .break :: labelLexemes label ++ semiLexemes semi
  | _, .return e semi => .mark .return :: e.lexemes ++ semiLexemes semi
  | _, throw e semi => .mark .throw :: e.lexemes ++ semiLexemes semi
  | _, .with subject body =>
      .mark .with :: .mark .openParen :: subject.lexemes ++ .mark .closeParen :: body.lexemes
  | _, switch discriminant first default second =>
      .mark .switch :: .mark .openParen :: discriminant.lexemes ++ .mark .closeParen ::
        .mark .openBrace :: first.lexemes ++ default.lexemes ++ second.lexemes ++
          [.mark .closeBrace]
  | _, .try body handler finalizer =>
      .mark .try :: .mark .openBrace :: body.lexemes ++ .mark .closeBrace :: handler.lexemes ++
        finalizer.lexemes
  | _, debugger semi => .mark .debugger :: semiLexemes semi
  | _, labelled label body => .ident label :: .mark .colon :: body.lexemes
  | _, exprStmt e semi => e.lexemes ++ semiLexemes semi
  | _, noStmts => []
  | _, moreStmts first rest => first.lexemes ++ rest.lexemes
  | _, noClauses => []
  | _, moreClauses test body rest =>
      .mark .case :: test.lexemes ++ .mark .colon :: body.lexemes ++ rest.lexemes
  | _, noDefault => []
  | _, defaultClause body => .mark .default :: .mark .colon :: body.lexemes
  | _, noDecls => []
  | _, moreDecls name init rest => .mark .comma :: .ident name :: init.lexemes ++ rest.lexemes
  | _, noHandler => []
  | _, .catch name body =>
      .mark .catch :: .mark .openParen :: .ident name :: .mark .closeParen ::
        .mark .openBrace :: body.lexemes ++ [.mark .closeBrace]
  | _, noFinalizer => []
  | _, .finally body =>
      .mark .finally :: .mark .openBrace :: body.lexemes ++ [.mark .closeBrace]

/-- An expression has a token. -/
theorem lexemes_ne_nil (e : Phrase .expr) : e.lexemes ≠ [] := by
  cases e with
  | call callee args => cases args <;> simp [lexemes]
  | _ => simp [lexemes]

end Phrase

/-! ## Nodes -/

/-- What the builder makes of the phrases of a category. -/
abbrev Category.Built : Category → Type
  | .expr | .args | .prop | .stmt => Node
  | .exprs | .elements | .props | .stmts | .clauses | .decls => List Node
  | .opt | .init | .default | .finalizer => Option Node
  | .handler => Identifier × Option Node

/-- A node with the given children. -/
def Node.ofList (type : NodeType) (children : List Node) : Node :=
  { type, children := children.map some }

/-- A node for a list that is null when it is empty. -/
def Node.ofListOrNull (type : NodeType) : List Node → Option Node
  | [] => none
  | n :: ns => some (.ofList type (n :: ns))

/-- The node for a prefix operator. -/
def unaryNode : JSTokenType → Node → Node
  | .exclamation => Builder.createLogicalNot
  | .tilde => Builder.makeBitwiseNotNode
  | .minus => Builder.makeNegateNode
  | .plus => Builder.createUnaryPlus
  | .plusPlus | .autoPlusPlus => fun expr => Builder.makePrefixNode expr .opPlusPlus
  | .minusMinus | .autoMinusMinus => fun expr => Builder.makePrefixNode expr .opMinusMinus
  | .typeof => Builder.makeTypeOfNode
  | .voidToken => Builder.createVoid
  | _ => Builder.makeDeleteNode

/-- The operator of a binary operator token. -/
def BinaryToken.operator (op : BinaryToken) : OperatorType :=
  (convertToken op.1).get (convertToken_isSome op.2)

/-- The operator of an assignment operator token. -/
def AssignmentToken.operator (op : AssignmentToken) : Operator :=
  (assignmentOperator op.1).get op.2

/-- The parameters of a function. -/
def parametersNode : List Identifier → Option Node
  | [] => none
  | name :: rest => some (Builder.formalParameterList name rest)

/-- The body of a function. -/
def functionBodyNode (body : List Node) : Node :=
  Builder.createFunctionBody (Node.ofListOrNull .sourceElements body)

/-- A declared variable. -/
def declarationNode (name : Identifier) : Option Node → Node
  | none => Builder.createVarIdentifier name
  | some init => Builder.createAssignResolve name init

/-- Declared variables, combined one after the other. -/
def combineDeclarations (list : Node) : List Node → Node
  | [] => list
  | n :: ns => combineDeclarations (Builder.combineCommaNodes (some list) n) ns

/-- The block around some statements. -/
def blockNode (body : List Node) : Node :=
  Builder.createBlockStatement (Node.ofListOrNull .sourceElements body)

namespace Phrase

/-- The node, or the nodes, that the builder makes of a phrase. -/
def build [Platform] : {c : Category} → Phrase c → c.Built
  | _, this => Builder.thisExpr
  | _, resolve name => Builder.createResolve name
  | _, string value => Builder.createString value
  | _, number value => Builder.createNumberExpr value
  | _, null => Builder.createNull
  | _, boolean value => Builder.createBoolean value
  | _, regExp _ pattern flags => Builder.createRegex pattern flags
  | _, paren e => e.build
  | _, emptyArray _ => Builder.createArray none
  | _, array _ first rest =>
      Builder.createArray (some (.ofList .elementList (first.build :: rest.build)))
  | _, emptyObject => Builder.createObjectLiteral none
  | _, object first rest =>
      Builder.createObjectLiteral (some (.ofList .propertyList (first.build :: rest.build)))
  | _, function name params body =>
      Builder.createFunctionExpr (name.getD []) (functionBodyNode body.build)
        (parametersNode params)
  | _, bracket base property => Builder.createBracketAccess base.build property.build
  | _, dot base property => Builder.createDotAccess base.build property
  | _, call callee args => Builder.makeFunctionCallNode callee.build args.build
  | _, newArgs callee args => Builder.createNewExpr callee.build args.build
  | _, newNoArgs callee => Builder.createNewExprNoArguments callee.build
  | _, unary op e => unaryNode op.1 e.build
  | _, postOp increment e =>
      Builder.makePostfixNode e.build (if increment then .opPlusPlus else .opMinusMinus)
  | _, binary left op right =>
      ((Node.ofOperator .binaryExpression op.operator).append (some left.build)).append
        (some right.build)
  | _, cond test left right =>
      Builder.createConditionalExpr test.build (some left.build) right.build
  | _, assign left op right => Builder.createAssignment left.build op.operator right.build
  | _, comma first second rest => .ofList .comma (first.build :: second.build :: rest.build)
  | _, noExprs => []
  | _, moreExprs e rest => e.build :: rest.build
  | _, noArgs => Builder.createArguments none
  | _, arguments first rest =>
      Builder.createArguments (some (.ofList .argumentsList (first.build :: rest.build)))
  | _, noElements => []
  | _, trailingElisions _ => []
  | _, moreElements _ e rest => e.build :: rest.build
  | _, prop _ name value => Builder.createProperty name value.build .constant
  | _, numericProp name value => Builder.createNumericProperty name value.build .constant
  | _, noProps => []
  | _, trailingComma => []
  | _, moreProps p rest => p.build :: rest.build
  | _, absent => none
  | _, present e => some e.build
  | _, noInit => none
  | _, initializer e => some e.build
  | _, block body => blockNode body.build
  | _, varDecl name init rest _ =>
      Builder.createVarStatement
        (combineDeclarations (declarationNode name init.build) rest.build)
  | _, functionDecl name params body =>
      Builder.createFuncDeclStatement name (functionBodyNode body.build) (parametersNode params)
  | _, empty => Builder.createEmptyStatement
  | _, ifThen test yes => Builder.createIfStatement test.build yes.build none
  | _, ifElse test yes no => Builder.createIfStatement test.build yes.build (some no.build)
  | _, doWhile body test _ => Builder.createDoWhileStatement body.build test.build
  | _, .while test body => Builder.createWhileStatement test.build body.build
  | _, .for init test update body =>
      Builder.createForLoop init.build test.build update.build body.build
  | _, forVar name init rest _ _ test update body =>
      Builder.createForLoop
        (some (combineDeclarations (declarationNode name init.build) rest.build)) test.build
        update.build body.build
  | _, forIn left right body => Builder.createForIn left.build right.build body.build
  | _, forInVar name init right body =>
      Builder.createForInVar name init.build right.build body.build
  | _, .continue label _ => Builder.createContinueStatement label
  | _, .break label _ => Builder.createBreakStatement label
  | _, .return e _ => Builder.createReturnStatement e.build
  | _, throw e _ => Builder.createThrowStatement e.build
  | _, .with subject body => Builder.createWithStatement subject.build body.build
  | _, switch discriminant first default second =>
      Builder.createSwitchStatement discriminant.build (Node.ofListOrNull .clauseList first.build)
        default.build (Node.ofListOrNull .clauseList second.build)
  | _, .try body handler finalizer =>
      Builder.createTryStatement (blockNode body.build) handler.build.1 handler.build.2
        finalizer.build
  | _, debugger _ => Builder.createDebugger
  | _, labelled label body => Builder.createLabelStatement label body.build
  | _, exprStmt e _ => Builder.createExprStatement e.build
  | _, noStmts => []
  | _, moreStmts first rest => first.build :: rest.build
  | _, noClauses => []
  | _, moreClauses test body rest =>
      Builder.createClause (some test.build) (.ofList .sourceElements body.build) :: rest.build
  | _, noDefault => none
  | _, defaultClause body =>
      some (Builder.createClause none (.ofList .sourceElements body.build))
  | _, noDecls => []
  | _, moreDecls name init rest => declarationNode name init.build :: rest.build
  | _, noHandler => ([], none)
  | _, .catch name body => (name, some (blockNode body.build))
  | _, noFinalizer => none
  | _, .finally body => some (blockNode body.build)

/-- Reading the phrase leaves `m_nonLHSCount` as it was: no operator of it counts,
other than those in parentheses, in brackets after an expression and among the
arguments of a call. -/
def Calm : {c : Category} → Phrase c → Prop
  | _, this | _, resolve _ | _, string _ | _, number _ | _, null | _, boolean _
  | _, regExp _ _ _ | _, paren _ | _, emptyArray _ | _, emptyObject => True
  | _, array _ first rest => first.Calm ∧ rest.Calm
  | _, object first rest => first.Calm ∧ rest.Calm
  | _, function _ _ body => body.Calm
  | _, bracket base _ => base.Calm
  | _, dot base _ => base.Calm
  | _, call callee _ => callee.Calm
  | _, newArgs callee args => callee.Calm ∧ args.Calm
  | _, newNoArgs callee => callee.Calm
  | _, unary _ _ | _, postOp _ _ | _, binary _ _ _ | _, cond _ _ _ | _, assign _ _ _
  | _, comma _ _ _ => False
  | _, noExprs | _, noArgs | _, noElements | _, trailingElisions _ | _, noProps
  | _, trailingComma | _, absent | _, noInit => True
  | _, moreExprs e rest => e.Calm ∧ rest.Calm
  | _, arguments first rest => first.Calm ∧ rest.Calm
  | _, moreElements _ e rest => e.Calm ∧ rest.Calm
  | _, prop _ _ value => value.Calm
  | _, numericProp _ value => value.Calm
  | _, moreProps p rest => p.Calm ∧ rest.Calm
  | _, present e => e.Calm
  | _, initializer e => e.Calm
  | _, block body => body.Calm
  | _, varDecl _ init rest _ => init.Calm ∧ rest.Calm
  | _, functionDecl _ _ body => body.Calm
  | _, empty | _, .continue _ _ | _, .break _ _ | _, debugger _ => True
  | _, ifThen test yes => test.Calm ∧ yes.Calm
  | _, ifElse test yes no => test.Calm ∧ yes.Calm ∧ no.Calm
  | _, doWhile body test _ => body.Calm ∧ test.Calm
  | _, .while test body => test.Calm ∧ body.Calm
  | _, .for init test update body => init.Calm ∧ test.Calm ∧ update.Calm ∧ body.Calm
  | _, forVar _ init rest _ _ test update body =>
      init.Calm ∧ rest.Calm ∧ test.Calm ∧ update.Calm ∧ body.Calm
  | _, forIn left right body => left.Calm ∧ right.Calm ∧ body.Calm
  | _, forInVar _ init right body => init.Calm ∧ right.Calm ∧ body.Calm
  | _, .return e _ => e.Calm
  | _, throw e _ => e.Calm
  | _, .with subject body => subject.Calm ∧ body.Calm
  | _, switch discriminant first default second =>
      discriminant.Calm ∧ first.Calm ∧ default.Calm ∧ second.Calm
  | _, .try body handler finalizer => body.Calm ∧ handler.Calm ∧ finalizer.Calm
  | _, labelled _ body => body.Calm
  | _, exprStmt e _ => e.Calm
  | _, noStmts | _, noClauses | _, noDefault | _, noDecls | _, noHandler | _, noFinalizer => True
  | _, moreStmts first rest => first.Calm ∧ rest.Calm
  | _, moreClauses test body rest => test.Calm ∧ body.Calm ∧ rest.Calm
  | _, defaultClause body => body.Calm
  | _, moreDecls _ init rest => init.Calm ∧ rest.Calm
  | _, .catch _ body => body.Calm
  | _, .finally body => body.Calm

-- only to have the equations of the definitions made here, once for all that rewrite with them
attribute [local simp] lexemes build Calm

end Phrase

end HammerJS
