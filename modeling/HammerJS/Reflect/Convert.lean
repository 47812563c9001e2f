import HammerJS.Reflect.Statements

/-!
# From nodes to values

`reflect.cpp`: the conversion of the syntax tree to a JavaScript value, and
`Reflect.parse` itself.

* `Json` — the values that `convertNode` makes.
* `convertNode` — the conversion, a branch for each node type.
* `reflectParse` — `Reflect.parse`.

Every object is made by setting `type` first, so `type` is an argument of its
own and the other fields follow in the order in which they are set.
-/

namespace HammerJS

open Procs

/-- The values of the field `type`. -/
inductive ObjectType where
  | arrayExpression | assignmentExpression | binaryExpression | blockStatement | breakStatement
  | callExpression | conditionalExpression | continueStatement | debuggerStatement
  | doWhileStatement | emptyStatement | expressionStatement | forInStatement | forStatement
  | functionExpression | identifier | ifStatement | literal | memberExpression | newExpression
  | objectExpression | program | property | returnStatement | sequenceExpression | switchCase
  | switchStatement | thisExpression | throwStatement | tryStatement | unaryExpression
  | updateExpression | variableDeclaration | variableDeclarator | whileStatement | withStatement
  deriving DecidableEq, Repr

/-- The names of the other fields; `isPrefix` is the field `prefix`. -/
inductive Field where
  | accesstype | alternate | argument | arguments | block | body | callee | cases | consequent
  | declarations | discriminant | each | elements | expression | expressions | finalizer
  | handler | id | init | isPrefix | key | label | left | name | object | objtype | operator
  | params | properties | property | right | test | update | value
  deriving DecidableEq, Repr

/-- The values made by `convertNode`.  A string is a `text` when it is a constant
of the code, and a `string` when it comes from the source. -/
inductive Json where
  | undefined
  | null
  | boolean (b : Bool)
  | integer (n : Int)
  | string (s : Identifier)
  | text (s : String)
  | array (elements : List Json)
  | object (type : ObjectType) (fields : List (Field × Json))

/-- `operatorAsText`; none where the code calls `CRASH()`. -/
def operatorAsText : OperatorType → Option String
  | .typeofOperator => some "typeof"
  | .deleteOperator => some "delete"
  | .logicalNotOperator => some "!"
  | .logicalOrOperator => some "||"
  | .logicalAndOperator => some "&&"
  | .bitwiseNotOperator => some "!"
  | .bitwiseOrOperator => some "|"
  | .bitwiseXorOperator => some "^"
  | .bitwiseAndOperator => some "&"
  | .equalOperator => some "=="
  | .notEqualOperator => some "!="
  | .stringEqualOperator => some "==="
  | .stringNotEqualOperator => some "!=="
  | .lessThanOperator => some "<"
  | .greaterThanOperator => some ">"
  | .lessThanOrEqualOperator => some ">="
  | .greaterThanOrEqualOperator => some "<="
  | .instanceofOperator => some "instance of"
  | .intokenOperator => some "in"
  | .leftShiftOperator => some "<<"
  | .rightShiftOperator => some ">>"
  | .zeroFillRightShiftOperator => some ">>>"
  | .addOperator => some "+"
  | .subtractOperator => some "-"
  | .multiplyOperator => some "*"
  | .divideOperator => some "/"
  | .modulusOperator => some "%"
  | .plusPlusOperator => some "++"
  | .minusMinusOperator => some "--"
  | .assignEqual => some "="
  | .assignAdd => some "+="
  | .assignSubtract => some "-="
  | .assignMultiply => some "*="
  | .assignDivide => some "/="
  | .assignModulus => some "%="
  | .assignLeftShift => some ">>="
  | .assignRightShift => some "<<="
  | .assignZeroFillRightShift => some ">>>="
  | .assignAnd => some "&="
  | .assignXor => some "^="
  | .assignOr => some "|="
  | .noOperator => none

/-! ## Conversion -/

/-- A conversion: the value, unless the code crashes. -/
abbrev Conversion := Except Crash Json

/-- `String::New(operatorAsText(op))`. -/
def convertOperatorText (op : OperatorType) : Conversion :=
  match operatorAsText op with
  | some s => .ok (.text s)
  | none => .error .operatorAsText

/-- `n->childAt(index)`. -/
def Node.childAt (n : Node) (index : Nat) : Except Crash (Option Node) :=
  match n.children[index]? with
  | some child => .ok child
  | none => .error .childBounds

/-- `n->childAt(0)` where the code tests `childCount` first. -/
def Node.firstChild (n : Node) : Option Node := (n.children[0]?).join

/-- `Integer::New(n->number())`: a `double` narrowed to `int`. -/
def narrowToInt [Platform] (d : Double) : Int :=
  match d with
  | .infinity => Platform.narrow .infinity
  | .finite q =>
      let n := q.num.tdiv q.den
      if -2 ^ 31 ≤ n ∧ n < 2 ^ 31 then n else Platform.narrow d

/-- The object for an `Identifier`. -/
def identifierObject (name : Identifier) : Json := .object .identifier [(.name, .string name)]

/-- A name that is null when it is empty. -/
def nameOrNull (name : Identifier) : Json := if name.isEmpty then .null else .string name

/-- The names along the chain of a `FormalParameterListType` node. -/
def convertParameters : Nat → Node → Except Crash (List Json)
  | 0, _ => .error .recursionBound
  | k + 1, n =>
      if n.type = .formalParameterList then
        match n.children with
        | [] => .ok [identifierObject n.identifier]
        | none :: _ => .error .nullNode
        | some next :: _ => do
            return identifierObject n.identifier :: (← convertParameters k next)
      else .ok []

section Branches

/-! The branches of `convertNode`, given the conversion of a child. -/

variable [Platform] (convert : Option Node → Nat → Conversion)

/-- `convertChildren`. -/
def convertChildren (n : Node) (indent : Nat) : Conversion := do
  return .array (← n.children.mapM fun child => convert child (indent + 1))

/-- `convertChild`. -/
def convertChild (n : Node) (index indent : Nat) : Conversion :=
  match n.children[index]? with
  | some child => convert child indent
  | none => .ok .null

/-- An object with one field for each of some children. -/
def convertFields (n : Node) (indent : Nat) (type : ObjectType) (start : List (Field × Json))
    (fields : List (Field × Nat)) (rest : List (Field × Json)) : Conversion := do
  let converted ← fields.mapM fun (field, index) => do
    return (field, ← convertChild convert n index (indent + 1))
  return .object type (start ++ converted ++ rest)

/-- An object with an operator and some children. -/
def convertOperation (n : Node) (indent : Nat) (type : ObjectType)
    (fields : List (Field × Nat)) (rest : List (Field × Json)) : Conversion := do
  let operator ← convertOperatorText n.op
  convertFields convert n indent type [(.operator, operator)] fields rest

/-- The branches for the two kinds of function. -/
def convertFunction (n : Node) (indent : Nat) : Conversion := do
  let params ←
    match n.firstChild with
    | some _ => convertChild convert n 0 (indent + 1)
    | none => .ok (.array [])
  convertFields convert n indent .functionExpression
    [(.id, nameOrNull n.identifier), (.params, params)] [(.body, 1)] []

/-- The branch for `ForInLoopType`: its first child is not converted. -/
def convertForIn (n : Node) (indent : Nat) : Conversion := do
  match ← n.childAt 0 with
  | some _ =>
      convertFields convert n indent .forInStatement [] [(.right, 1), (.body, 2)]
        [(.each, .boolean false)]
  | none =>
      let declarator := Json.object .variableDeclarator
        [(.id, identifierObject n.identifier), (.init, .null)]
      let declaration := Json.object .variableDeclaration [(.declarations, .array [declarator])]
      convertFields convert n indent .forInStatement [(.left, declaration)]
        [(.right, 1), (.body, 2)] [(.each, .boolean false)]

/-- The cases of a `SwitchStatementType` node, if there are any: the default
clause is added to the first clauses, the second clauses are not looked at. -/
def convertCases (n : Node) (indent : Nat) : Except Crash (List (Field × Json)) := do
  match ← n.childAt 1 with
  | some firstClauses =>
      let clauses :=
        match ← n.childAt 2 with
        | some defaultClause => firstClauses.append (some defaultClause)
        | none => firstClauses
      return [(.cases, ← convert (some clauses) (indent + 1))]
  | none =>
      match ← n.childAt 2 with
      | some defaultClause =>
          return [(.cases, ← convertChildren convert defaultClause (indent + 1))]
      | none => return []

/-- The branch for `ClauseType`. -/
def convertClause (n : Node) (indent : Nat) : Conversion := do
  let consequent ←
    if n.children.isEmpty then pure []
    else
      match ← n.childAt 1 with
      | some elements => pure [← convert (some elements) (indent + 1)]
      | none => pure []
  convertFields convert n indent .switchCase [] [(.test, 0)] [(.consequent, .array consequent)]

/-- The branch for `RegexType`. -/
def convertRegex (n : Node) : Json :=
  let slash := (UInt16.ofNat '/'.toNat)
  .object .literal
    [(.objtype, .text "RegEx"), (.value, .string (slash :: n.identifier ++ slash :: n.string))]

end Branches

/-- `convertNode`, with a bound on the depth of its recursion. -/
def convertNode [Platform] : Nat → Option Node → Nat → Conversion
  | _, none, _ => .ok .null
  | 0, some _, _ => .error .recursionBound
  | k + 1, some n, indent =>
      let convert := convertNode k
      match n.type with
      | .arguments =>
          match n.firstChild with
          | some list => convert (some list) indent
          | none => .ok (.array [])
      | .argumentsList | .elementList | .clauseList => convertChildren convert n (indent + 1)
      | .array =>
          if n.children.isEmpty then .ok (.object .arrayExpression [(.elements, .array [])])
          else do
            match ← n.childAt 0 with
            | some list =>
                return .object .arrayExpression
                  [(.elements, ← convertChildren convert list (indent + 1))]
            | none => .error .nullNode
      | .assignmentExpression =>
          convertOperation convert n indent .assignmentExpression [(.left, 0), (.right, 1)] []
      | .binaryExpression =>
          convertOperation convert n indent .binaryExpression [(.left, 0), (.right, 1)] []
      | .blockStatement =>
          match n.children with
          | [some list] =>
              if list.type = .sourceElements then do
                return .object .blockStatement
                  [(.body, ← convertChildren convert list (indent + 1))]
              else .ok (.object .blockStatement [(.body, .array [])])
          | _ => .ok (.object .blockStatement [(.body, .array [])])
      | .booleanExpression =>
          .ok (.object .literal [(.objtype, .text "Boolean"), (.value, .boolean n.boolean)])
      | .bracketAccess =>
          convertFields convert n indent .memberExpression [(.accesstype, .text "Bracket")]
            [(.object, 0), (.property, 1)] []
      | .breakStatement => .ok (.object .breakStatement [(.label, nameOrNull n.identifier)])
      | .clause => convertClause convert n indent
      | .comma => do
          return .object .sequenceExpression
            [(.expressions, ← convertChildren convert n (indent + 1))]
      | .continueStatement => .ok (.object .continueStatement [(.label, nameOrNull n.identifier)])
      | .conditionalExpression =>
          convertFields convert n indent .conditionalExpression []
            [(.test, 0), (.consequent, 1), (.alternate, 2)] []
      | .debugger => .ok (.object .debuggerStatement [])
      | .dotAccess =>
          convertFields convert n indent .memberExpression [(.accesstype, .text "Dot")]
            [(.object, 0)] [(.property, identifierObject n.identifier)]
      | .doWhileStatement =>
          convertFields convert n indent .doWhileStatement [] [(.body, 0), (.test, 1)] []
      | .emptyStatement => .ok (.object .emptyStatement [])
      | .expressionStatement | .expression =>
          convertFields convert n indent .expressionStatement [] [(.expression, 0)] []
      | .forInLoop => convertForIn convert n indent
      | .forLoop =>
          convertFields convert n indent .forStatement []
            [(.init, 0), (.test, 1), (.update, 2), (.body, 3)] []
      | .formalParameterList => do return .array (← convertParameters (k + 1) n)
      | .functionBody =>
          match n.firstChild with
          | some list => convert (some list) indent
          | none => .ok (.object .blockStatement [(.body, .array [])])
      | .functionCall =>
          convertFields convert n indent .callExpression [] [(.callee, 0), (.arguments, 1)] []
      | .functionDeclStatement | .functionExpression => convertFunction convert n indent
      | .identifierExpression | .resolve => .ok (identifierObject n.identifier)
      | .ifStatement =>
          convertFields convert n indent .ifStatement []
            [(.test, 0), (.consequent, 1), (.alternate, 2)] []
      | .newExpression =>
          convertFields convert n indent .newExpression [] [(.callee, 0), (.arguments, 1)] []
      | .null => .ok (.object .literal [(.objtype, .text "Null"), (.value, .null)])
      | .numberExpression =>
          .ok (.object .literal
            [(.objtype, .text "Number"), (.value, .integer (narrowToInt n.number))])
      | .objectLiteral => do
          let properties ←
            match n.firstChild with
            | some list =>
                if list.type = .propertyList then convertChildren convert list (indent + 1)
                else convertChildren convert n (indent + 1)
            | none => convertChildren convert n (indent + 1)
          return .object .objectExpression [(.properties, properties)]
      | .postfixType =>
          convertOperation convert n indent .updateExpression [(.argument, 0)]
            [(.isPrefix, .boolean false)]
      | .prefixType =>
          convertOperation convert n indent .updateExpression [(.argument, 0)]
            [(.isPrefix, .boolean true)]
      | .property =>
          convertFields convert n indent .property [(.key, identifierObject n.identifier)]
            [(.value, 0)] []
      | .regex => .ok (convertRegex n)
      | .returnStatement => convertFields convert n indent .returnStatement [] [(.argument, 0)] []
      | .sourceElements => do
          return .object (if 0 < indent then .blockStatement else .program)
            [(.body, ← convertChildren convert n (indent + 1))]
      | .stringExpression =>
          .ok (.object .literal [(.objtype, .text "String"), (.value, .string n.string)])
      | .switchStatement => do
          let discriminant ← convertChild convert n 0 (indent + 1)
          return .object .switchStatement
            ((.discriminant, discriminant) :: (← convertCases convert n indent))
      | .this => .ok (.object .thisExpression [])
      | .throwStatement => convertFields convert n indent .throwStatement [] [(.argument, 0)] []
      | .tryStatement =>
          convertFields convert n indent .tryStatement []
            [(.block, 0), (.handler, 1), (.finalizer, 2)] []
      | .unaryExpression =>
          convertOperation convert n indent .unaryExpression [(.argument, 0)] []
      | .variableDeclaration => do
          return .object .variableDeclaration
            [(.declarations, ← convertChildren convert n (indent + 1))]
      | .void =>
          convertFields convert n indent .unaryExpression [(.operator, .text "void")]
            [(.argument, 0)] []
      | .whileStatement =>
          convertFields convert n indent .whileStatement [] [(.test, 0), (.body, 1)] []
      | .withStatement =>
          convertFields convert n indent .withStatement [] [(.object, 0), (.body, 1)] []
      | .assign | .constDeclaration | .constStatement | .declaration | .labelStatement
      | .propertyList | .statement => .ok .undefined

/-! ## `Reflect.parse` -/

mutual

/-- The height of a node. -/
def Node.height : Node → Nat
  | ⟨_, _, _, _, _, _, _, children⟩ => heights children + 1

/-- The height of the highest of some children. -/
def heights : List (Option Node) → Nat
  | [] => 0
  | none :: rest => heights rest
  | some n :: rest => max n.height (heights rest)

end

/-- How a call of `Reflect.parse` ends. -/
inductive ReflectResult where
  /-- The value returned. -/
  | tree (json : Json)
  /-- `"Exception: Reflect.parse error!"`. -/
  | parseError
  /-- `"Exception: Reflect.parse() accepts 1 argument"`. -/
  | argumentError
  /-- The process stopped. -/
  | crashed (e : Crash)
  /-- The run was cut short. -/
  | timeout

/-- What becomes of the outcome of the parser; folding the default clause of a
`switch` into a list makes the conversion one level deeper than the node. -/
def convertOutcome [Platform] : Outcome ParserState Crash Node → ReflectResult
  | .done (some tree) _ =>
      match convertNode (2 * tree.height) (some tree) 0 with
      | .ok json => .tree json
      | .error e => .crashed e
  | .done none _ => .parseError
  | .fault e => .crashed e
  | .timeout => .timeout

/-- `Reflect.parse` on the characters handed to the parser. -/
def reflectParse [Platform] (source : List UChar) : ReflectResult :=
  convertOutcome (runParser source)

/-- The characters handed to the parser: each byte of the UTF-8 text, a signed
`char`, converted to `UChar`. -/
def scriptCode (utf8 : List UInt8) : List UChar :=
  utf8.map fun b => if b < 0x80 then b.toUInt16 else 0xFF00 ||| b.toUInt16

/-- `reflect_parse`, on the UTF-8 text of its arguments. -/
def reflect_parse [Platform] : List (List UInt8) → ReflectResult
  | [code] => reflectParse (scriptCode code)
  | _ => .argumentError

end HammerJS
