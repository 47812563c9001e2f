import HammerJS.Reflect.Convert
import HammerJS.Syntax.Phrase

/-!
# What becomes of a phrase

The value that `convertNode` makes of the node that the builder makes of a phrase,
from the phrase alone.

* `Phrase.value` — the value, or values, of a phrase.
* `functionValue`, `casesFields` and the like — the parts that phrases share.
* `Json.same` — whether two values are the same.
-/

namespace HammerJS

open Procs

/-! ## Values -/

/-- The value of an operator. -/
def operatorText (op : OperatorType) : Json := .text ((operatorAsText op).getD "")

/-- A block, and a body of a function. -/
def blockValue (body : List Json) : Json := .object .blockStatement [(.body, .array body)]

/-- A prefix operator with its operand. -/
def unaryValue (op : OperatorType) (argument : Json) : Json :=
  .object .unaryExpression [(.operator, operatorText op), (.argument, argument)]

/-- `++` or `--` with its operand. -/
def updateValue (op : OperatorType) (isPrefix : Bool) (argument : Json) : Json :=
  .object .updateExpression
    [(.operator, operatorText op), (.argument, argument), (.isPrefix, .boolean isPrefix)]

/-- The value for a prefix operator; `void` loses its operand. -/
def prefixValue : JSTokenType → Json → Json
  | .exclamation => unaryValue .logicalNotOperator
  | .tilde => unaryValue .bitwiseNotOperator
  | .minus => unaryValue .subtractOperator
  | .plus => unaryValue .addOperator
  | .plusPlus | .autoPlusPlus => updateValue .plusPlusOperator true
  | .minusMinus | .autoMinusMinus => updateValue .minusMinusOperator true
  | .typeof => unaryValue .typeofOperator
  | .voidToken => fun _ =>
      .object .unaryExpression [(.operator, .text "void"), (.argument, .null)]
  | _ => unaryValue .deleteOperator

/-- A binary operator, or an assignment operator, with its operands. -/
def binaryValue (type : ObjectType) (op : OperatorType) (left right : Json) : Json :=
  .object type [(.operator, operatorText op), (.left, left), (.right, right)]

/-- A function, of either kind. -/
def functionValue (name : Identifier) (params : List Identifier) (body : List Json) : Json :=
  .object .functionExpression
    [(.id, nameOrNull name), (.params, .array (params.map identifierObject)),
      (.body, blockValue body)]

/-- A declared variable: an identifier, or an assignment. -/
def declarationValue (name : Identifier) : Option Json → Json
  | none => identifierObject name
  | some init => binaryValue .assignmentExpression .assignEqual (identifierObject name) init

/-- Declared variables: several of them are a sequence. -/
def declarationsValue (first : Json) : List Json → Json
  | [] => first
  | second :: rest =>
      .object .sequenceExpression [(.expressions, .array (first :: second :: rest))]

/-- A clause of a `switch`. -/
def caseValue (test : Json) (body : List Json) : Json :=
  .object .switchCase [(.test, test), (.consequent, .array [blockValue body])]

/-- The cases of a `switch`: the second clauses are left out, and a default clause
without first clauses is taken apart. -/
def casesFields : List Json → Option (List Json) → List (Field × Json)
  | [], none => []
  | [], some body => [(.cases, .array [.null, blockValue body])]
  | c :: cs, none => [(.cases, .array (c :: cs))]
  | c :: cs, some body => [(.cases, .array (c :: cs ++ [caseValue .null body]))]

/-- A `for` loop over the properties of an object, with a declared variable; an
initializer takes the place of the variable. -/
def forInVarValue (name : Identifier) (init : Option Json) (right body : Json) : Json :=
  let left : List (Field × Json) :=
    match init with
    | some _ => []
    | none =>
        let declarator := Json.object .variableDeclarator
          [(.id, identifierObject name), (.init, .null)]
        [(.left, .object .variableDeclaration [(.declarations, .array [declarator])])]
  .object .forInStatement (left ++ [(.right, right), (.body, body), (.each, .boolean false)])

/-- A `Literal`. -/
def literalValue (objtype : String) (value : Json) : Json :=
  .object .literal [(.objtype, .text objtype), (.value, value)]

/-- The text of a regular expression, between its slashes and with its flags. -/
def regExpText (pattern flags : Identifier) : Identifier :=
  '/'.toNat.toUInt16 :: pattern ++ '/'.toNat.toUInt16 :: flags

/-- What the conversion makes of the phrases of a category. -/
abbrev Category.Value : Category → Type
  | .expr | .prop | .stmt | .opt | .handler | .finalizer => Json
  | .exprs | .args | .elements | .props | .stmts | .clauses | .decls => List Json
  | .init => Option Json
  | .default => Option (List Json)

namespace Phrase

/-- The value, or the values, that the conversion makes of a phrase. -/
def value [Platform] : {c : Category} → Phrase c → c.Value
  | _, this => .object .thisExpression []
  | _, resolve name => identifierObject name
  | _, string value => literalValue "String" (.string value)
  | _, number value => literalValue "Number" (.integer (narrowToInt value))
  | _, null => literalValue "Null" .null
  | _, boolean value => literalValue "Boolean" (.boolean value)
  | _, regExp _ pattern flags => literalValue "RegEx" (.string (regExpText pattern flags))
  | _, paren e => e.value
  | _, emptyArray _ => .object .arrayExpression [(.elements, .array [])]
  | _, array _ first rest =>
      .object .arrayExpression [(.elements, .array (first.value :: rest.value))]
  | _, emptyObject => .object .objectExpression [(.properties, .array [])]
  | _, object first rest =>
      .object .objectExpression [(.properties, .array (first.value :: rest.value))]
  | _, function name params body => functionValue (name.getD []) params body.value
  | _, bracket base property =>
      .object .memberExpression
        [(.accesstype, .text "Bracket"), (.object, base.value), (.property, property.value)]
  | _, dot base property =>
      .object .memberExpression
        [(.accesstype, .text "Dot"), (.object, base.value), (.property, identifierObject property)]
  | _, call callee args =>
      .object .callExpression [(.callee, callee.value), (.arguments, .array args.value)]
  | _, newArgs callee args =>
      .object .newExpression [(.callee, callee.value), (.arguments, .array args.value)]
  | _, newNoArgs callee => .object .expressionStatement [(.expression, callee.value)]
  | _, unary op e => prefixValue op.1 e.value
  | _, postOp increment e =>
      updateValue (if increment then .plusPlusOperator else .minusMinusOperator) false e.value
  | _, binary left op right => binaryValue .binaryExpression op.operator left.value right.value
  | _, cond test left right =>
      .object .conditionalExpression
        [(.test, test.value), (.consequent, left.value), (.alternate, right.value)]
  | _, assign left op right =>
      binaryValue .assignmentExpression (convertOperator op.operator) left.value right.value
  | _, comma first second rest =>
      .object .sequenceExpression
        [(.expressions, .array (first.value :: second.value :: rest.value))]
  | _, noExprs => []
  | _, moreExprs e rest => e.value :: rest.value
  | _, noArgs => []
  | _, arguments first rest => first.value :: rest.value
  | _, noElements => []
  | _, trailingElisions _ => []
  | _, moreElements _ e rest => e.value :: rest.value
  | _, prop _ name value =>
      .object .property [(.key, identifierObject name), (.value, value.value)]
  | _, numericProp name value =>
      .object .property
        [(.key, identifierObject (Platform.numberToString name)), (.value, value.value)]
  | _, noProps => []
  | _, trailingComma => []
  | _, moreProps p rest => p.value :: rest.value
  | _, absent => .null
  | _, present e => e.value
  | _, noInit => none
  | _, initializer e => some e.value
  | _, block body => blockValue body.value
  | _, varDecl name init rest _ =>
      .object .variableDeclaration
        [(.declarations,
          .array [declarationsValue (declarationValue name init.value) rest.value])]
  | _, functionDecl name params body => functionValue name params body.value
  | _, empty => .object .emptyStatement []
  | _, ifThen test yes =>
      .object .ifStatement [(.test, test.value), (.consequent, yes.value), (.alternate, .null)]
  | _, ifElse test yes no =>
      .object .ifStatement
        [(.test, test.value), (.consequent, yes.value), (.alternate, no.value)]
  | _, doWhile body test _ =>
      .object .doWhileStatement [(.body, body.value), (.test, test.value)]
  | _, .while test body => .object .whileStatement [(.test, test.value), (.body, body.value)]
  | _, .for init test update body =>
      .object .forStatement
        [(.init, init.value), (.test, test.value), (.update, update.value), (.body, body.value)]
  | _, forVar name init rest _ _ test update body =>
      .object .forStatement
        [(.init, declarationsValue (declarationValue name init.value) rest.value),
          (.test, test.value), (.update, update.value), (.body, body.value)]
  | _, forIn _ right body =>
      .object .forInStatement
        [(.right, right.value), (.body, body.value), (.each, .boolean false)]
  | _, forInVar name init right body =>
      forInVarValue name init.value right.value body.value
  | _, .continue label _ => .object .continueStatement [(.label, nameOrNull (label.getD []))]
  | _, .break label _ => .object .breakStatement [(.label, nameOrNull (label.getD []))]
  | _, .return e _ => .object .returnStatement [(.argument, e.value)]
  | _, throw e _ => .object .throwStatement [(.argument, e.value)]
  | _, .with subject body =>
      .object .withStatement [(.object, subject.value), (.body, body.value)]
  | _, switch discriminant first default _ =>
      .object .switchStatement
        ((.discriminant, discriminant.value) :: casesFields first.value default.value)
  | _, .try body handler finalizer =>
      .object .tryStatement
        [(.block, blockValue body.value), (.handler, handler.value),
          (.finalizer, finalizer.value)]
  | _, debugger _ => .object .debuggerStatement []
  | _, labelled _ _ => .undefined
  | _, exprStmt e _ => .object .expressionStatement [(.expression, e.value)]
  | _, noStmts => []
  | _, moreStmts first rest => first.value :: rest.value
  | _, noClauses => []
  | _, moreClauses test body rest => caseValue test.value body.value :: rest.value
  | _, noDefault => none
  | _, defaultClause body => some body.value
  | _, noDecls => []
  | _, moreDecls name init rest => declarationValue name init.value :: rest.value
  | _, noHandler => .null
  | _, .catch _ body => blockValue body.value
  | _, noFinalizer => .null
  | _, .finally body => blockValue body.value

-- only to have the equations of the definition made here, once for all that rewrite with them
attribute [local simp] value

end Phrase

/-! ## Equality of values -/

mutual

/-- Whether two values are the same. -/
def Json.same : Json → Json → Bool
  | .undefined, .undefined => true
  | .null, .null => true
  | .boolean b, .boolean b' => b == b'
  | .integer n, .integer n' => n == n'
  | .string s, .string s' => s == s'
  | .text s, .text s' => s == s'
  | .array js, .array js' => sameElements js js'
  | .object type fields, .object type' fields' => type == type' && sameFields fields fields'
  | _, _ => false

/-- The same, for the elements of two arrays. -/
def sameElements : List Json → List Json → Bool
  | [], [] => true
  | j :: js, j' :: js' => j.same j' && sameElements js js'
  | _, _ => false

/-- The same, for the fields of two objects. -/
def sameFields : List (Field × Json) → List (Field × Json) → Bool
  | [], [] => true
  | (field, j) :: fields, (field', j') :: fields' =>
      field == field' && j.same j' && sameFields fields fields'
  | _, _ => false

end

mutual

theorem Json.eq_of_same : ∀ {j j' : Json}, j.same j' = true → j = j'
  | .undefined, j', h => by cases j' <;> simp_all [Json.same]
  | .null, j', h => by cases j' <;> simp_all [Json.same]
  | .boolean _, j', h => by cases j' <;> simp_all [Json.same]
  | .integer _, j', h => by cases j' <;> simp_all [Json.same]
  | .string _, j', h => by cases j' <;> simp_all [Json.same]
  | .text _, j', h => by cases j' <;> simp_all [Json.same]
  | .array js, j', h => by
      cases j' with
      | array js' =>
          have hsame : sameElements js js' = true := by simpa [Json.same] using h
          rw [eq_of_sameElements hsame]
      | _ => simp [Json.same] at h
  | .object type fields, j', h => by
      cases j' with
      | object type' fields' =>
          simp only [Json.same, Bool.and_eq_true, beq_iff_eq] at h
          rw [h.1, eq_of_sameFields h.2]
      | _ => simp [Json.same] at h

theorem eq_of_sameElements : ∀ {js js' : List Json}, sameElements js js' = true → js = js'
  | [], js', h => by cases js' <;> simp_all [sameElements]
  | j :: js, js', h => by
      cases js' with
      | nil => simp [sameElements] at h
      | cons j' js' =>
          simp only [sameElements, Bool.and_eq_true] at h
          rw [Json.eq_of_same h.1, eq_of_sameElements h.2]

theorem eq_of_sameFields : ∀ {fields fields' : List (Field × Json)},
    sameFields fields fields' = true → fields = fields'
  | [], fields', h => by cases fields' <;> simp_all [sameFields]
  | (field, j) :: fields, fields', h => by
      cases fields' with
      | nil => simp [sameFields] at h
      | cons f' fields' =>
          simp only [sameFields, Bool.and_eq_true, beq_iff_eq] at h
          rw [h.1.1, Json.eq_of_same h.1.2, eq_of_sameFields h.2]

end

/-- Whether `Reflect.parse` has returned a value. -/
def ReflectResult.isTree (r : ReflectResult) (j : Json) : Bool :=
  match r with
  | .tree j' => j'.same j
  | _ => false

theorem ReflectResult.of_isTree {r : ReflectResult} {j : Json} (h : r.isTree j = true) :
    r = .tree j := by
  cases r with
  | tree j' => rw [Json.eq_of_same h]
  | _ => cases h

end HammerJS
