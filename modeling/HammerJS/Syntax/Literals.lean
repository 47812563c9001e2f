import HammerJS.Syntax.Conversion

/-!
# The literals of a program

Which literals of a source are found in the value of `Reflect.parse`.

* `Json.collect` — what is found in a value, in the order of the fields.
* `Json.literals`, `Lexeme.literal` — the literals of a value, and of a source.
* `Phrase.literals` — those of the value are among those of the source, in order.
-/

namespace HammerJS

/-! ## Walking over a value -/

section Collect

variable {α : Type} (f : ObjectType → List (Field × Json) → List α)

mutual

/-- What `f` finds in the objects of a value, an object before its fields. -/
def Json.collect : Json → List α
  | .array elements => collectList elements
  | .object type fields => f type fields ++ collectFields fields
  | _ => []

/-- The same, for the elements of an array. -/
def collectList : List Json → List α
  | [] => []
  | j :: js => j.collect ++ collectList js

/-- The same, for the fields of an object. -/
def collectFields : List (Field × Json) → List α
  | [] => []
  | (_, j) :: fields => j.collect ++ collectFields fields

end

-- also has the equations of the definitions made here, once for all that rewrite with them
attribute [local simp] Json.collect collectList collectFields

@[simp] theorem collect_undefined : Json.undefined.collect f = [] := by simp [Json.collect]

@[simp] theorem collect_null : Json.null.collect f = [] := by simp [Json.collect]

@[simp] theorem collect_boolean (b : Bool) : (Json.boolean b).collect f = [] := by
  simp [Json.collect]

@[simp] theorem collect_integer (n : Int) : (Json.integer n).collect f = [] := by
  simp [Json.collect]

@[simp] theorem collect_string (s : Identifier) : (Json.string s).collect f = [] := by
  simp [Json.collect]

@[simp] theorem collect_text (s : String) : (Json.text s).collect f = [] := by
  simp [Json.collect]

@[simp] theorem collect_array (js : List Json) :
    (Json.array js).collect f = collectList f js := by simp [Json.collect]

@[simp] theorem collect_object (type : ObjectType) (fields : List (Field × Json)) :
    (Json.object type fields).collect f = f type fields ++ collectFields f fields := by
  simp [Json.collect]

@[simp] theorem collectList_nil : collectList f [] = [] := by simp [collectList]

@[simp] theorem collectList_cons (j : Json) (js : List Json) :
    collectList f (j :: js) = j.collect f ++ collectList f js := by simp [collectList]

@[simp] theorem collectFields_nil : collectFields f [] = [] := by simp [collectFields]

@[simp] theorem collectFields_cons (field : Field × Json) (fields : List (Field × Json)) :
    collectFields f (field :: fields) = field.2.collect f ++ collectFields f fields := by
  obtain ⟨_, j⟩ := field
  simp [collectFields]

@[simp] theorem collectList_append (js js' : List Json) :
    collectList f (js ++ js') = collectList f js ++ collectList f js' := by
  induction js with
  | nil => simp
  | cons j js ih => simp [ih]

end Collect

/-! ## Literals -/

/-- A literal other than `null`, `true` and `false`: its `objtype` and its `value`. -/
abbrev Literal := String × Json

/-- The literal that an object is. -/
def literalOf : ObjectType → List (Field × Json) → List Literal
  | .literal, [(.objtype, .text objtype), (.value, .string s)] => [(objtype, .string s)]
  | .literal, [(.objtype, .text objtype), (.value, .integer n)] => [(objtype, .integer n)]
  | _, _ => []

/-- The literals in a value. -/
def Json.literals (j : Json) : List Literal := j.collect literalOf

/-- The literal that a token is, as it is converted. -/
def Lexeme.literal [Platform] : Lexeme → Option Literal
  | .string value => some ("String", .string value)
  | .number value => some ("Number", .integer (narrowToInt value))
  | .regExp _ pattern flags => some ("RegEx", .string (regExpText pattern flags))
  | _ => none

/-- The values of a category. -/
def Category.all : (c : Category) → c.Value → List Json
  | .expr, j | .prop, j | .stmt, j | .opt, j | .handler, j | .finalizer, j => [j]
  | .exprs, js | .args, js | .elements, js | .props, js | .stmts, js | .clauses, js
  | .decls, js => js
  | .init, j => j.toList
  | .default, js => js.getD []

theorem literalOf_of_ne {type : ObjectType} {fields : List (Field × Json)}
    (h : type ≠ .literal) : literalOf type fields = [] := by
  unfold literalOf
  split
  · exact absurd rfl h
  · exact absurd rfl h
  · rfl

/-- The literals of some tokens. -/
def literalsOf [Platform] (ls : List Lexeme) : List Literal := ls.filterMap Lexeme.literal

section Tokens

variable [Platform]

@[simp] theorem literalsOf_nil : literalsOf [] = [] := rfl

@[simp] theorem literalsOf_cons (l : Lexeme) (ls : List Lexeme) :
    literalsOf (l :: ls) = l.literal.toList ++ literalsOf ls := by
  cases h : l.literal <;> simp [literalsOf, h]

@[simp] theorem literalsOf_append (ls ls' : List Lexeme) :
    literalsOf (ls ++ ls') = literalsOf ls ++ literalsOf ls' := List.filterMap_append

@[simp] theorem literal_mark (t : JSTokenType) : (Lexeme.mark t).literal = none := rfl

@[simp] theorem literal_ident (name : Identifier) : (Lexeme.ident name).literal = none := rfl

@[simp] theorem literalsOf_semi (semi : Bool) : literalsOf (semiLexemes semi) = [] := by
  cases semi <;> rfl

@[simp] theorem literalsOf_label (label : Option Identifier) :
    literalsOf (labelLexemes label) = [] := by
  cases label <;> rfl

@[simp] theorem literalsOf_elisions (elisions : Nat) :
    literalsOf (elisionLexemes elisions) = [] := by
  simp [literalsOf, elisionLexemes]

@[simp] theorem literalsOf_params (params : List Identifier) :
    literalsOf (paramLexemes params) = [] := by
  fun_induction paramLexemes params <;> simp_all

@[simp] theorem literalsOf_function (name : Option Identifier) (params : List Identifier)
    (body : List Lexeme) : literalsOf (functionLexemes name params body) = literalsOf body := by
  simp [functionLexemes]

end Tokens

/-! ## Literals of values -/

/-- The literals of some values. -/
def literalsIn (js : List Json) : List Literal := collectList literalOf js

@[simp] theorem literalsIn_nil : literalsIn [] = [] := by simp [literalsIn]

@[simp] theorem literalsIn_cons (j : Json) (js : List Json) :
    literalsIn (j :: js) = j.literals ++ literalsIn js := by simp [literalsIn, Json.literals]

@[simp] theorem literalsIn_append (js js' : List Json) :
    literalsIn (js ++ js') = literalsIn js ++ literalsIn js' := by simp [literalsIn]

@[simp] theorem literals_undefined : Json.undefined.literals = [] := by simp [Json.literals]

@[simp] theorem literals_null : Json.null.literals = [] := by simp [Json.literals]

@[simp] theorem literals_boolean (b : Bool) : (Json.boolean b).literals = [] := by
  simp [Json.literals]

@[simp] theorem literals_string (s : Identifier) : (Json.string s).literals = [] := by
  simp [Json.literals]

@[simp] theorem literals_text (s : String) : (Json.text s).literals = [] := by
  simp [Json.literals]

@[simp] theorem literals_array (js : List Json) : (Json.array js).literals = literalsIn js := by
  simp [Json.literals, literalsIn]

/-- An object that is no literal. -/
@[simp] theorem literals_object {type : ObjectType} {fields : List (Field × Json)}
    (h : type ≠ .literal) :
    (Json.object type fields).literals = literalsIn (fields.map Prod.snd) := by
  have hfields : collectFields literalOf fields = collectList literalOf (fields.map Prod.snd) := by
    clear h
    induction fields with
    | nil => simp
    | cons field fields ih => simp [ih]
  rw [Json.literals, collect_object, literalOf_of_ne h, List.nil_append, hfields, literalsIn]

@[simp] theorem literals_identifier (name : Identifier) : (identifierObject name).literals = [] := by
  simp [identifierObject]

@[simp] theorem literals_nameOrNull (name : Identifier) : (nameOrNull name).literals = [] := by
  unfold nameOrNull
  split <;> simp

@[simp] theorem literals_operatorText (op : OperatorType) : (operatorText op).literals = [] := by
  simp [operatorText]

@[simp] theorem literals_block (body : List Json) :
    (blockValue body).literals = literalsIn body := by simp [blockValue]

@[simp] theorem literalsIn_identifiers (names : List Identifier) :
    literalsIn (names.map identifierObject) = [] := by
  induction names with
  | nil => simp
  | cons name names ih => simp [ih]

@[simp] theorem literals_function (name : Identifier) (params : List Identifier)
    (body : List Json) : (functionValue name params body).literals = literalsIn body := by
  simp [functionValue]

@[simp] theorem literals_unary (op : OperatorType) (j : Json) :
    (unaryValue op j).literals = j.literals := by simp [unaryValue]

@[simp] theorem literals_update (op : OperatorType) (isPrefix : Bool) (j : Json) :
    (updateValue op isPrefix j).literals = j.literals := by simp [updateValue]

/-- The operand of `void` is lost. -/
theorem literals_prefix (t : JSTokenType) (j : Json) :
    (prefixValue t j).literals = if t = .voidToken then [] else j.literals := by
  cases t <;> simp [prefixValue]

@[simp] theorem literals_binary {type : ObjectType} (h : type ≠ .literal) (op : OperatorType)
    (left right : Json) :
    (binaryValue type op left right).literals = left.literals ++ right.literals := by
  simp [binaryValue, h]

@[simp] theorem literals_declaration (name : Identifier) (init : Option Json) :
    (declarationValue name init).literals = literalsIn init.toList := by
  cases init <;> simp [declarationValue]

@[simp] theorem literals_declarations (first : Json) (rest : List Json) :
    (declarationsValue first rest).literals = first.literals ++ literalsIn rest := by
  cases rest <;> simp [declarationsValue]

@[simp] theorem literals_case (test : Json) (body : List Json) :
    (caseValue test body).literals = test.literals ++ literalsIn body := by simp [caseValue]

@[simp] theorem literals_cases (clauses : List Json) (default : Option (List Json)) :
    literalsIn ((casesFields clauses default).map Prod.snd) =
      literalsIn clauses ++ literalsIn (default.getD []) := by
  cases clauses <;> cases default <;> simp [casesFields]

/-- The initializer is lost. -/
@[simp] theorem literals_forInVar (name : Identifier) (init : Option Json) (right body : Json) :
    (forInVarValue name init right body).literals = right.literals ++ body.literals := by
  cases init <;> simp [forInVarValue]

theorem literals_literal_string (objtype : String) (s : Identifier) :
    (literalValue objtype (.string s)).literals = [(objtype, .string s)] := by
  simp [literalValue, Json.literals, literalOf]

theorem literals_literal_number (objtype : String) (n : Int) :
    (literalValue objtype (.integer n)).literals = [(objtype, .integer n)] := by
  simp [literalValue, Json.literals, literalOf]

/-- **The literals of the value of a phrase are among its own**, and in the same order. -/
theorem Phrase.literals [Platform] {c : Category} (p : Phrase c) :
    (literalsIn (c.all p.value)).Sublist (literalsOf p.lexemes) := by
  induction p with
  | string | regExp =>
      simp only [Category.all, value, literalsIn_cons, literals_literal_string]
      exact .refl _
  | number =>
      simp only [Category.all, value, literalsIn_cons, literals_literal_number]
      exact .refl _
  | null | boolean => simp [Category.all, value, literalValue, Json.literals, literalOf]
  | unary op e ih =>
      simp only [Category.all, value, lexemes, literalsIn_cons, literals_prefix] at ih ⊢
      split
      · simp
      · simpa using ih
  | forIn left right body _ hright hbody | forInVar _ left right body _ hright hbody =>
      simpa [Category.all, value, lexemes] using
        (hright.append hbody).trans (List.sublist_append_right (literalsOf left.lexemes) _)
  | switch discriminant first default second hdiscriminant hfirst hdefault _ =>
      simpa [Category.all, value, lexemes] using hdiscriminant.append
        (hfirst.append (hdefault.trans (List.sublist_append_left _ (literalsOf second.lexemes))))
  -- one part
  | paren _ ih | function _ _ _ ih | functionDecl _ _ _ ih | dot _ _ ih | newNoArgs _ ih
  | postOp _ _ ih | prop _ _ _ ih | numericProp _ _ ih | present _ ih | initializer _ ih
  | block _ ih | «return» _ _ ih | throw _ _ ih | exprStmt _ _ ih | defaultClause _ ih
  | «catch» _ _ ih | «finally» _ ih =>
      simpa [Category.all, value, lexemes, Lexeme.literal] using ih
  -- two parts
  | array _ _ _ ih ih' | object _ _ ih ih' | bracket _ _ ih ih' | call _ _ ih ih'
  | newArgs _ _ ih ih' | binary _ _ _ ih ih' | assign _ _ _ ih ih' | moreExprs _ _ ih ih'
  | arguments _ _ ih ih' | moreElements _ _ _ ih ih' | moreProps _ _ ih ih' | ifThen _ _ ih ih'
  | doWhile _ _ _ ih ih' | «while» _ _ ih ih' | «with» _ _ ih ih' | moreStmts _ _ ih ih'
  | varDecl _ _ _ _ ih ih' | moreDecls _ _ _ ih ih' =>
      simpa [Category.all, value, lexemes] using ih.append ih'
  -- three parts
  | cond _ _ _ ih ih' ih'' | comma _ _ _ ih ih' ih'' | ifElse _ _ _ ih ih' ih''
  | «try» _ _ _ ih ih' ih'' | moreClauses _ _ _ ih ih' ih'' =>
      simpa [Category.all, value, lexemes] using ih.append (ih'.append ih'')
  | «for» _ _ _ _ hinit htest hupdate hbody =>
      simpa [Category.all, value, lexemes] using
        hinit.append (htest.append (hupdate.append hbody))
  | forVar _ _ _ _ _ _ _ _ hinit hrest htest hupdate hbody =>
      simpa [Category.all, value, lexemes, Lexeme.literal] using
        hinit.append (hrest.append (htest.append (hupdate.append hbody)))
  -- no part, or none that comes into the value
  | _ => simp [Category.all, value, lexemes]

end HammerJS
