import HammerJS.Syntax.Literals

/-!
# The shape of a value

Which values of `Reflect.parse` are syntax trees: what the fields of the objects in them hold.

* `slots` — the fields of each type of object, and what may stand there.
* `Json.WellFormed` — every object of a value has them.
* `Phrase.Malformed` — the phrases whose values do not.
* `Phrase.fits_iff` — a value is well-formed exactly where no phrase is malformed.
-/

namespace HammerJS

/-! ## Shapes -/

/-- The types of expressions. -/
def ObjectType.isExpression : ObjectType → Bool
  | .arrayExpression | .assignmentExpression | .binaryExpression | .callExpression
  | .conditionalExpression | .functionExpression | .identifier | .literal | .memberExpression
  | .newExpression | .objectExpression | .sequenceExpression | .thisExpression
  | .unaryExpression | .updateExpression => true
  | _ => false

/-- The types of statements; a declaration of a function has the type of an expression. -/
def ObjectType.isStatement : ObjectType → Bool
  | .blockStatement | .breakStatement | .continueStatement | .debuggerStatement
  | .doWhileStatement | .emptyStatement | .expressionStatement | .forInStatement | .forStatement
  | .functionExpression | .ifStatement | .returnStatement | .switchStatement | .throwStatement
  | .tryStatement | .variableDeclaration | .whileStatement | .withStatement => true
  | _ => false

/-- What stands in a field. -/
inductive Kind where
  | expression | statement | property | clause | identifier | block
  /-- The left side of a `for`-`in` loop. -/
  | target
  /-- A declared variable. -/
  | declarator

/-- The types of object that a field may hold. -/
def Kind.admits : Kind → ObjectType → Bool
  | .expression, type => type.isExpression
  | .statement, type => type.isStatement
  | .property, type => type == .property
  | .clause, type => type == .switchCase
  | .identifier, type => type == .identifier
  | .block, type => type == .blockStatement
  | .target, type => type.isExpression || type == .variableDeclaration
  | .declarator, type => type.isExpression || type == .variableDeclarator

/-- The value is an object that the field may hold. -/
def Json.Is (kind : Kind) : Json → Prop
  | .object type _ => kind.admits type = true
  | _ => False

/-- What stands in a field that holds no object. -/
inductive Datum where
  /-- A word of the converter's own: an operator, the type of a literal or of an access. -/
  | text
  | name
  /-- The label of a statement, or the name of a function. -/
  | nameOrNull
  | boolean
  /-- The value of a literal, `null` itself included. -/
  | value

/-- The values that the field may hold. -/
def Datum.Admits : Datum → Json → Prop
  | .text, .text _
  | .name, .string _
  | .nameOrNull, .string _ | .nameOrNull, .null
  | .boolean, .boolean _
  | .value, .string _ | .value, .integer _ | .value, .boolean _ | .value, .null => True
  | _, _ => False

/-- How a field holds something: a name or the like, an object, one or null, objects in an
array, or in an array that is left out where it would be empty. -/
inductive Slot where
  | datum (kind : Datum)
  | one (kind : Kind)
  | optional (kind : Kind)
  | list (kind : Kind)
  | listIfAny (kind : Kind)

/-- What stands in a field, or that nothing does, is as it should be. -/
def Slot.Holds : Slot → Option Json → Prop
  | .datum kind, some j => kind.Admits j
  | .one kind, some j => j.Is kind
  | .optional kind, some j => j = .null ∨ j.Is kind
  | .list kind, some (.array js) | .listIfAny kind, some (.array js) => ∀ j ∈ js, j.Is kind
  | .listIfAny _, none => True
  | _, _ => False

/-- The fields of an object, and how they hold what. -/
def slots : ObjectType → List (Field × Slot)
  | .arrayExpression => [(.elements, .list .expression)]
  | .assignmentExpression | .binaryExpression =>
      [(.operator, .datum .text), (.left, .one .expression), (.right, .one .expression)]
  | .blockStatement | .program => [(.body, .list .statement)]
  | .breakStatement | .continueStatement => [(.label, .datum .nameOrNull)]
  | .callExpression | .newExpression =>
      [(.callee, .one .expression), (.arguments, .list .expression)]
  | .conditionalExpression =>
      [(.test, .one .expression), (.consequent, .one .expression), (.alternate, .one .expression)]
  | .doWhileStatement => [(.body, .one .statement), (.test, .one .expression)]
  | .expressionStatement => [(.expression, .one .expression)]
  | .forInStatement =>
      [(.left, .one .target), (.right, .one .expression), (.body, .one .statement),
        (.each, .datum .boolean)]
  | .forStatement =>
      [(.init, .optional .target), (.test, .optional .expression), (.update, .optional .expression),
        (.body, .one .statement)]
  | .functionExpression =>
      [(.id, .datum .nameOrNull), (.params, .list .identifier), (.body, .one .block)]
  | .identifier => [(.name, .datum .name)]
  | .ifStatement =>
      [(.test, .one .expression), (.consequent, .one .statement), (.alternate, .optional .statement)]
  | .literal => [(.objtype, .datum .text), (.value, .datum .value)]
  | .memberExpression =>
      [(.accesstype, .datum .text), (.object, .one .expression), (.property, .one .expression)]
  | .objectExpression => [(.properties, .list .property)]
  | .property => [(.key, .one .identifier), (.value, .one .expression)]
  | .returnStatement => [(.argument, .optional .expression)]
  | .sequenceExpression => [(.expressions, .list .expression)]
  | .switchCase => [(.test, .optional .expression), (.consequent, .list .statement)]
  | .switchStatement => [(.discriminant, .one .expression), (.cases, .listIfAny .clause)]
  | .throwStatement => [(.argument, .one .expression)]
  | .tryStatement =>
      [(.block, .one .block), (.handler, .optional .statement), (.finalizer, .optional .block)]
  | .unaryExpression => [(.operator, .datum .text), (.argument, .one .expression)]
  | .updateExpression =>
      [(.operator, .datum .text), (.argument, .one .expression), (.isPrefix, .datum .boolean)]
  | .variableDeclaration => [(.declarations, .list .declarator)]
  | .variableDeclarator => [(.id, .one .identifier), (.init, .optional .expression)]
  | .whileStatement => [(.test, .one .expression), (.body, .one .statement)]
  | .withStatement => [(.object, .one .expression), (.body, .one .statement)]
  | .debuggerStatement | .emptyStatement | .thisExpression => []

section

-- only to have the equations of the definitions made here, once for all that rewrite with them
attribute [local simp] ObjectType.isExpression ObjectType.isStatement Kind.admits slots

end

/-- The fields of an object hold what they should. -/
def Meets (type : ObjectType) (fields : List (Field × Json)) : Prop :=
  ∀ slot ∈ slots type, slot.2.Holds (fields.lookup slot.1)

/-- The objects in a value, with their fields. -/
def Json.objects (j : Json) : List (ObjectType × List (Field × Json)) :=
  j.collect fun type fields => [(type, fields)]

/-- The value is a syntax tree: every object in it has the fields that belong to its type. -/
def Json.WellFormed (j : Json) : Prop := ∀ object ∈ j.objects, Meets object.1 object.2

/-! ## Shapes of objects -/

section Objects

@[simp] theorem wellFormed_null : Json.null.WellFormed := by simp [Json.WellFormed, Json.objects]

@[simp] theorem wellFormed_text (s : String) : (Json.text s).WellFormed := by
  simp [Json.WellFormed, Json.objects]

@[simp] theorem wellFormed_string (s : Identifier) : (Json.string s).WellFormed := by
  simp [Json.WellFormed, Json.objects]

@[simp] theorem wellFormed_integer (n : Int) : (Json.integer n).WellFormed := by
  simp [Json.WellFormed, Json.objects]

@[simp] theorem wellFormed_boolean (b : Bool) : (Json.boolean b).WellFormed := by
  simp [Json.WellFormed, Json.objects]

@[simp] theorem wellFormed_array (js : List Json) :
    (Json.array js).WellFormed ↔ ∀ j ∈ js, j.WellFormed := by
  induction js with
  | nil => simp [Json.WellFormed, Json.objects]
  | cons j js ih =>
      simp only [Json.WellFormed, Json.objects, collect_array, collectList_cons,
        List.forall_mem_append, List.forall_mem_cons] at ih ⊢
      rw [ih]

@[simp] theorem wellFormed_object (type : ObjectType) (fields : List (Field × Json)) :
    (Json.object type fields).WellFormed ↔
      Meets type fields ∧ ∀ field ∈ fields, field.2.WellFormed := by
  have hfields : (∀ object ∈ collectFields (fun type fields => [(type, fields)]) fields,
      Meets object.1 object.2) ↔ ∀ field ∈ fields, field.2.WellFormed := by
    induction fields with
    | nil => simp
    | cons field fields ih =>
        simp only [collectFields_cons, List.forall_mem_append, List.forall_mem_cons, ih]
        rfl
  simp only [Json.WellFormed, Json.objects, collect_object, List.forall_mem_append,
    List.forall_mem_singleton, hfields]

/-- A value of some kind, with all its parts. -/
def Json.Fits (kind : Kind) (j : Json) : Prop := j.Is kind ∧ j.WellFormed

/-- What a field holds, with all its parts. -/
def Slot.Fits (slot : Slot) (j : Json) : Prop := slot.Holds (some j) ∧ j.WellFormed

@[simp] theorem slot_datum (kind : Datum) (j : Json) :
    (Slot.datum kind).Fits j ↔ kind.Admits j := by
  refine ⟨fun h => h.1, fun h => ⟨h, ?_⟩⟩
  cases j with
  | undefined | array | object => cases kind <;> exact h.elim
  | _ => simp

@[simp] theorem slot_one (kind : Kind) (j : Json) : (Slot.one kind).Fits j ↔ j.Fits kind := Iff.rfl

@[simp] theorem slot_optional (kind : Kind) (j : Json) :
    (Slot.optional kind).Fits j ↔ j = .null ∨ j.Fits kind := by
  constructor
  · rintro ⟨rfl | his, hparts⟩
    · exact Or.inl rfl
    · exact Or.inr ⟨his, hparts⟩
  · rintro (rfl | ⟨his, hparts⟩)
    · exact ⟨Or.inl rfl, wellFormed_null⟩
    · exact ⟨Or.inr his, hparts⟩

@[simp] theorem slot_list (kind : Kind) (js : List Json) :
    (Slot.list kind).Fits (.array js) ↔ ∀ j ∈ js, j.Fits kind := by
  simp only [Slot.Fits, Slot.Holds, wellFormed_array, Json.Fits, forall_and]

@[simp] theorem slot_listIfAny (kind : Kind) (js : List Json) :
    (Slot.listIfAny kind).Fits (.array js) ↔ ∀ j ∈ js, j.Fits kind := by
  simp only [Slot.Fits, Slot.Holds, wellFormed_array, Json.Fits, forall_and]

theorem slots_nodup (type : ObjectType) : ((slots type).map Prod.fst).Nodup := by
  cases type <;> decide

/-- Fields in the order of their slots. -/
theorem forall_slots {expected : List (Field × Slot)} {fields : List (Field × Json)}
    (hnodup : (expected.map Prod.fst).Nodup) (hkeys : fields.map Prod.fst = expected.map Prod.fst) :
    ((∀ slot ∈ expected, slot.2.Holds (fields.lookup slot.1)) ∧
        ∀ field ∈ fields, field.2.WellFormed) ↔
      List.Forall₂ (fun slot field => slot.2.Fits field.2) expected fields := by
  induction expected generalizing fields with
  | nil =>
      have hnil : fields = [] := List.map_eq_nil_iff.mp hkeys
      simp [hnil]
  | cons slot expected ih =>
      cases fields with
      | nil => cases hkeys
      | cons field fields =>
          obtain ⟨f, slot⟩ := slot
          obtain ⟨f', j⟩ := field
          obtain ⟨hf, htail⟩ := List.cons.inj hkeys
          have hf : f' = f := hf
          subst hf
          obtain ⟨hnot, hnodup⟩ := List.nodup_cons.mp hnodup
          have hlookup : ∀ slot ∈ expected,
              ((f', j) :: fields).lookup slot.1 = fields.lookup slot.1 := by
            intro slot hslot
            have hne : (slot.1 == f') = false := by
              rw [beq_eq_false_iff_ne]
              intro heq
              exact hnot (List.mem_map.mpr ⟨slot, hslot, heq⟩)
            simp [List.lookup, hne]
          have hfirst : ((f', j) :: fields).lookup f' = some j := by simp [List.lookup]
          have hrest : (∀ slot ∈ expected, slot.2.Holds (((f', j) :: fields).lookup slot.1)) ↔
              ∀ slot ∈ expected, slot.2.Holds (fields.lookup slot.1) :=
            forall₂_congr fun slot hslot => by rw [hlookup slot hslot]
          rw [List.forall₂_cons, ← ih hnodup htail, List.forall_mem_cons, List.forall_mem_cons]
          simp only [Slot.Fits, hfirst, hrest]
          tauto

/-- An object whose fields are those of its type. -/
theorem wellFormed_slots {type : ObjectType} {fields : List (Field × Json)}
    (hkeys : fields.map Prod.fst = (slots type).map Prod.fst) :
    (Json.object type fields).WellFormed ↔
      List.Forall₂ (fun slot field => slot.2.Fits field.2) (slots type) fields := by
  rw [← forall_slots (slots_nodup type) hkeys, wellFormed_object]
  rfl

theorem fits_object {kind : Kind} {type : ObjectType} {fields : List (Field × Json)}
    (hkeys : fields.map Prod.fst = (slots type).map Prod.fst) :
    (Json.object type fields).Fits kind ↔ kind.admits type = true ∧
      List.Forall₂ (fun slot field => slot.2.Fits field.2) (slots type) fields := by
  rw [← wellFormed_slots hkeys]
  rfl

@[simp] theorem is_object (kind : Kind) (type : ObjectType) (fields : List (Field × Json)) :
    (Json.object type fields).Is kind ↔ kind.admits type = true := Iff.rfl

@[simp] theorem not_fits_null (kind : Kind) : ¬ Json.null.Fits kind := fun h => h.1

@[simp] theorem not_fits_undefined (kind : Kind) : ¬ Json.undefined.Fits kind := fun h => h.1

@[simp] theorem text_admits (s : String) : Datum.text.Admits (.text s) := trivial

@[simp] theorem text_admits_operator (op : OperatorType) : Datum.text.Admits (operatorText op) :=
  trivial

@[simp] theorem name_admits (s : Identifier) : Datum.name.Admits (.string s) := trivial

@[simp] theorem nameOrNull_admits (name : Identifier) :
    Datum.nameOrNull.Admits (nameOrNull name) := by
  unfold nameOrNull
  split <;> trivial

@[simp] theorem boolean_admits (b : Bool) : Datum.boolean.Admits (.boolean b) := trivial

@[simp] theorem value_admits_string (s : Identifier) : Datum.value.Admits (.string s) := trivial

@[simp] theorem value_admits_integer (n : Int) : Datum.value.Admits (.integer n) := trivial

@[simp] theorem value_admits_boolean (b : Bool) : Datum.value.Admits (.boolean b) := trivial

@[simp] theorem value_admits_null : Datum.value.Admits .null := trivial

@[simp] theorem fits_identifier (kind : Kind) (name : Identifier) :
    (identifierObject name).Fits kind ↔ kind.admits .identifier = true := by
  simp [identifierObject, fits_object, slots]

@[simp] theorem fits_block (kind : Kind) (body : List Json) :
    (blockValue body).Fits kind ↔
      kind.admits .blockStatement = true ∧ ∀ j ∈ body, j.Fits .statement := by
  simp [blockValue, fits_object, slots]

@[simp] theorem fits_literal (kind : Kind) (objtype : String) (j : Json) :
    (literalValue objtype j).Fits kind ↔ kind.admits .literal = true ∧ Datum.value.Admits j := by
  simp [literalValue, fits_object, slots]

@[simp] theorem fits_function (kind : Kind) (name : Identifier) (params : List Identifier)
    (body : List Json) : (functionValue name params body).Fits kind ↔
      kind.admits .functionExpression = true ∧ ∀ j ∈ body, j.Fits .statement := by
  simp [functionValue, fits_object, slots, Kind.admits]

/-- The operand of `void` is lost. -/
@[simp] theorem fits_prefix (t : JSTokenType) (j : Json) :
    (prefixValue t j).Fits .expression ↔ t ≠ .voidToken ∧ j.Fits .expression := by
  cases t <;> simp [prefixValue, unaryValue, updateValue, fits_object, slots, Kind.admits,
    ObjectType.isExpression]

@[simp] theorem fits_update (op : OperatorType) (isPrefix : Bool) (j : Json) :
    (updateValue op isPrefix j).Fits .expression ↔ j.Fits .expression := by
  simp [updateValue, fits_object, slots, Kind.admits, ObjectType.isExpression]

@[simp] theorem fits_binary (op : OperatorType) (left right : Json) :
    (binaryValue .binaryExpression op left right).Fits .expression ↔
      left.Fits .expression ∧ right.Fits .expression := by
  simp [binaryValue, fits_object, slots, Kind.admits, ObjectType.isExpression]

@[simp] theorem fits_assignment (op : OperatorType) (left right : Json) :
    (binaryValue .assignmentExpression op left right).Fits .expression ↔
      left.Fits .expression ∧ right.Fits .expression := by
  simp [binaryValue, fits_object, slots, Kind.admits, ObjectType.isExpression]

@[simp] theorem fits_declaration (name : Identifier) (init : Option Json) :
    (declarationValue name init).Fits .expression ↔ ∀ j ∈ init, j.Fits .expression := by
  cases init <;> simp [declarationValue, Kind.admits, ObjectType.isExpression]

@[simp] theorem fits_declarations (first : Json) (rest : List Json) :
    (declarationsValue first rest).Fits .expression ↔
      first.Fits .expression ∧ ∀ j ∈ rest, j.Fits .expression := by
  cases rest <;>
    simp [declarationsValue, fits_object, slots, Kind.admits, ObjectType.isExpression]

@[simp] theorem fits_case (test : Json) (body : List Json) :
    (caseValue test body).Fits .clause ↔
      (test = .null ∨ test.Fits .expression) ∧ ∀ j ∈ body, j.Fits .statement := by
  simp [caseValue, fits_object, slots, Kind.admits, ObjectType.isStatement]

/-- The value is an object that declares no variable. -/
def Json.IsNoDeclaration (j : Json) : Prop :=
  ∃ type fields, j = .object type fields ∧ type ≠ .variableDeclaration ∧ type ≠ .variableDeclarator

theorem Json.IsNoDeclaration.kinds {j : Json} (h : j.IsNoDeclaration) : j ≠ .null ∧
    (j.Fits .target ↔ j.Fits .expression) ∧ (j.Fits .declarator ↔ j.Fits .expression) := by
  obtain ⟨type, fields, rfl, hdeclaration, hdeclarator⟩ := h
  simp [Json.Fits, Kind.admits, hdeclaration, hdeclarator]

theorem declarations_isNoDeclaration (name : Identifier) (init : Option Json) (rest : List Json) :
    (declarationsValue (declarationValue name init) rest).IsNoDeclaration := by
  cases rest with
  | nil => cases init <;> exact ⟨_, _, rfl, by decide, by decide⟩
  | cons second rest => exact ⟨_, _, rfl, by decide, by decide⟩

/-- A loop over the properties of an object has a left side only where it declares a variable
without an initializer. -/
theorem fits_forInVar (name : Identifier) (init : Option Json) (right body : Json) :
    (forInVarValue name init right body).Fits .statement ↔
      init = none ∧ right.Fits .expression ∧ body.Fits .statement := by
  cases init with
  | none =>
      simp [forInVarValue, fits_object, slots, Kind.admits, ObjectType.isExpression,
        ObjectType.isStatement]
  | some init =>
      have hleft : ¬ (forInVarValue name (some init) right body).Fits .statement := by
        rintro ⟨-, h⟩
        exact ((wellFormed_object _ _).mp h).1 (.left, .one .target) (by simp [slots])
      simp [hleft]

theorem not_fits_forIn (right body : Json) :
    ¬ (Json.object .forInStatement
      [(.right, right), (.body, body), (.each, .boolean false)]).Fits .statement := by
  rintro ⟨-, h⟩
  exact ((wellFormed_object _ _).mp h).1 (.left, .one .target) (by simp [slots])

/-- The cases of a `switch` are as they should be unless a default clause comes first. -/
theorem fits_switch (discriminant : Json) (clauses : List Json) (default : Option (List Json)) :
    (Json.object .switchStatement
      ((.discriminant, discriminant) :: casesFields clauses default)).Fits .statement ↔
      (clauses = [] → default = none) ∧ discriminant.Fits .expression ∧
        (∀ j ∈ clauses, j.Fits .clause) ∧ ∀ js ∈ default, ∀ j ∈ js, j.Fits .statement := by
  cases clauses with
  | nil =>
      cases default with
      | none =>
          simp [casesFields, Json.Fits, Kind.admits, ObjectType.isStatement, Meets, slots,
            List.lookup, Slot.Holds]
          exact fun _ _ => trivial
      | some body => simp [casesFields, fits_object, slots]
  | cons clause clauses =>
      cases default with
      | none => simp [casesFields, fits_object, slots, Kind.admits, ObjectType.isStatement]
      | some body =>
          simp [casesFields, fits_object, slots, Kind.admits, ObjectType.isStatement, or_imp,
            forall_and, and_assoc]

end Objects

/-! ## Shapes of phrases -/

/-- What the values of a category should be. -/
def Category.Fits : (c : Category) → c.Value → Prop
  | .expr, j => j.Fits .expression
  | .prop, j => j.Fits .property
  | .stmt, j => j.Fits .statement
  | .opt, j => j = .null ∨ j.Fits .expression
  | .handler, j | .finalizer, j => j = .null ∨ j.Fits .block
  | .exprs, js | .args, js | .elements, js | .decls, js => ∀ j ∈ js, j.Fits .expression
  | .props, js => ∀ j ∈ js, j.Fits .property
  | .stmts, js => ∀ j ∈ js, j.Fits .statement
  | .clauses, js => ∀ j ∈ js, j.Fits .clause
  | .init, value => ∀ j ∈ (value : Option Json), j.Fits .expression
  | .default, value => ∀ js ∈ (value : Option (List Json)), ∀ j ∈ js, j.Fits .statement

namespace Phrase

/-- The value of the phrase is no syntax tree, whatever those of its parts are: a labelled
statement is undefined, `new` without arguments is a statement, a `for`-`in` loop lacks its left
side unless that is a variable without an initializer, `void` lacks its operand, and a default
clause that comes first is taken apart. -/
def Malformed : {c : Category} → Phrase c → Prop
  | _, labelled _ _ | _, newNoArgs _ | _, forIn _ _ _ => True
  | _, forInVar _ init _ _ => init ≠ .noInit
  | _, unary op _ => op.1 = .voidToken
  | _, switch _ first default _ => first = .noClauses ∧ default ≠ .noDefault
  | _, _ => False

/-- The parts of a phrase that come into its value: the clauses behind a default clause do not. -/
def keptChildren : {c : Category} → Phrase c → List ((c : Category) × Phrase c)
  | _, switch discriminant first default _ =>
      [⟨_, discriminant⟩, ⟨_, first⟩, ⟨_, default⟩]
  | _, p => p.children

theorem keptChildren_subset {c : Category} (p : Phrase c) : p.keptChildren ⊆ p.children := by
  cases p with
  | switch discriminant first default second => simp [keptChildren, children]
  | _ => exact List.Subset.refl _

/-- The first phrase occurs in the second, and comes into its value. -/
inductive KeptIn : {c c' : Category} → Phrase c → Phrase c' → Prop
  | refl {c : Category} (p : Phrase c) : KeptIn p p
  | child {c c' c'' : Category} {p : Phrase c} {q : Phrase c'} {whole : Phrase c''}
      (hq : ⟨c', q⟩ ∈ whole.keptChildren) (h : KeptIn p q) : KeptIn p whole

end Phrase

section Phrases

variable [Platform]

/-- The value of an expression declares no variable. -/
theorem Phrase.value_isNoDeclaration (e : Phrase .expr) : (e.value : Json).IsNoDeclaration := by
  cases e with
  | paren e => exact e.value_isNoDeclaration
  | unary op e =>
      obtain ⟨t, ht⟩ := op
      cases t <;> exact ⟨_, _, rfl, by decide, by decide⟩
  | _ => exact ⟨_, _, rfl, by decide, by decide⟩

theorem Phrase.stmt_value_ne_null (p : Phrase .stmt) : (p.value : Json) ≠ .null := by
  cases p with
  | forInVar name init right body => cases init <;> simp [value, forInVarValue]
  | _ => simp [value, blockValue, functionValue]

/-- A value is of the right shape exactly if its phrase is not malformed and those of the parts
are. -/
theorem Phrase.fits_iff_children {c : Category} (p : Phrase c) :
    c.Fits p.value ↔ ¬ p.Malformed ∧ ∀ q ∈ p.keptChildren, q.1.Fits q.2.value := by
  have hexpr := fun e : Phrase .expr => e.value_isNoDeclaration.kinds
  have hstmt := stmt_value_ne_null
  have hdeclarations := fun name init rest =>
    (declarations_isNoDeclaration name init rest).kinds
  have hblock : ∀ body, blockValue body ≠ .null := by simp [blockValue]
  cases p with
  | unary op e => simp [Category.Fits, value, Malformed, keptChildren, children]
  | present e =>
      simp [Category.Fits, value, Malformed, keptChildren, children, (hexpr e).1]
  | varDecl name init rest semi =>
      simp [Category.Fits, value, Malformed, keptChildren, children, fits_object, slots,
        Kind.admits, ObjectType.isStatement, (hdeclarations _ _ _).2.2]
  | ifElse test yes no =>
      simp [Category.Fits, value, Malformed, keptChildren, children, fits_object, slots,
        Kind.admits, ObjectType.isStatement, hstmt]
  | «for» init test update body =>
      have hinit : init.value = Json.null ∨ Json.Fits .target init.value ↔
          init.value = Json.null ∨ Json.Fits .expression init.value := by
        cases init with
        | absent => simp [value]
        | present e => simp [value, (hexpr e).2.1]
      simp [Category.Fits, value, Malformed, keptChildren, children, fits_object, slots,
        Kind.admits, ObjectType.isStatement, hinit]
  | forVar name init rest t skipped test update body =>
      simp [Category.Fits, value, Malformed, keptChildren, children, fits_object, slots,
        Kind.admits, ObjectType.isStatement, (hdeclarations _ _ _).1, (hdeclarations _ _ _).2.1,
        and_assoc]
  | forIn left right body =>
      simp [Category.Fits, value, Malformed, not_fits_forIn]
  | forInVar name init right body =>
      cases init <;>
        simp [Category.Fits, value, Malformed, keptChildren, children, fits_forInVar]
  | switch discriminant first default second =>
      simp only [Category.Fits, value, Malformed, keptChildren, fits_switch]
      cases first <;> cases default <;> simp [value]
  | «try» body handler finalizer =>
      have hhandler : handler.value = Json.null ∨ Json.Fits .statement handler.value ↔
          handler.value = Json.null ∨ Json.Fits .block handler.value := by
        cases handler <;> simp [value, Kind.admits, ObjectType.isStatement]
      simp [Category.Fits, value, Malformed, keptChildren, children, fits_object, slots,
        Kind.admits, ObjectType.isStatement, hhandler]
  | moreClauses test body rest =>
      simp [Category.Fits, value, Malformed, keptChildren, children, (hexpr test).1, and_assoc]
  | «catch» name body | «finally» body =>
      simp [Category.Fits, value, Malformed, keptChildren, children, Kind.admits, hblock]
  | doWhile body test semi =>
      simp [Category.Fits, value, Malformed, keptChildren, children, fits_object, slots,
        Kind.admits, ObjectType.isStatement]
      exact and_comm
  | _ =>
      simp [Category.Fits, value, Malformed, keptChildren, children, fits_object, slots,
        Kind.admits, ObjectType.isExpression, ObjectType.isStatement]

/-- **A value is of the right shape exactly where no phrase that comes into it is malformed.** -/
theorem Phrase.fits_iff {c : Category} (whole : Phrase c) :
    c.Fits whole.value ↔ ∀ {c' : Category} (p : Phrase c'), p.KeptIn whole → ¬ p.Malformed := by
  constructor
  · intro h c' p hp
    induction hp with
    | refl p => exact (p.fits_iff_children.mp h).1
    | child hq _ ih => exact ih ((fits_iff_children _).mp h |>.2 _ hq)
  · intro h
    refine whole.fits_iff_children.mpr ⟨h whole (.refl whole), fun q hq => ?_⟩
    have := whole.child_size q (whole.keptChildren_subset hq)
    exact q.2.fits_iff.mpr fun p hp => h p (.child hq hp)
termination_by sizeOf whole

end Phrases

end HammerJS
