import HammerJS.Syntax.Literals

/-!
# The names of a program

Which names of a source are found in the value of `Reflect.parse`.

* `Json.names`, `Lexeme.name` — the names of a value, and of a source.
* `Phrase.names_sublist` — those of the value are among those of the source, in order.
* `Phrase.LosesNames` — the phrases that names of their own are lost of.
* `Phrase.names_eq_iff` — all names are kept exactly where no phrase loses any.
-/

namespace HammerJS

/-! ## Names -/

/-- The fields that hold names: of identifiers, of functions, and of the label of a `break` or
`continue` statement. -/
def Field.isName : Field → Bool
  | .name | .id | .label => true
  | _ => false

/-- The name that a value is. -/
def Json.ownName : Json → List Identifier
  | .string name => [name]
  | _ => []

/-- The names that are fields of an object. -/
def namesOf (_ : ObjectType) (fields : List (Field × Json)) : List Identifier :=
  fields.flatMap fun field => if field.1.isName then field.2.ownName else []

/-- The names in a value, in the order of the fields. -/
def Json.names (j : Json) : List Identifier := j.collect namesOf

/-- The name that a token is: an identifier, or the name of a property. -/
def Lexeme.name [Platform] : Lexeme → Option Identifier
  | .ident name | .key _ name | .skipped .ident name => some name
  | .numericKey value => some (Platform.numberToString value)
  | _ => none

/-- The names among some tokens. -/
def lexemeNames [Platform] (ls : List Lexeme) : List Identifier := ls.filterMap Lexeme.name

section Tokens

variable [Platform]

@[simp] theorem lexemeNames_nil : lexemeNames [] = [] := rfl

@[simp] theorem lexemeNames_cons (l : Lexeme) (ls : List Lexeme) :
    lexemeNames (l :: ls) = l.name.toList ++ lexemeNames ls := by
  cases h : l.name <;> simp [lexemeNames, h]

@[simp] theorem lexemeNames_append (ls ls' : List Lexeme) :
    lexemeNames (ls ++ ls') = lexemeNames ls ++ lexemeNames ls' := List.filterMap_append

@[simp] theorem name_mark (t : JSTokenType) : (Lexeme.mark t).name = none := rfl

@[simp] theorem name_string (value : Identifier) : (Lexeme.string value).name = none := rfl

@[simp] theorem name_number (value : Double) : (Lexeme.number value).name = none := rfl

@[simp] theorem name_dot : Lexeme.dot.name = none := rfl

@[simp] theorem name_regExp (patternPrefix : Option UChar) (pattern flags : Identifier) :
    (Lexeme.regExp patternPrefix pattern flags).name = none := rfl

theorem name_skipped (t : JSTokenType) (name : Identifier) :
    (Lexeme.skipped t name).name = if t = .ident then some name else none := by
  cases t <;> rfl

@[simp] theorem name_ident (name : Identifier) : (Lexeme.ident name).name = some name := rfl

@[simp] theorem name_key (t : JSTokenType) (name : Identifier) :
    (Lexeme.key t name).name = some name := rfl

@[simp] theorem name_numericKey (value : Double) :
    (Lexeme.numericKey value).name = some (Platform.numberToString value) := rfl

@[simp] theorem lexemeNames_semi (semi : Bool) : lexemeNames (semiLexemes semi) = [] := by
  cases semi <;> rfl

@[simp] theorem lexemeNames_label (label : Option Identifier) :
    lexemeNames (labelLexemes label) = label.toList := by
  cases label <;> rfl

@[simp] theorem lexemeNames_elisions (elisions : Nat) :
    lexemeNames (elisionLexemes elisions) = [] := by
  simp [lexemeNames, elisionLexemes]

@[simp] theorem lexemeNames_params : ∀ params : List Identifier,
    lexemeNames (paramLexemes params) = params
  | [] => rfl
  | [name] => rfl
  | name :: next :: rest => by
      simp [paramLexemes, lexemeNames_params (next :: rest)]

@[simp] theorem lexemeNames_function (name : Option Identifier) (params : List Identifier)
    (body : List Lexeme) : lexemeNames (functionLexemes name params body) =
      name.toList ++ (params ++ lexemeNames body) := by
  simp [functionLexemes]

end Tokens

/-! ## Names of values -/

/-- The names of some values. -/
def namesIn (js : List Json) : List Identifier := collectList namesOf js

@[simp] theorem namesIn_nil : namesIn [] = [] := by simp [namesIn]

@[simp] theorem namesIn_cons (j : Json) (js : List Json) :
    namesIn (j :: js) = j.names ++ namesIn js := by simp [namesIn, Json.names]

@[simp] theorem namesIn_append (js js' : List Json) :
    namesIn (js ++ js') = namesIn js ++ namesIn js' := by simp [namesIn]

@[simp] theorem names_undefined : Json.undefined.names = [] := by simp [Json.names]

@[simp] theorem names_null : Json.null.names = [] := by simp [Json.names]

@[simp] theorem names_boolean (b : Bool) : (Json.boolean b).names = [] := by simp [Json.names]

@[simp] theorem names_integer (n : Int) : (Json.integer n).names = [] := by simp [Json.names]

@[simp] theorem names_string (s : Identifier) : (Json.string s).names = [] := by
  simp [Json.names]

@[simp] theorem names_text (s : String) : (Json.text s).names = [] := by simp [Json.names]

@[simp] theorem names_array (js : List Json) : (Json.array js).names = namesIn js := by
  simp [Json.names, namesIn]

@[simp] theorem names_object (type : ObjectType) (fields : List (Field × Json)) :
    (Json.object type fields).names = namesOf type fields ++ namesIn (fields.map Prod.snd) := by
  have hfields : collectFields namesOf fields = collectList namesOf (fields.map Prod.snd) := by
    induction fields with
    | nil => simp
    | cons field fields ih => simp [ih]
  rw [Json.names, collect_object, hfields, namesIn]

@[simp] theorem namesOf_nil (type : ObjectType) : namesOf type [] = [] := rfl

@[simp] theorem namesOf_cons (type : ObjectType) (field : Field) (j : Json)
    (fields : List (Field × Json)) : namesOf type ((field, j) :: fields) =
      (if field.isName then j.ownName else []) ++ namesOf type fields := rfl

@[simp] theorem ownName_identifier (name : Identifier) : (identifierObject name).ownName = [] :=
  rfl

@[simp] theorem names_identifier (name : Identifier) : (identifierObject name).names = [name] := by
  simp [identifierObject, Field.isName, Json.ownName]

@[simp] theorem namesIn_identifiers (names : List Identifier) :
    namesIn (names.map identifierObject) = names := by
  induction names with
  | nil => simp
  | cons name names ih => simp [ih]

@[simp] theorem names_operatorText (op : OperatorType) : (operatorText op).names = [] := by
  simp [operatorText]

@[simp] theorem names_nameOrNull (name : Identifier) : (nameOrNull name).names = [] := by
  unfold nameOrNull
  split <;> simp

/-- A name that is missing, or empty, is null. -/
theorem ownName_sublist (name : Option Identifier) :
    (nameOrNull (name.getD [])).ownName.Sublist name.toList := by
  cases name with
  | none => exact .refl _
  | some name =>
      cases name with
      | nil => exact List.nil_sublist _
      | cons => exact .refl _

/-- A name is kept unless it is empty. -/
theorem ownName_length (name : Option Identifier) :
    name.toList.length ≤ (nameOrNull (name.getD [])).ownName.length ↔ name ≠ some [] := by
  cases name with
  | none => simp
  | some name => cases name <;> simp [nameOrNull, Json.ownName]

@[simp] theorem names_literal (objtype : String) (j : Json) :
    (literalValue objtype j).names = j.names := by
  simp [literalValue, Field.isName]

@[simp] theorem names_block (body : List Json) : (blockValue body).names = namesIn body := by
  simp [blockValue, Field.isName]

@[simp] theorem names_function (name : Identifier) (params : List Identifier)
    (body : List Json) : (functionValue name params body).names =
      (nameOrNull name).ownName ++ (params ++ namesIn body) := by
  simp [functionValue, Field.isName]

@[simp] theorem names_unary (op : OperatorType) (j : Json) :
    (unaryValue op j).names = j.names := by simp [unaryValue, Field.isName]

@[simp] theorem names_update (op : OperatorType) (isPrefix : Bool) (j : Json) :
    (updateValue op isPrefix j).names = j.names := by simp [updateValue, Field.isName]

/-- The operand of `void` is lost. -/
theorem names_prefix (t : JSTokenType) (j : Json) :
    (prefixValue t j).names = if t = .voidToken then [] else j.names := by
  cases t <;> simp [prefixValue, Field.isName]

@[simp] theorem names_binary (type : ObjectType) (op : OperatorType) (left right : Json) :
    (binaryValue type op left right).names = left.names ++ right.names := by
  simp [binaryValue, Field.isName]

@[simp] theorem names_declaration (name : Identifier) (init : Option Json) :
    (declarationValue name init).names = name :: namesIn init.toList := by
  cases init <;> simp [declarationValue]

@[simp] theorem names_declarations (first : Json) (rest : List Json) :
    (declarationsValue first rest).names = first.names ++ namesIn rest := by
  cases rest <;> simp [declarationsValue, Field.isName]

@[simp] theorem names_case (test : Json) (body : List Json) :
    (caseValue test body).names = test.names ++ namesIn body := by
  simp [caseValue, Field.isName]

@[simp] theorem namesOf_cases (type : ObjectType) (clauses : List Json)
    (default : Option (List Json)) : namesOf type (casesFields clauses default) = [] := by
  cases clauses <;> cases default <;> simp [casesFields, Field.isName]

@[simp] theorem namesIn_cases (clauses : List Json) (default : Option (List Json)) :
    namesIn ((casesFields clauses default).map Prod.snd) =
      namesIn clauses ++ namesIn (default.getD []) := by
  cases clauses <;> cases default <;> simp [casesFields]

/-- An initializer takes the name with it. -/
theorem names_forInVar (name : Identifier) (init : Option Json) (right body : Json) :
    (forInVarValue name init right body).names =
      (if init.isSome then [] else [name]) ++ (right.names ++ body.names) := by
  cases init <;> simp [forInVarValue, Field.isName]

/-! ## Names of phrases -/

namespace Phrase

/-- Names of the phrase itself, or of a part that is left out of its value, are lost: the operand
of `void`, the left side of a `for`-`in` loop, the clauses behind a default clause, a label, the
variable that `catch` declares, and the variable of a `for`-`in` loop that is initialized. -/
def LosesNames [Platform] : {c : Category} → Phrase c → Prop
  | _, unary op e => op.1 = .voidToken ∧ lexemeNames e.lexemes ≠ []
  | _, forIn left _ _ => lexemeNames left.lexemes ≠ []
  | _, switch _ _ _ second => lexemeNames second.lexemes ≠ []
  | _, forInVar _ init _ _ => init ≠ .noInit
  | _, forVar _ _ _ t _ _ _ _ => t = .ident
  | _, labelled _ _ | _, .catch _ _ => True
  | _, _ => False

end Phrase

section Phrases

variable [Platform]

/-- **The names of the value of a phrase are among its own**, and in the same order. -/
theorem Phrase.names_sublist {c : Category} (p : Phrase c) :
    (namesIn (c.all p.value)).Sublist (lexemeNames p.lexemes) := by
  induction p with
  | unary op e ih =>
      simp only [Category.all, value, lexemes, namesIn_cons, names_prefix] at ih ⊢
      split
      · simp
      · simpa using ih
  | forInVar name init right body _ hright hbody =>
      simp only [Category.all, namesIn_cons, namesIn_nil, List.append_nil] at hright hbody
      have hrest := hright.append hbody
      simp only [Category.all, value, lexemes, namesIn_cons, names_forInVar]
      cases init with
      | noInit => simpa [value, lexemes] using hrest.cons_cons name
      | initializer e =>
          simpa [value, lexemes] using
            (hrest.trans (List.sublist_append_right (lexemeNames e.lexemes) _)).cons name
  | switch discriminant first default second hdiscriminant hfirst hdefault _ =>
      simpa [Category.all, value, lexemes, Field.isName] using hdiscriminant.append
        (hfirst.append (hdefault.trans (List.sublist_append_left _ (lexemeNames second.lexemes))))
  | forVar name init rest t skipped test update body hinit hrest htest hupdate hbody =>
      have hbehind := htest.append (hupdate.append hbody)
      simpa [Category.all, value, lexemes, Field.isName] using hinit.append (hrest.append
        (hbehind.trans (List.sublist_append_right (Lexeme.skipped t skipped).name.toList _)))
  | function name _ _ ih =>
      simp only [Category.all, value, lexemes, namesIn_cons, names_function, namesIn_nil,
        List.append_nil] at ih ⊢
      simpa using (ownName_sublist name).append ((List.Sublist.refl _).append ih)
  | functionDecl name _ _ ih =>
      simp only [Category.all, value, lexemes, namesIn_cons, names_function, namesIn_nil,
        List.append_nil] at ih ⊢
      simpa using (ownName_sublist (some name)).append ((List.Sublist.refl _).append ih)
  | «continue» label semi | «break» label semi =>
      simpa [Category.all, value, lexemes, Field.isName] using ownName_sublist label
  | dot base property ih =>
      simpa [Category.all, value, lexemes, Field.isName] using ih.append (.refl [property])
  | «catch» name body ih =>
      simpa [Category.all, value, lexemes] using ih.cons name
  | forIn left right body _ hright hbody =>
      simpa [Category.all, value, lexemes, Field.isName] using
        (hright.append hbody).trans (List.sublist_append_right (lexemeNames left.lexemes) _)
  | prop t name e ih =>
      simpa [Category.all, value, lexemes, Field.isName] using ih
  | varDecl name init rest semi hinit hrest | moreDecls name init rest hinit hrest =>
      simpa [Category.all, value, lexemes, Field.isName] using hinit.append hrest
  -- one part
  | paren _ ih | newNoArgs _ ih | postOp _ _ ih | numericProp _ _ ih | present _ ih
  | initializer _ ih | block _ ih | «return» _ _ ih | throw _ _ ih | exprStmt _ _ ih
  | defaultClause _ ih | «finally» _ ih =>
      simpa [Category.all, value, lexemes, Field.isName] using ih
  -- two parts
  | array _ _ _ ih ih' | object _ _ ih ih' | bracket _ _ ih ih' | call _ _ ih ih'
  | newArgs _ _ ih ih' | binary _ _ _ ih ih' | assign _ _ _ ih ih' | moreExprs _ _ ih ih'
  | arguments _ _ ih ih' | moreElements _ _ _ ih ih' | moreProps _ _ ih ih' | ifThen _ _ ih ih'
  | doWhile _ _ _ ih ih' | «while» _ _ ih ih' | «with» _ _ ih ih' | moreStmts _ _ ih ih' =>
      simpa [Category.all, value, lexemes, Field.isName] using ih.append ih'
  -- three parts
  | cond _ _ _ ih ih' ih'' | comma _ _ _ ih ih' ih'' | ifElse _ _ _ ih ih' ih''
  | «try» _ _ _ ih ih' ih'' | moreClauses _ _ _ ih ih' ih'' =>
      simpa [Category.all, value, lexemes, Field.isName] using ih.append (ih'.append ih'')
  | «for» _ _ _ _ hinit htest hupdate hbody =>
      simpa [Category.all, value, lexemes, Field.isName] using
        hinit.append (htest.append (hupdate.append hbody))
  -- no part, or none that comes into the value
  | _ => simp [Category.all, value, lexemes, Field.isName]

/-- A name is empty, which stands for none. -/
def Phrase.IsUnnamed : {c : Category} → Phrase c → Prop
  | _, function name _ _ | _, .continue name _ | _, .break name _ => name = some []
  | _, functionDecl name _ _ => name = []
  | _, _ => False

/-- All names of a phrase are kept. -/
def Phrase.KeepsNames {c : Category} (p : Phrase c) : Prop :=
  (lexemeNames p.lexemes).length ≤ (namesIn (c.all p.value)).length

/-- A phrase keeps all names exactly if it loses none itself and its parts keep theirs. -/
theorem Phrase.keepsNames_iff {c : Category} (p : Phrase c) :
    p.KeepsNames ↔
      (¬ p.LosesNames ∧ ¬ p.IsUnnamed) ∧ ∀ q ∈ p.children, q.2.KeepsNames := by
  have hle : ∀ {c : Category} (p : Phrase c),
      (namesIn (c.all p.value)).length ≤ (lexemeNames p.lexemes).length :=
    fun p => p.names_sublist.length_le
  have hexpr := fun e : Phrase .expr => hle e
  have hprop := fun p : Phrase .prop => hle p
  have hstmt := fun p : Phrase .stmt => hle p
  have hopt := fun p : Phrase .opt => hle p
  have hhandler := fun p : Phrase .handler => hle p
  have hfinalizer := fun p : Phrase .finalizer => hle p
  have hexprs := fun p : Phrase .exprs => hle p
  have hargs := fun p : Phrase .args => hle p
  have helements := fun p : Phrase .elements => hle p
  have hprops := fun p : Phrase .props => hle p
  have hstmts := fun p : Phrase .stmts => hle p
  have hclauses := fun p : Phrase .clauses => hle p
  have hdecls := fun p : Phrase .decls => hle p
  have hinit := fun p : Phrase .init => hle p
  have hdefault := fun p : Phrase .default => hle p
  have hname := fun name => (ownName_sublist name).length_le
  simp only [Category.all, namesIn_cons, namesIn_nil, List.append_nil] at hexpr hprop hstmt hopt
  simp only [Category.all, namesIn_cons, namesIn_nil, List.append_nil] at hhandler hfinalizer
  simp only [Category.all] at hexprs hargs helements hprops hstmts hclauses hdecls hinit hdefault
  clear hle
  cases p with
  | unary op e =>
      have := hexpr e
      simp only [KeepsNames, children, LosesNames, IsUnnamed, Category.all, value, lexemes,
        namesIn_cons, names_prefix]
      split <;> simp <;> grind
  | forIn left right body =>
      simp [KeepsNames, children, LosesNames, IsUnnamed, Category.all, value, lexemes,
        Field.isName, ← List.length_eq_zero_iff]
      grind
  | forInVar name init right body =>
      simp only [KeepsNames, children, LosesNames, IsUnnamed, Category.all, value, lexemes,
        namesIn_cons, names_forInVar]
      cases init <;> simp [value, lexemes] <;> grind
  | switch discriminant first default second =>
      simp [KeepsNames, children, LosesNames, IsUnnamed, Category.all, value, lexemes,
        Field.isName, ← List.length_eq_zero_iff]
      grind
  | forVar name init rest t skipped test update body =>
      simp [KeepsNames, children, LosesNames, IsUnnamed, Category.all, value, lexemes,
        Field.isName, name_skipped]
      grind
  | function name params body =>
      have hkept := ownName_length name
      simp only [KeepsNames, children, LosesNames, IsUnnamed, Category.all, value, lexemes]
      simp only [← hkept]
      simp
      grind
  | functionDecl name params body =>
      have hkept := ownName_length (some name)
      have hone := hname (some name)
      simp only [Option.getD_some, Option.toList_some, List.length_singleton] at hkept hone
      simp [KeepsNames, children, LosesNames, IsUnnamed, Category.all, value, lexemes] at hkept ⊢
      grind
  | «continue» label semi | «break» label semi =>
      simp [KeepsNames, children, LosesNames, IsUnnamed, Category.all, value, lexemes, Field.isName]
      exact ownName_length label
  -- two parts or more: the sums of the lengths compare as the parts do
  | array | object | bracket | call | newArgs | binary | cond | assign | comma | moreExprs
  | arguments | moreElements | moreProps | varDecl | ifThen | ifElse | doWhile | «while» | «for»
  | «with» | «try» | moreStmts | moreClauses | moreDecls | «catch» =>
      simp [KeepsNames, children, LosesNames, IsUnnamed, Category.all, value, lexemes, Field.isName]
      grind
  -- one part, or none
  | _ =>
      simp [KeepsNames, children, LosesNames, IsUnnamed, Category.all, value, lexemes, Field.isName]

/-- All names of a phrase are kept exactly where nothing in it loses any. -/
theorem Phrase.names_eq_iff {c : Category} (p : Phrase c) :
    namesIn (c.all p.value) = lexemeNames p.lexemes ↔
      p.Everywhere fun q => ¬ q.LosesNames ∧ ¬ q.IsUnnamed := by
  rw [← everywhere_of_children (Q := KeepsNames) (fun p => p.keepsNames_iff)]
  constructor
  · intro h
    exact (congrArg List.length h).ge
  · exact p.names_sublist.eq_of_length_le

end Phrases

/-! ## Empty names -/

namespace Phrase

/-- The tokens of a part are tokens of the whole. -/
theorem mem_lexemes_of_child {c : Category} (p : Phrase c) {x : Lexeme} :
    ∀ q ∈ p.children, x ∈ q.2.lexemes → x ∈ p.lexemes := by
  cases p <;> simp [children, lexemes, functionLexemes] <;> grind

theorem Within.mem_lexemes {c c' : Category} {p : Phrase c} {whole : Phrase c'}
    (h : p.Within whole) {x : Lexeme} (hx : x ∈ p.lexemes) : x ∈ whole.lexemes := by
  induction h with
  | refl p => exact hx
  | child hq _ ih => exact mem_lexemes_of_child _ _ hq (ih hx)

/-- A name that is empty is a token. -/
theorem IsUnnamed.mem_lexemes {c : Category} {p : Phrase c} (h : p.IsUnnamed) :
    .ident [] ∈ p.lexemes := by
  cases p with
  | function name params body =>
      rw [show name = some [] from h]
      simp [lexemes, functionLexemes, labelLexemes]
  | functionDecl name params body =>
      rw [show name = [] from h]
      simp [lexemes, functionLexemes, labelLexemes]
  | «continue» label semi | «break» label semi =>
      rw [show label = some [] from h]
      simp [lexemes, labelLexemes]
  | _ => exact h.elim

end Phrase

end HammerJS
