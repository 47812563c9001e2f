import Mathlib.Data.List.ReduceOption
import HammerJS.Reflect.Exact
import HammerJS.Syntax.Conversion

/-!
# The lists of a program, in its value

What the conversion makes of the clauses of a `switch`, of the variables that a `var`
statement declares and of the elements of an array.

* `Throughout` — a property of the phrases of a source and of what their nodes are
  converted to.
* `switch_cases_iff`, `var_declarations_iff`, `array_elements_iff` — which of these lists
  have one entry for each part, in order.
-/

namespace HammerJS

open Procs

variable [Platform]

/-! ## The phrases of a source -/

/-- The source consists of statements that the parser has built its tree of, `j` is their
value, and `P` holds of each phrase of a category that occurs in them, together with what the
conversion makes of its node. -/
def Throughout {c : Category} (P : Phrase c → c.Value → Prop) (source : List UChar)
    (j : Json) : Prop :=
  ∃ body start stop s', runParser source =
      .done (some (Builder.createSourceElements.appendAll body.build)) s' ∧
    Accepted source body start stop ∧ j = programValue body.value ∧
    ∀ p : Phrase c, p.Within body → ∃ v, c.Converts p.build v ∧ P p v

theorem throughout_of {c : Category} {P : Phrase c → c.Value → Prop} {source : List UChar}
    {j : Json} (h : reflectParse source = .tree j) (hP : ∀ p, P p p.value) :
    Throughout P source j := by
  obtain ⟨body, start, stop, s', hrun, haccepted, -, hj⟩ := reflectParse_built h
  exact ⟨body, start, stop, s', hrun, haccepted, hj, fun p _ => ⟨p.value, p.converts, hP p⟩⟩

/-- The conversion has one outcome. -/
theorem Converts.unique {n : Node} {j j' : Json} (h : Converts (some n) j)
    (h' : Converts (some n) j') : j = j' := by
  have hbound : ∀ m, some n = some m → 2 * m.height ≤ 2 * n.height := by
    rintro _ ⟨⟩
    exact le_rfl
  have heq := (h _ 1 hbound one_pos).symm.trans (h' _ 1 hbound one_pos)
  cases heq
  rfl

/-- A source that is one statement. -/
theorem Throughout.single {P : Phrase .stmt → Json → Prop} {source : List UChar} {j : Json}
    (h : Throughout (c := .stmt) P source (programValue [j])) :
    ∃ p : Phrase .stmt, p.value = j ∧ P p p.value := by
  obtain ⟨body, start, stop, s', -, -, hj, hP⟩ := h
  have hvalue : body.value = [j] := by
    simpa [programValue, eq_comm] using hj
  cases body with
  | noStmts => cases hvalue
  | moreStmts first rest =>
      obtain ⟨hfirst, -⟩ := List.cons.inj hvalue
      obtain ⟨v, hconverts, hv⟩ :=
        hP first (.child (List.mem_cons_self ..) (.refl first))
      refine ⟨first, hfirst, ?_⟩
      rwa [Converts.unique first.converts hconverts]

/-! ## The clauses of a `switch` -/

/-- A clause: the expression behind `case`, or none behind `default`, and the statements. -/
abbrev SwitchClause := Option (Phrase .expr) × Phrase .stmts

namespace Phrase

/-- The clauses of a part of a `switch`, in the order of the source. -/
def clauseList : {c : Category} → Phrase c → List SwitchClause
  | _, moreClauses test body rest => (some test, body) :: rest.clauseList
  | _, defaultClause body => [(none, body)]
  | _, _ => []

-- only to have the equations of the definition made here, once for all that rewrite with them
attribute [local simp] clauseList

end Phrase

/-- A value is the `SwitchCase` of a clause: its `test` is the expression of the clause, null
for `default`, and its `consequent` holds the statements. -/
def DescribesClause (clause : SwitchClause) (j : Json) : Prop :=
  j = .object .switchCase
    [(.test, clause.1.elim .null Phrase.value),
      (.consequent, .array [.object .blockStatement [(.body, .array clause.2.value)]])]

/-- A value is a `SwitchStatement` whose `cases` are those of the clauses. -/
def CasesDescribe (clauses : List SwitchClause) (j : Json) : Prop :=
  ∃ fields js, j = .object .switchStatement fields ∧ (.cases, .array js) ∈ fields ∧
    List.Forall₂ DescribesClause clauses js

theorem clauses_describe (p : Phrase .clauses) :
    List.Forall₂ DescribesClause p.clauseList p.value := by
  match p with
  | .noClauses => exact .nil
  | .moreClauses test body rest => exact .cons rfl (clauses_describe rest)

omit [Platform] in
theorem clauseList_eq_nil {p : Phrase .clauses} : p.clauseList = [] ↔ p = .noClauses := by
  cases p <;> simp [Phrase.clauseList]

theorem cases_describe_iff (discriminant : Phrase .expr) (first second : Phrase .clauses)
    (default : Phrase .default) :
    CasesDescribe (first.clauseList ++ default.clauseList ++ second.clauseList)
        (Phrase.switch discriminant first default second).value ↔
      first ≠ .noClauses ∧ second = .noClauses := by
  have hlen := (clauses_describe first).length_eq
  constructor
  · rintro ⟨fields, js, hfields, hmem, hall⟩
    have hlength := hall.length_eq
    cases hfields
    cases first with
    | noClauses =>
        cases default with
        | noDefault => simp [Phrase.value, casesFields] at hmem
        | defaultClause body =>
            simp only [Phrase.value, casesFields, List.mem_cons, Prod.mk.injEq, reduceCtorEq,
              false_and, Json.array.injEq, true_and, List.not_mem_nil, or_false, false_or] at hmem
            subst hmem
            cases hall with
            | cons h _ => cases h
    | moreClauses test body rest =>
        refine ⟨nofun, clauseList_eq_nil.mp (List.eq_nil_of_length_eq_zero ?_)⟩
        cases default <;>
          simp only [Phrase.value, casesFields, List.mem_cons, Prod.mk.injEq, reduceCtorEq,
            false_and, Json.array.injEq, true_and, List.not_mem_nil, or_false, false_or] at hmem <;>
          subst hmem <;> simp [Phrase.clauseList, Phrase.value] at hlen hlength <;> omega
  · rintro ⟨hfirst, rfl⟩
    cases first with
    | noClauses => exact absurd rfl hfirst
    | moreClauses test body rest =>
        have hall := clauses_describe (.moreClauses test body rest)
        cases default with
        | noDefault =>
            refine ⟨_, _, rfl, List.mem_cons_of_mem _ (List.mem_singleton_self _), ?_⟩
            simp only [Phrase.clauseList, List.append_nil] at hall ⊢
            exact hall
        | defaultClause body =>
            refine ⟨_, _, rfl, List.mem_cons_of_mem _ (List.mem_singleton_self _), ?_⟩
            have happend := List.rel_append hall (.cons (a := (none, body)) rfl .nil)
            simp only [Phrase.clauseList, List.append_nil] at happend ⊢
            exact happend

/-- **Which `switch` statements keep their clauses**: one has a case for each of its clauses
exactly if there is a clause before its `default`, and none behind it. -/
theorem switch_cases_iff {source : List UChar} {j : Json} (h : reflectParse source = .tree j) :
    Throughout (c := .stmt) (fun p v => ∀ discriminant first default second,
      p = .switch discriminant first default second →
        (CasesDescribe (first.clauseList ++ default.clauseList ++ second.clauseList) v ↔
          first ≠ .noClauses ∧ second = .noClauses)) source j := by
  refine throughout_of h fun p discriminant first default second hp => ?_
  subst hp
  exact cases_describe_iff discriminant first second default

omit [Platform] in
/-- `switch(a){case b:}` has the one case. -/
theorem switch_cases_one : ∃ j,
    @reflectParse exactPlatform (identifierOfChars "switch(a){case b:}".toList) = .tree j ∧
    @Throughout exactPlatform .stmt (fun p v => ∀ discriminant first default second,
      p = .switch discriminant first default second →
        (@CasesDescribe exactPlatform (first.clauseList ++ default.clauseList ++ second.clauseList) v ↔
          first ≠ .noClauses ∧ second = .noClauses))
      (identifierOfChars "switch(a){case b:}".toList) j := by
  let _ : Platform := exactPlatform
  have hrun : (@reflectParse exactPlatform (identifierOfChars "switch(a){case b:}".toList)).isTree
      (programValue [.object .switchStatement
        [(.discriminant, identifierObject (identifierOfChars ['a'])),
          (.cases, .array [caseValue (identifierObject (identifierOfChars ['b'])) []])]]) =
        true := by decide +kernel
  exact ⟨_, ReflectResult.of_isTree hrun, switch_cases_iff (ReflectResult.of_isTree hrun)⟩

omit [Platform] in
/-- What comes of `switch(a){default:}`: null and a block, where one case was to be expected. -/
theorem switch_cases_default : ∃ j,
    @reflectParse exactPlatform (identifierOfChars "switch(a){default:}".toList) = .tree j ∧
    ¬ @Throughout exactPlatform .stmt (fun p v => ∀ discriminant first default second,
      p = .switch discriminant first default second →
        @CasesDescribe exactPlatform (first.clauseList ++ default.clauseList ++ second.clauseList) v)
      (identifierOfChars "switch(a){default:}".toList) j := by
  let _ : Platform := exactPlatform
  have hrun : (@reflectParse exactPlatform (identifierOfChars "switch(a){default:}".toList)).isTree
      (programValue [.object .switchStatement
        [(.discriminant, identifierObject (identifierOfChars ['a'])),
          (.cases, .array [.null, blockValue []])]]) = true := by decide +kernel
  refine ⟨_, ReflectResult.of_isTree hrun, fun h => ?_⟩
  obtain ⟨p, hvalue, hP⟩ := h.single
  cases p with
  | switch discriminant first default second =>
      obtain ⟨hfirst, -⟩ :=
        (cases_describe_iff discriminant first second default).mp (hP _ _ _ _ rfl)
      cases first with
      | noClauses => exact hfirst rfl
      | moreClauses test body rest =>
          cases default <;> simp [Phrase.value, casesFields, caseValue] at hvalue
  | forInVar name init right body =>
      cases init <;> simp [Phrase.value, forInVarValue] at hvalue
  | _ => simp [Phrase.value, blockValue, functionValue] at hvalue

/-! ## The variables of a `var` statement -/

/-- A declarator: a name and its initializer. -/
abbrev Declarator := Identifier × Phrase .init

namespace Phrase

/-- The declarators behind the first one. -/
def declaratorList : {c : Category} → Phrase c → List Declarator
  | _, moreDecls name init rest => (name, init) :: rest.declaratorList
  | _, _ => []

-- only to have the equations of the definition made here, once for all that rewrite with them
attribute [local simp] declaratorList

end Phrase

/-- A value describes a declarator: the name, or the assignment of the initializer to it. -/
def DescribesDeclarator (declarator : Declarator) (j : Json) : Prop :=
  match declarator.2.value with
  | none => j = identifierObject declarator.1
  | some init => j = .object .assignmentExpression
      [(.operator, .text "="), (.left, identifierObject declarator.1), (.right, init)]

/-- A value is a `VariableDeclaration` with the declarators. -/
def DeclarationsDescribe (declarators : List Declarator) (j : Json) : Prop :=
  ∃ js, j = .object .variableDeclaration [(.declarations, .array js)] ∧
    List.Forall₂ DescribesDeclarator declarators js

theorem describes_declarator (name : Identifier) (init : Phrase .init) :
    DescribesDeclarator (name, init) (declarationValue name init.value) := by
  cases init <;> rfl

omit [Platform] in
theorem declaratorList_eq_nil {p : Phrase .decls} : p.declaratorList = [] ↔ p = .noDecls := by
  cases p <;> simp [Phrase.declaratorList]

theorem declarations_describe_iff (name : Identifier) (init : Phrase .init)
    (rest : Phrase .decls) (semi : Bool) :
    DeclarationsDescribe ((name, init) :: rest.declaratorList)
        (Phrase.varDecl name init rest semi).value ↔ rest = .noDecls := by
  constructor
  · rintro ⟨js, hjs, hall⟩
    cases hjs
    refine declaratorList_eq_nil.mp (List.eq_nil_of_length_eq_zero ?_)
    have hlength := hall.length_eq
    simpa using hlength
  · rintro rfl
    exact ⟨_, rfl, .cons (describes_declarator name init) .nil⟩

/-- **Which `var` statements keep their declarators**: those with one. -/
theorem var_declarations_iff {source : List UChar} {j : Json}
    (h : reflectParse source = .tree j) :
    Throughout (c := .stmt) (fun p v => ∀ name init rest semi, p = .varDecl name init rest semi →
      (DeclarationsDescribe ((name, init) :: rest.declaratorList) v ↔
        ((name, init) :: rest.declaratorList).length = 1)) source j := by
  refine throughout_of h fun p name init rest semi hp => ?_
  subst hp
  rw [declarations_describe_iff, ← declaratorList_eq_nil]
  simp

-- three variables are one entry as well
omit [Platform] in
example : (@reflectParse exactPlatform (identifierOfChars "var a,b,c;".toList)).isTree
    (programValue [.object .variableDeclaration [(.declarations, .array
      [.object .sequenceExpression [(.expressions, .array
        [identifierObject (identifierOfChars ['a']), identifierObject (identifierOfChars ['b']),
          identifierObject (identifierOfChars ['c'])])]])]]) = true := by decide +kernel

omit [Platform] in
/-- `var a;` declares one variable. -/
theorem var_declarations_one : ∃ j,
    @reflectParse exactPlatform (identifierOfChars "var a;".toList) = .tree j ∧
    @Throughout exactPlatform .stmt (fun p v => ∀ name init rest semi,
      p = .varDecl name init rest semi →
        (@DeclarationsDescribe exactPlatform ((name, init) :: rest.declaratorList) v ↔
          ((name, init) :: rest.declaratorList).length = 1))
      (identifierOfChars "var a;".toList) j := by
  let _ : Platform := exactPlatform
  have hrun : (@reflectParse exactPlatform (identifierOfChars "var a;".toList)).isTree
      (programValue [.object .variableDeclaration
        [(.declarations, .array [identifierObject (identifierOfChars ['a'])])]]) = true := by
    decide +kernel
  exact ⟨_, ReflectResult.of_isTree hrun, var_declarations_iff (ReflectResult.of_isTree hrun)⟩

omit [Platform] in
/-- What comes of `var a,b;`: one entry, which is a sequence of two. -/
theorem var_declarations_two : ∃ j,
    @reflectParse exactPlatform (identifierOfChars "var a,b;".toList) = .tree j ∧
    ¬ @Throughout exactPlatform .stmt (fun p v => ∀ name init rest semi,
      p = .varDecl name init rest semi →
        @DeclarationsDescribe exactPlatform ((name, init) :: rest.declaratorList) v)
      (identifierOfChars "var a,b;".toList) j := by
  let _ : Platform := exactPlatform
  have hrun : (@reflectParse exactPlatform (identifierOfChars "var a,b;".toList)).isTree
      (programValue [.object .variableDeclaration [(.declarations, .array
        [.object .sequenceExpression [(.expressions, .array
          [identifierObject (identifierOfChars ['a']),
            identifierObject (identifierOfChars ['b'])])]])]]) = true := by decide +kernel
  refine ⟨_, ReflectResult.of_isTree hrun, fun h => ?_⟩
  obtain ⟨p, hvalue, hP⟩ := h.single
  cases p with
  | varDecl name init rest semi =>
      have hrest := (declarations_describe_iff name init rest semi).mp (hP _ _ _ _ rfl)
      subst hrest
      cases init <;>
        simp [Phrase.value, declarationsValue, declarationValue, binaryValue, identifierObject]
          at hvalue
  | forInVar name init right body =>
      cases init <;> simp [Phrase.value, forInVarValue] at hvalue
  | _ => simp [Phrase.value, blockValue, functionValue] at hvalue

/-! ## The elements of an array -/

namespace Phrase

/-- What follows the first element of an array: the elements, and none where one is left
out. A comma at the end stands behind an element. -/
def items : {c : Category} → Phrase c → List (Option (Phrase .expr))
  | _, trailingElisions elisions => List.replicate elisions none
  | _, moreElements elisions e rest => List.replicate elisions none ++ some e :: rest.items
  | _, _ => []

/-- The elements of an array, if the phrase is one. -/
def arrayItems : {c : Category} → Phrase c → Option (List (Option (Phrase .expr)))
  | _, emptyArray elisions => some (List.replicate elisions none)
  | _, array elisions first rest =>
      some (List.replicate elisions none ++ some first :: rest.items)
  | _, _ => none

-- only to have the equations of the definitions made here, once for all that rewrite with them
attribute [local simp] items arrayItems

end Phrase

/-- A value is an `ArrayExpression` with the elements, null where one is left out. -/
def ElementsDescribe (items : List (Option (Phrase .expr))) (j : Json) : Prop :=
  j = .object .arrayExpression
    [(.elements, .array (items.map fun item => item.elim .null Phrase.value))]

/-- What the conversion makes of the elements of an array: those that are there. -/
theorem items_value (p : Phrase .elements) :
    p.value = p.items.reduceOption.map Phrase.value := by
  match p with
  | .noElements => rfl
  | .trailingElisions elisions => simp [Phrase.value, Phrase.items]
  | .moreElements elisions e rest =>
      have ih := items_value rest
      simp [Phrase.value, Phrase.items, List.reduceOption_append, ih]

theorem arrayItems_value {p : Phrase .expr} {items : List (Option (Phrase .expr))}
    (h : p.arrayItems = some items) :
    p.value = .object .arrayExpression
      [(.elements, .array (items.reduceOption.map Phrase.value))] := by
  cases p with
  | emptyArray elisions =>
      cases h
      simp [Phrase.value]
  | array elisions first rest =>
      cases h
      simp [Phrase.value, List.reduceOption_append, items_value rest]
  | _ => cases h

theorem elements_describe_iff {p : Phrase .expr} {items : List (Option (Phrase .expr))}
    (h : p.arrayItems = some items) : ElementsDescribe items p.value ↔ none ∉ items := by
  rw [arrayItems_value h, ElementsDescribe]
  constructor
  · intro helements hnone
    simp only [Json.object.injEq, List.cons.injEq, Prod.mk.injEq, Json.array.injEq, true_and,
      and_true] at helements
    have hlength := congrArg List.length helements
    have hlt := List.reduceOption_length_lt_iff.mpr hnone
    rw [List.length_map, List.length_map] at hlength
    omega
  · intro hnone
    have hsome : ∀ item ∈ items, ∃ e, item = some e := fun item hitem =>
      Option.ne_none_iff_exists'.mp fun hitem' => hnone (hitem' ▸ hitem)
    have hmap : items.reduceOption.map Phrase.value =
        items.map fun item => item.elim .null Phrase.value := by
      clear h hnone
      induction items with
      | nil => rfl
      | cons item items ih =>
          obtain ⟨e, rfl⟩ := hsome item (List.mem_cons_self ..)
          have ih := ih fun item hitem => hsome item (List.mem_cons_of_mem _ hitem)
          simp [List.reduceOption_cons_of_some, ih]
    rw [hmap]

/-- **Which arrays keep the places of their elements**: those that leave none out. -/
theorem array_elements_iff {source : List UChar} {j : Json} (h : reflectParse source = .tree j) :
    Throughout (c := .expr) (fun p v => ∀ items, p.arrayItems = some items →
      (ElementsDescribe items v ↔ none ∉ items)) source j :=
  throughout_of h fun _ _ hitems => elements_describe_iff hitems

omit [Platform] in
/-- `[a,];` has one element: the comma at the end stands behind it. -/
theorem array_elements_one : ∃ j,
    @reflectParse exactPlatform (identifierOfChars "[a,];".toList) = .tree j ∧
    @Throughout exactPlatform .expr (fun p v => ∀ items, p.arrayItems = some items →
      (@ElementsDescribe exactPlatform items v ↔ none ∉ items))
      (identifierOfChars "[a,];".toList) j := by
  let _ : Platform := exactPlatform
  have hrun : (@reflectParse exactPlatform (identifierOfChars "[a,];".toList)).isTree
      (programValue [.object .expressionStatement [(.expression, .object .arrayExpression
        [(.elements, .array [identifierObject (identifierOfChars ['a'])])])]]) = true := by
    decide +kernel
  exact ⟨_, ReflectResult.of_isTree hrun, array_elements_iff (ReflectResult.of_isTree hrun)⟩

/-- The types of the first two tokens of a source. -/
def firstTypes (source : List UChar) : Option (JSTokenType × JSTokenType) :=
  match Lexer.lex .identifyReservedWords (initialState source).token (Lexer.setCode source) with
  | .ok (t, l) =>
      match Lexer.lex .identifyReservedWords t l with
      | .ok (t', _) => some (t.type, t'.type)
      | .error _ => none
  | .error _ => none

theorem firstTypes_of_next {source : List UChar} {start m : Stream}
    (h : (initialState source).stream.Next .identifyReservedWords start)
    (h' : start.Next .identifyReservedWords m) :
    firstTypes source = some (start.token.type, m.token.type) := by
  have h : Lexer.lex .identifyReservedWords (initialState source).token (Lexer.setCode source) =
    .ok (start.token, start.lexer) := h
  have h' : Lexer.lex .identifyReservedWords start.token start.lexer = .ok (m.token, m.lexer) := h'
  unfold firstTypes
  rw [h]
  simp only [h']

omit [Platform] in
/-- What comes of `[,];`: no element, where one is left out. -/
theorem array_elements_elided : ∃ j,
    @reflectParse exactPlatform (identifierOfChars "[,];".toList) = .tree j ∧
    ¬ @Throughout exactPlatform .expr (fun p v => ∀ items, p.arrayItems = some items →
      @ElementsDescribe exactPlatform items v) (identifierOfChars "[,];".toList) j := by
  let _ : Platform := exactPlatform
  have hrun : (@reflectParse exactPlatform (identifierOfChars "[,];".toList)).isTree
      (programValue [.object .expressionStatement [(.expression, .object .arrayExpression
        [(.elements, .array [])])]]) = true := by decide +kernel
  have htypes : @firstTypes exactPlatform (identifierOfChars "[,];".toList) =
      some (.openBracket, .comma) := by decide +kernel
  refine ⟨_, ReflectResult.of_isTree hrun, ?_⟩
  rintro ⟨body, start, stop, s', -, haccepted, hj, hP⟩
  have hvalue : body.value = [.object .expressionStatement [(.expression,
      .object .arrayExpression [(.elements, .array [])])]] := by
    simpa [programValue, eq_comm] using hj
  have hreads := haccepted.reads
  cases body with
  | noStmts => cases hvalue
  | moreStmts first rest =>
      obtain ⟨hfirst, -⟩ := List.cons.inj hvalue
      cases first with
      | exprStmt e semi =>
          have he : e.value = .object .arrayExpression [(.elements, .array [])] := by
            simpa [Phrase.value] using hfirst
          have hwithin : e.Within (Phrase.moreStmts (.exprStmt e semi) rest) :=
            .child (List.mem_cons_self ..) (.child (List.mem_cons_self ..) (.refl e))
          cases e with
          | emptyArray elisions =>
              obtain ⟨v, hconverts, hv⟩ := hP _ hwithin
              rw [Converts.unique hconverts (Phrase.emptyArray elisions).converts] at hv
              have hnone := (elements_describe_iff rfl).mp (hv _ rfl)
              obtain ⟨m, ⟨-, hm⟩, hrest⟩ := hreads
              rw [firstTypes_of_next haccepted.next hm] at htypes
              cases elisions with
              | zero =>
                  obtain ⟨m', ⟨hclose, -⟩, -⟩ := hrest
                  rw [hclose] at htypes
                  simp at htypes
              | succ elisions => exact hnone (List.mem_cons_self ..)
          | paren e =>
              obtain ⟨m, ⟨hopen, hm⟩, -⟩ := hreads
              rw [firstTypes_of_next haccepted.next hm, hopen] at htypes
              simp at htypes
          | postOp increment e => simp [Phrase.value, updateValue] at he
          | unary op e =>
              simp only [Phrase.value] at he
              generalize op.1 = t at he
              cases t <;> simp [prefixValue, unaryValue, updateValue] at he
          | _ => simp [Phrase.value, functionValue, literalValue, identifierObject, binaryValue] at he
      | forInVar name init right body =>
          cases init <;> simp [Phrase.value, forInVarValue] at hfirst
      | _ => simp [Phrase.value, blockValue, functionValue] at hfirst

end HammerJS
