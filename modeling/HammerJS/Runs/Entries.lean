import HammerJS.Runs.Lists

/-!
# Every element, in order

The arrays of the value that stand for lists of the source.

* `Phrase.Lists` — the lists of a phrase: the field of its value, and the nodes of the
  elements in the order of the source.
* `Phrase.HasBlock` — the blocks of a `try` statement.
* `Phrase.IsFunction` — the parameters and the body of a function.
* `convertParameters_chain` — the walk over the chain of the parameters.
* `lists_kept` — the arrays have one entry for each element, what its node is converted to.
-/

namespace HammerJS

open Procs

variable [Platform]

/-! ## Lists of a phrase -/

/-- The phrase lists elements with the nodes, for the field of its value: the statements of
a block, the arguments of a call or of `new`, the properties of an object, the operands of
a comma expression, the elements of an array that leaves none out. -/
inductive Phrase.Lists : {c : Category} → Phrase c → Field → List Node → Prop
  | block (body : Phrase .stmts) : Lists (.block body) .body body.build
  | callNone (callee : Phrase .expr) : Lists (.call callee .noArgs) .arguments []
  | call (callee first : Phrase .expr) (rest : Phrase .exprs) :
      Lists (.call callee (.arguments first rest)) .arguments (first.build :: rest.build)
  | newNone (callee : Phrase .expr) : Lists (.newArgs callee .noArgs) .arguments []
  | new (callee first : Phrase .expr) (rest : Phrase .exprs) :
      Lists (.newArgs callee (.arguments first rest)) .arguments (first.build :: rest.build)
  | emptyObject : Lists .emptyObject .properties []
  | object (first : Phrase .prop) (rest : Phrase .props) :
      Lists (.object first rest) .properties (first.build :: rest.build)
  | comma (first second : Phrase .expr) (rest : Phrase .exprs) :
      Lists (.comma first second rest) .expressions (first.build :: second.build :: rest.build)
  | emptyArray : Lists (.emptyArray 0) .elements []
  | array (first : Phrase .expr) (rest : Phrase .elements) (h : none ∉ rest.items) :
      Lists (.array 0 first rest) .elements (first.build :: rest.build)

/-- The phrase has a block with the nodes of its statements, for the field of its value: the
three blocks of a `try` statement. -/
inductive Phrase.HasBlock : {c : Category} → Phrase c → Field → List Node → Prop
  | block (body : Phrase .stmts) (handler : Phrase .handler) (finalizer : Phrase .finalizer) :
      HasBlock (.try body handler finalizer) .block body.build
  | handler (body : Phrase .stmts) (name : Identifier) (caught : Phrase .stmts)
      (finalizer : Phrase .finalizer) :
      HasBlock (.try body (.catch name caught) finalizer) .handler caught.build
  | finalizer (body : Phrase .stmts) (handler : Phrase .handler) (last : Phrase .stmts) :
      HasBlock (.try body handler (.finally last)) .finalizer last.build

omit [Platform] in
/-- The phrase is a function with the parameters and the body. -/
inductive Phrase.IsFunction : {c : Category} → Phrase c → List Identifier → Phrase .stmts → Prop
  | function (name : Option Identifier) (params : List Identifier) (body : Phrase .stmts) :
      IsFunction (.function name params body) params body
  | functionDecl (name : Identifier) (params : List Identifier) (body : Phrase .stmts) :
      IsFunction (.functionDecl name params body) params body

/-- A value has an array under the field, with one entry for each of the nodes, in their
order: what the node is converted to. -/
def HasEntries (field : Field) (nodes : List Node) (j : Json) : Prop :=
  ∃ type fields js, j = .object type fields ∧ fields.lookup field = some (.array js) ∧
    ConvertsAll nodes js

/-- A value has, under the field, a block with an entry for each of its statements. -/
def HasBlockOf (field : Field) (nodes : List Node) (j : Json) : Prop :=
  ∃ type fields block, j = .object type fields ∧ fields.lookup field = some block ∧
    HasEntries .body nodes block

/-- A value has the parameters, and a body with an entry for each statement. -/
def DescribesFunction (params : List Identifier) (body : Phrase .stmts) (j : Json) : Prop :=
  ∃ fields block, j = .object .functionExpression fields ∧
    fields.lookup .params = some (.array (params.map identifierObject)) ∧
    fields.lookup .body = some block ∧ HasEntries .body body.build block

/-- A value keeps every list of the phrase. -/
def KeepsLists {c : Category} (p : Phrase c) (j : Json) : Prop :=
  (∀ field nodes, p.Lists field nodes → HasEntries field nodes j) ∧
    (∀ field nodes, p.HasBlock field nodes → HasBlockOf field nodes j) ∧
    ∀ params body, p.IsFunction params body → DescribesFunction params body j

theorem Phrase.Lists.entries_expr {p : Phrase .expr} {field : Field} {nodes : List Node}
    (h : p.Lists field nodes) : HasEntries field nodes p.value := by
  cases h with
  | callNone | newNone | emptyObject | emptyArray => exact ⟨_, _, [], rfl, rfl, .nil⟩
  | call callee first rest => exact ⟨_, _, _, rfl, rfl, .cons first.converts rest.converts⟩
  | new callee first rest => exact ⟨_, _, _, rfl, rfl, .cons first.converts rest.converts⟩
  | object first rest => exact ⟨_, _, _, rfl, rfl, .cons first.converts rest.converts⟩
  | comma first second rest =>
      exact ⟨_, _, _, rfl, rfl, .cons first.converts (.cons second.converts rest.converts)⟩
  | array first rest h => exact ⟨_, _, _, rfl, rfl, .cons first.converts rest.converts⟩

theorem Phrase.Lists.entries_stmt {p : Phrase .stmt} {field : Field} {nodes : List Node}
    (h : p.Lists field nodes) : HasEntries field nodes p.value := by
  cases h with
  | block body => exact ⟨_, _, _, rfl, rfl, body.converts⟩

/-- The value of a block. -/
theorem blockValue_entries (body : Phrase .stmts) :
    HasEntries .body body.build (blockValue body.value) :=
  ⟨_, _, _, rfl, rfl, body.converts⟩

theorem Phrase.HasBlock.entries {p : Phrase .stmt} {field : Field} {nodes : List Node}
    (h : p.HasBlock field nodes) : HasBlockOf field nodes p.value := by
  cases h with
  | block body handler finalizer => exact ⟨_, _, _, rfl, rfl, blockValue_entries body⟩
  | handler body name caught finalizer => exact ⟨_, _, _, rfl, rfl, blockValue_entries caught⟩
  | finalizer body handler last => exact ⟨_, _, _, rfl, rfl, blockValue_entries last⟩

theorem Phrase.HasBlock.not_expr {p : Phrase .expr} {field : Field} {nodes : List Node} :
    ¬ p.HasBlock field nodes := by
  intro h
  cases h

theorem describesFunction (name : Identifier) (params : List Identifier) (body : Phrase .stmts) :
    DescribesFunction params body (functionValue name params body.value) :=
  ⟨_, _, rfl, rfl, rfl, blockValue_entries body⟩

/-! ## Parameters -/

omit [Platform] in
/-- The walk over the chain of parameters takes one step for each of them. -/
theorem convertParameters_chain (k : Nat) (name : Identifier) (rest : List Identifier) :
    convertParameters k (Builder.formalParameterList name rest) =
      if (name :: rest).length ≤ k then .ok ((name :: rest).map identifierObject)
      else .error .recursionBound := by
  induction rest generalizing k name with
  | nil =>
      cases k with
      | zero => rfl
      | succ k =>
          rw [if_pos (by simp)]
          rfl
  | cons next rest ih =>
      cases k with
      | zero => rfl
      | succ k =>
          have hstep : convertParameters (k + 1) (Builder.formalParameterList name (next :: rest)) =
              (do return identifierObject name ::
                (← convertParameters k (Builder.formalParameterList next rest))) := rfl
          rw [hstep, ih k next]
          by_cases hk : (next :: rest).length ≤ k
          · rw [if_pos hk, if_pos (by simpa using hk)]
            rfl
          · rw [if_neg hk, if_neg (by simpa using hk)]
            rfl

/-! ## Sources -/

/-- **Every list keeps its elements, in order**: the statements of the program, of a block, of
the blocks of a `try` statement and of a function, the arguments of a call and of `new`, the
parameters of a function, the properties of an object, the operands of a comma expression and
the elements of an array that leaves none out.  Their array has one entry for each of them,
what its node is converted to, and the walk over the parameters comes to each of them once. -/
theorem lists_kept {source : List UChar} {j : Json} (h : reflectParse source = .tree j) :
    (∃ body start stop s', runParser source =
        .done (some (Builder.createSourceElements.appendAll body.build)) s' ∧
      Accepted source body start stop ∧ HasEntries .body body.build j) ∧
    Throughout (c := .stmt) KeepsLists source j ∧ Throughout (c := .expr) KeepsLists source j ∧
    ∀ k name rest, convertParameters k (Builder.formalParameterList name rest) =
      if (name :: rest).length ≤ k then .ok ((name :: rest).map identifierObject)
      else .error .recursionBound := by
  refine ⟨?_, throughout_of h fun p => ⟨fun _ _ => Phrase.Lists.entries_stmt,
    fun _ _ => Phrase.HasBlock.entries, ?_⟩,
    throughout_of h fun p => ⟨fun _ _ => Phrase.Lists.entries_expr,
      fun _ _ hb => absurd hb Phrase.HasBlock.not_expr, ?_⟩,
    convertParameters_chain⟩
  · obtain ⟨body, start, stop, s', hrun, haccepted, -, rfl⟩ := reflectParse_built h
    exact ⟨body, start, stop, s', hrun, haccepted, _, _, _, rfl, rfl, body.converts⟩
  · intro params body hp
    cases hp with
    | functionDecl name => exact describesFunction name params body
  · intro params body hp
    cases hp with
    | function name => exact describesFunction (name.getD []) params body

omit [Platform] in
/-- `f(a,b);` keeps the two arguments. -/
theorem lists_kept_call : ∃ j,
    @reflectParse exactPlatform (identifierOfChars "f(a,b);".toList) = .tree j ∧
    @Throughout exactPlatform .expr (@KeepsLists exactPlatform .expr)
      (identifierOfChars "f(a,b);".toList) j := by
  let _ : Platform := exactPlatform
  have hrun : (@reflectParse exactPlatform (identifierOfChars "f(a,b);".toList)).isTree
      (programValue [.object .expressionStatement [(.expression, .object .callExpression
        [(.callee, identifierObject (identifierOfChars ['f'])),
          (.arguments, .array [identifierObject (identifierOfChars ['a']),
            identifierObject (identifierOfChars ['b'])])])]]) = true := by
    decide +kernel
  exact ⟨_, ReflectResult.of_isTree hrun, (lists_kept (ReflectResult.of_isTree hrun)).2.2.1⟩

end HammerJS
