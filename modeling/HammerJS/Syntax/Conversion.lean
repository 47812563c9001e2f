import Mathlib.Data.List.Forall2
import HammerJS.Syntax.StatementsParsed
import HammerJS.Syntax.Values

/-!
# The conversion of what is built

`convertNode` on the nodes that the builder makes of phrases.

* `Converts` — the conversion of a node ends, and with which value.
* `Phrase.converts` — the conversion of `build` is `value`, for every phrase.
* `reflectParse_tree` — what a call of `Reflect.parse` that returns has read, and
  what it returns.
-/

namespace HammerJS

open Procs

/-! ## Heights -/

@[simp] theorem heights_nil : heights [] = 0 := rfl

@[simp] theorem heights_none (rest : List (Option Node)) :
    heights (none :: rest) = heights rest := rfl

@[simp] theorem heights_some (n : Node) (rest : List (Option Node)) :
    heights (some n :: rest) = max n.height (heights rest) := rfl

theorem Node.height_eq (n : Node) : n.height = heights n.children + 1 := by
  cases n
  rfl

theorem height_le_heights {n : Node} {children : List (Option Node)} (h : some n ∈ children) :
    n.height ≤ heights children := by
  induction children with
  | nil => cases h
  | cons child rest ih =>
      rcases List.mem_cons.mp h with rfl | hrest
      · exact le_max_left _ _
      · cases child with
        | none => exact ih hrest
        | some m => exact (ih hrest).trans (le_max_right _ _)

theorem Node.height_child {n m : Node} (h : some m ∈ n.children) : m.height < n.height := by
  have := height_le_heights h
  rw [n.height_eq]
  omega

/-! ## Conversion -/

theorem mapM_of_forall₂ {α β : Type} {f : α → Except Crash β} {xs : List α} {ys : List β}
    (h : List.Forall₂ (fun x y => f x = .ok y) xs ys) : xs.mapM f = .ok ys := by
  induction h with
  | nil => rfl
  | cons hxy _ ih =>
      simp only [List.mapM_cons, bind, Except.bind, pure, Except.pure] at ih ⊢
      rw [hxy, ih]

variable [Platform]

/-- The conversion of a child, which may be null, is `j`, with any bound of at least twice
its height.  The indentation tells a block from a program. -/
def Converts (child : Option Node) (j : Json) : Prop :=
  ∀ k indent, (∀ n, child = some n → 2 * n.height ≤ k) → 0 < indent →
    convertNode k child indent = .ok j

/-- The conversion of each of some nodes. -/
abbrev ConvertsAll (nodes : List Node) (js : List Json) : Prop :=
  List.Forall₂ (fun n j => Converts (some n) j) nodes js

theorem converts_none : Converts none .null := fun k _ _ _ => by cases k <;> rfl

theorem convertChild_of {n : Node} {index k indent : Nat} {j : Json}
    (h : Converts (n.children[index]?).join j) (hk : 2 * n.height ≤ k + 2) (hi : 0 < indent) :
    convertChild (convertNode k) n index indent = .ok j := by
  unfold convertChild
  cases hchild : n.children[index]? with
  | none =>
      rw [hchild] at h
      exact (h 1 1 (by simp) (by simp)).symm ▸ rfl
  | some child =>
      rw [hchild] at h
      refine h k indent (fun m hm => ?_) hi
      have hlt := Node.height_child (n := n) (m := m) (hm ▸ List.mem_of_getElem? hchild)
      omega

/-- The fields of an object, each with the child that it holds. -/
theorem convertFields_of {n : Node} {k indent : Nat} {type : ObjectType}
    {start rest : List (Field × Json)} {fields : List (Field × Nat)} {js : List Json}
    (h : List.Forall₂ (fun field j => Converts (n.children[field.2]?).join j) fields js)
    (hk : 2 * n.height ≤ k + 2) :
    convertFields (convertNode k) n indent type start fields rest =
      .ok (.object type (start ++ (fields.map Prod.fst).zip js ++ rest)) := by
  have hmap : (fields.mapM fun field => do
      return (field.1, ← convertChild (convertNode k) n field.2 (indent + 1))) =
        (.ok ((fields.map Prod.fst).zip js) : Except Crash _) := by
    refine mapM_of_forall₂ ?_
    induction h with
    | nil => exact .nil
    | cons hj _ ih =>
        refine .cons ?_ ih
        simp only [convertChild_of hj hk (Nat.succ_pos _)]
        rfl
  exact congrArg (Except.bind · fun converted =>
    .ok (Json.object type (start ++ converted ++ rest))) hmap

/-- The nodes of a list. -/
theorem convertChildren_of {n : Node} {nodes : List Node} {js : List Json} {k indent : Nat}
    (hn : n.children = nodes.map some) (h : ConvertsAll nodes js)
    (hk : ∀ m ∈ nodes, 2 * m.height ≤ k) :
    convertChildren (convertNode k) n indent = .ok (.array js) := by
  have hmap : (n.children.mapM fun child => convertNode k child (indent + 1)) = .ok js := by
    rw [hn]
    refine mapM_of_forall₂ ?_
    clear hn
    induction h with
    | nil => exact .nil
    | @cons m j _ _ hj _ ih =>
        refine .cons (hj k (indent + 1) (fun m hm => ?_) (Nat.succ_pos _))
          (ih fun m hm => hk m (List.mem_cons_of_mem _ hm))
        cases hm
        exact hk m (List.mem_cons_self ..)
  unfold convertChildren
  rw [hmap]
  rfl

/-- The nodes of a list, bounded by the node that holds them. -/
theorem convertChildren_node {n : Node} {nodes : List Node} {js : List Json} {k indent : Nat}
    (hn : n.children = nodes.map some) (h : ConvertsAll nodes js)
    (hk : 2 * n.height ≤ k + 2) :
    convertChildren (convertNode k) n indent = .ok (.array js) := by
  refine convertChildren_of hn h fun m hm => ?_
  have hlt : m.height < n.height := Node.height_child (hn ▸ List.mem_map_of_mem hm)
  omega

/-- The conversion of a node, one level down. -/
theorem converts_of {n : Node} {j : Json}
    (h : ∀ k indent, 2 * n.height ≤ k + 1 → 0 < indent →
      convertNode (k + 1) (some n) indent = .ok j) : Converts (some n) j := by
  intro k indent hk hi
  have hk := hk n rfl
  have hheight := n.height_eq
  obtain ⟨k, rfl⟩ : ∃ k', k = k' + 1 := ⟨k - 1, by omega⟩
  exact h k indent hk hi

/-- A node whose branch looks at no child. -/
theorem converts_leaf {n : Node} {j : Json}
    (h : ∀ k indent, convertNode (k + 1) (some n) indent = .ok j) : Converts (some n) j :=
  converts_of fun k indent _ _ => h k indent

/-- A node whose branch makes an object with a field for each of some children. -/
theorem converts_fields {n : Node} {type : ObjectType} {start rest : List (Field × Json)}
    {fields : List (Field × Nat)} {js : List Json} {j : Json}
    (hbranch : ∀ k indent, convertNode (k + 1) (some n) indent =
      convertFields (convertNode k) n indent type start fields rest)
    (h : List.Forall₂ (fun field j => Converts (n.children[field.2]?).join j) fields js)
    (hj : .object type (start ++ (fields.map Prod.fst).zip js ++ rest) = j) :
    Converts (some n) j := by
  refine converts_of fun k indent hk _ => ?_
  rw [hbranch, ← hj]
  exact convertFields_of h (by omega)

/-! ## Parts -/

/-- A node whose value is made of the nodes of a list that it holds. -/
theorem converts_list {n l : Node} {nodes : List Node} {js : List Json} {f : Json → Json}
    {j : Json}
    (hbranch : ∀ k indent, convertNode (k + 1) (some n) indent =
      (convertChildren (convertNode k) l (indent + 1)).map f)
    (hlist : some l ∈ n.children) (hnodes : l.children = nodes.map some)
    (h : ConvertsAll nodes js) (hj : f (.array js) = j) : Converts (some n) j := by
  refine converts_of fun k indent hk _ => ?_
  have hlt := Node.height_child hlist
  rw [hbranch, convertChildren_node hnodes h (by omega), ← hj]
  rfl

theorem converts_block {body : List Node} {js : List Json} (h : ConvertsAll body js) :
    Converts (some (blockNode body)) (blockValue js) := by
  cases h with
  | nil => exact converts_leaf fun _ _ => rfl
  | @cons n j body js hn h =>
      exact converts_list (l := .ofList .sourceElements (n :: body)) (fun _ _ => rfl)
        (List.mem_singleton_self _) rfl (.cons hn h) rfl

theorem converts_sourceElements {body : List Node} {js : List Json} (h : ConvertsAll body js) :
    Converts (some (.ofList .sourceElements body)) (blockValue js) := by
  refine converts_of fun k indent hk hi => ?_
  have hlist : convertChildren (convertNode k) (.ofList .sourceElements body) (indent + 1) =
      .ok (.array js) := convertChildren_node rfl h (by omega)
  change (do
    return Json.object (if 0 < indent then .blockStatement else .program)
      [(.body, ← convertChildren (convertNode k) _ (indent + 1))]) = _
  rw [hlist, if_pos hi]
  rfl

omit [Platform] in
/-- The names along the chain of parameters. -/
theorem convertParameters_of {k : Nat} (name : Identifier) (rest : List Identifier)
    (hk : (Builder.formalParameterList name rest).height ≤ k) :
    convertParameters k (Builder.formalParameterList name rest) =
      .ok ((name :: rest).map identifierObject) := by
  induction rest generalizing k name with
  | nil =>
      rw [Node.height_eq] at hk
      obtain ⟨k, rfl⟩ : ∃ k', k = k' + 1 := ⟨k - 1, by omega⟩
      rfl
  | cons next rest ih =>
      have hchild : (Builder.formalParameterList next rest).height <
          (Builder.formalParameterList name (next :: rest)).height :=
        Node.height_child (List.mem_singleton_self _)
      obtain ⟨k, rfl⟩ : ∃ k', k = k' + 1 := ⟨k - 1, by omega⟩
      change (do
        return identifierObject name ::
          (← convertParameters k (Builder.formalParameterList next rest))) = _
      rw [ih next (by omega)]
      rfl

theorem converts_parameters (name : Identifier) (rest : List Identifier) :
    Converts (some (Builder.formalParameterList name rest))
      (.array ((name :: rest).map identifierObject)) := by
  refine converts_of fun k indent hk _ => ?_
  have hparams := convertParameters_of (k := k + 1) name rest (by omega)
  cases rest <;>
  · change (do return Json.array (← convertParameters (k + 1) _)) = _
    rw [hparams]
    rfl

theorem converts_functionBody {body : List Node} {js : List Json} (h : ConvertsAll body js) :
    Converts (some (functionBodyNode body)) (blockValue js) := by
  cases h with
  | nil => exact converts_leaf fun _ _ => rfl
  | @cons n j body js hn h =>
      refine converts_of fun k indent hk hi => ?_
      refine converts_sourceElements (.cons hn h) k indent (fun m hm => ?_) hi
      have hlt : m.height < (functionBodyNode (n :: body)).height :=
        Node.height_child (hm ▸ List.mem_singleton_self _)
      omega

/-- A function, of either kind. -/
theorem converts_function {n : Node} {name : Identifier} {params : List Identifier}
    {body : List Node} {js : List Json} (h : ConvertsAll body js) (hname : n.identifier = name)
    (hbranch : ∀ k indent, convertNode (k + 1) (some n) indent =
      convertFunction (convertNode k) n indent)
    (hchildren : n.children = [parametersNode params, some (functionBodyNode body)]) :
    Converts (some n) (functionValue name params js) := by
  refine converts_of fun k indent hk _ => ?_
  have hbody : ∀ start, convertFields (convertNode k) n indent .functionExpression start
      [(.body, 1)] [] = .ok (.object .functionExpression (start ++ [(.body, blockValue js)])) := by
    intro start
    have hbody : Converts (n.children[1]?).join (blockValue js) := by
      rw [hchildren]
      exact converts_functionBody h
    rw [convertFields_of (.cons hbody .nil) (by omega), List.append_nil]
    rfl
  rw [hbranch]
  unfold convertFunction
  cases params with
  | nil =>
      have hfirst : n.firstChild = none := by simp only [Node.firstChild, hchildren]; rfl
      rw [hfirst, ← hname]
      exact hbody _
  | cons first rest =>
      have hfirst : n.firstChild = some (Builder.formalParameterList first rest) := by
        simp only [Node.firstChild, hchildren]; rfl
      have hparams : convertChild (convertNode k) n 0 (indent + 1) =
          .ok (.array ((first :: rest).map identifierObject)) := by
        refine convertChild_of ?_ (by omega) (Nat.succ_pos _)
        rw [hchildren]
        exact converts_parameters first rest
      simp only [hfirst, hparams, bind, Except.bind]
      rw [← hname]
      exact hbody _

/-- An operator with its operands. -/
theorem converts_operation {n : Node} {type : ObjectType} {fields : List (Field × Nat)}
    {rest : List (Field × Json)} {js : List Json} {j : Json}
    (hbranch : ∀ k indent, convertNode (k + 1) (some n) indent =
      convertOperation (convertNode k) n indent type fields rest)
    (hop : (operatorAsText n.op).isSome = true)
    (h : List.Forall₂ (fun field j => Converts (n.children[field.2]?).join j) fields js)
    (hj : .object type ((.operator, operatorText n.op) ::
      ((fields.map Prod.fst).zip js ++ rest)) = j) :
    Converts (some n) j := by
  obtain ⟨text, htext⟩ := Option.isSome_iff_exists.mp hop
  have hj : Json.object type ([(.operator, operatorText n.op)] ++ (fields.map Prod.fst).zip js ++
    rest) = j := hj
  refine converts_fields (fun k indent => ?_) h hj
  rw [hbranch]
  unfold convertOperation convertOperatorText operatorText
  rw [htext]
  rfl

/-- A node whose value is made of the list of its children. -/
theorem converts_children {n : Node} {nodes : List Node} {js : List Json} {f : Json → Json}
    {j : Json}
    (hbranch : ∀ k indent, convertNode (k + 1) (some n) indent =
      (convertChildren (convertNode k) n (indent + 1)).map f)
    (hn : n.children = nodes.map some) (h : ConvertsAll nodes js) (hj : f (.array js) = j) :
    Converts (some n) j := by
  refine converts_of fun k indent hk _ => ?_
  rw [hbranch, convertChildren_node hn h (by omega), ← hj]
  rfl

/-! ## Declarations -/

theorem converts_declaration {name : Identifier} {init : Option Node} {j : Option Json}
    (h : Option.Rel (fun n j => Converts (some n) j) init j) :
    Converts (some (declarationNode name init)) (declarationValue name j) := by
  cases h with
  | none => exact converts_leaf fun _ _ => rfl
  | some h =>
      exact converts_operation (fun _ _ => rfl) rfl
        (.cons (converts_leaf fun _ _ => rfl) (.cons h .nil)) rfl

omit [Platform] in
theorem combineDeclarations_comma (nodes rest : List Node) :
    combineDeclarations (.ofList .comma nodes) rest = .ofList .comma (nodes ++ rest) := by
  induction rest generalizing nodes with
  | nil => rw [List.append_nil]; rfl
  | cons n rest ih =>
      have hcomma : Builder.combineCommaNodes (some (.ofList .comma nodes)) n =
          .ofList .comma (nodes ++ [n]) := by
        simp [Builder.combineCommaNodes, Node.ofList, Node.append]
      rw [combineDeclarations, hcomma, ih, List.append_assoc, List.singleton_append]

theorem converts_declarations {first : Node} {rest : List Node} {j : Json} {js : List Json}
    (hfirst : first.type ≠ .comma) (h : Converts (some first) j) (hrest : ConvertsAll rest js) :
    Converts (some (combineDeclarations first rest)) (declarationsValue j js) := by
  cases hrest with
  | nil => exact h
  | @cons second j' rest js hsecond hrest =>
      have hcomma : combineDeclarations first (second :: rest) =
          .ofList .comma (first :: second :: rest) := by
        rw [combineDeclarations, Builder.combineCommaNodes, if_neg hfirst]
        exact combineDeclarations_comma [first, second] _
      rw [hcomma]
      exact converts_children (fun _ _ => rfl) rfl (.cons h (.cons hsecond hrest)) rfl

/-! ## Clauses -/

theorem converts_clause {test : Option Node} {j : Json} {body : List Node} {js : List Json}
    (htest : Converts test j) (h : ConvertsAll body js) :
    Converts (some (Builder.createClause test (.ofList .sourceElements body))) (caseValue j js) := by
  refine converts_of fun k indent hk _ => ?_
  let list := Node.ofList .sourceElements body
  let clause := Builder.createClause test list
  have hlist : clause.childAt 1 = .ok (some list) := rfl
  have hbody : convertNode k (some list) (indent + 1) = .ok (blockValue js) := by
    refine converts_sourceElements h k (indent + 1) (fun m hm => ?_) (Nat.succ_pos _)
    have hlt : m.height < clause.height :=
      Node.height_child (hm ▸ by simp [clause, Builder.createClause, Node.append, Node.ofChild, list])
    change 2 * clause.height ≤ k + 1 at hk
    omega
  have htests : List.Forall₂ (fun field j => Converts (clause.children[field.2]?).join j)
      [((.test : Field), 0)] [j] := .cons htest .nil
  have hheight : 2 * clause.height ≤ k + 1 := hk
  have hfields : convertFields (convertNode k) clause indent .switchCase [] [(.test, 0)]
      [(.consequent, .array [blockValue js])] = .ok (caseValue j js) :=
    convertFields_of htests (by omega)
  change convertClause (convertNode k) clause indent = _
  simp only [convertClause, show clause.children.isEmpty = false from rfl, hlist, hbody, bind,
    Except.bind, pure, Except.pure, Bool.false_eq_true, if_false]
  exact hfields

/-- A default clause, apart from its being a clause. -/
def ConvertsDefault (clause : Option Node) (js : Option (List Json)) : Prop :=
  Option.Rel (fun clause js => ∃ body, clause = Builder.createClause none
    (.ofList .sourceElements body) ∧ ConvertsAll body js) clause js

/-- The cases of a `switch`. -/
theorem convertCases_of {discriminant : Node} {first : List Node} {js : List Json}
    {default second : Option Node} {d : Option (List Json)} {k : Nat} (indent : Nat)
    (h : ConvertsAll first js) (hdefault : ConvertsDefault default d)
    (hk : 2 * (Builder.createSwitchStatement discriminant
      (Node.ofListOrNull .clauseList first) default second).height ≤ k + 1) :
    convertCases (convertNode k) (Builder.createSwitchStatement discriminant
      (Node.ofListOrNull .clauseList first) default second) indent = .ok (casesFields js d) := by
  have hbound : ∀ m, Node.ofListOrNull .clauseList first = some m ∨ default = some m →
      2 * m.height + 2 ≤ k + 1 := by
    intro m hm
    have hlt := Node.height_child (n := Builder.createSwitchStatement discriminant
      (Node.ofListOrNull .clauseList first) default second) (m := m) (by
        rcases hm with hm | hm <;>
          simp [Builder.createSwitchStatement, Node.append, Node.ofChild, hm])
    omega
  generalize hs : Builder.createSwitchStatement discriminant
    (Node.ofListOrNull .clauseList first) default second = n
  have hfirst : n.childAt 1 = .ok (Node.ofListOrNull .clauseList first) := by rw [← hs]; rfl
  have hsecond : n.childAt 2 = .ok default := by rw [← hs]; rfl
  simp only [convertCases, hfirst, hsecond, bind, Except.bind, pure, Except.pure]
  cases h with
  | nil =>
      cases hdefault with
      | none => rfl
      | @some clause js h =>
          obtain ⟨body, rfl, h⟩ := h
          have hclause := hbound _ (Or.inr rfl)
          have hbody : convertNode k (some (.ofList .sourceElements body)) (indent + 1 + 1) =
              .ok (blockValue js) := by
            refine converts_sourceElements h k _ (fun m hm => ?_) (Nat.succ_pos _)
            have hlt := Node.height_child (n := Builder.createClause none
              (.ofList .sourceElements body)) (m := m) (hm ▸ List.mem_cons_of_mem _
                (List.mem_singleton_self _))
            omega
          have hnull : convertNode k none (indent + 1 + 1) = .ok .null :=
            converts_none k _ (by simp) (Nat.succ_pos _)
          have hchildren : convertChildren (convertNode k)
              (Builder.createClause none (.ofList .sourceElements body)) (indent + 1) =
                .ok (.array [.null, blockValue js]) := by
            have hmap : [none, some (Node.ofList .sourceElements body)].mapM (fun child =>
                convertNode k child (indent + 1 + 1)) = .ok [.null, blockValue js] :=
              mapM_of_forall₂ (.cons hnull (.cons hbody .nil))
            unfold convertChildren
            rw [show (Builder.createClause none (.ofList .sourceElements body)).children =
              [none, some (Node.ofList .sourceElements body)] from rfl, hmap]
            rfl
          change (convertChildren (convertNode k) _ (indent + 1)).bind _ = _
          rw [hchildren]
          rfl
  | @cons m j first js hm h =>
      have hlist := hbound _ (Or.inl rfl)
      have hfirst : ∀ m' ∈ m :: first, 2 * m'.height + 4 ≤ k + 1 := by
        intro m' hm'
        have hlt : m'.height < (Node.ofList .clauseList (m :: first)).height :=
          Node.height_child (List.mem_map_of_mem hm')
        omega
      obtain ⟨k, rfl⟩ : ∃ k', k = k' + 1 := ⟨k - 1, by omega⟩
      cases hdefault with
      | none =>
          have hcases : convertNode (k + 1) (some (.ofList .clauseList (m :: first))) (indent + 1) =
              .ok (.array (j :: js)) :=
            convertChildren_of rfl (.cons hm h) fun m' hm' => by
              have := hfirst m' hm'
              omega
          change (convertNode (k + 1) (some (.ofList .clauseList (m :: first))) (indent + 1)).bind
            _ = _
          rw [hcases]
          rfl
      | @some clause ds hclause =>
          obtain ⟨body, rfl, hbody⟩ := hclause
          have hclause := hbound _ (Or.inr rfl)
          let clause := Builder.createClause none (.ofList .sourceElements body)
          have hcases : convertNode (k + 1) (some (.ofList .clauseList (m :: first ++ [clause])))
              (indent + 1) = .ok (.array (j :: js ++ [caseValue .null ds])) := by
            refine convertChildren_of rfl ?_ fun m' hm' => ?_
            · have hall : ConvertsAll (m :: first) (j :: js) := .cons hm h
              have hlast : ConvertsAll [clause] [caseValue .null ds] :=
                .cons (converts_clause converts_none hbody) .nil
              exact List.rel_append hall hlast
            · rcases List.mem_append.mp hm' with hm' | hm'
              · have := hfirst m' hm'
                omega
              · rw [List.mem_singleton.mp hm']
                change 2 * clause.height + 2 ≤ _ at hclause
                omega
          have happend : (Node.ofList .clauseList (m :: first)).append (some clause) =
              .ofList .clauseList (m :: first ++ [clause]) := by
            simp [Node.append, Node.ofList]
          change (convertNode (k + 1)
            (some ((Node.ofList .clauseList (m :: first)).append (some clause)))
              (indent + 1)).bind _ = _
          rw [happend, hcases]
          rfl

/-! ## Every phrase -/

/-- The conversion of what is built of a phrase of the category. -/
def Category.Converts : (c : Category) → c.Built → c.Value → Prop
  | .expr, n, j | .prop, n, j | .stmt, n, j => HammerJS.Converts (some n) j
  | .opt, n, j | .finalizer, n, j => HammerJS.Converts n j
  | .handler, (_, n), j => HammerJS.Converts n j
  | .args, n, js => HammerJS.Converts (some n) (.array js)
  | .exprs, ns, js | .elements, ns, js | .props, ns, js | .stmts, ns, js | .clauses, ns, js
  | .decls, ns, js => ConvertsAll ns js
  | .init, n, j => Option.Rel (fun n j => HammerJS.Converts (some n) j) n j
  | .default, n, js => ConvertsDefault n js

omit [Platform] in
theorem operatorAsText_isSome {op : OperatorType} (h : op ≠ .noOperator) :
    (operatorAsText op).isSome = true := by
  cases op <;> first | rfl | exact absurd rfl h

omit [Platform] in
theorem convertOperator_ne (op : Operator) : convertOperator op ≠ .noOperator := by
  cases op <;> decide

omit [Platform] in
theorem convertToken_ne (t : JSTokenType) : convertToken t ≠ some .noOperator := by
  cases t <;> decide

omit [Platform] in
theorem BinaryToken.operator_ne (op : BinaryToken) : op.operator ≠ .noOperator := by
  intro h
  refine convertToken_ne op.1 ?_
  rw [← h]
  exact (Option.some_get _).symm

omit [Platform] in
theorem declarationNode_type (name : Identifier) (init : Option Node) :
    (declarationNode name init).type ≠ .comma := by
  cases init <;> exact NodeType.noConfusion

/-- A prefix operator with its operand. -/
theorem converts_unary {t : JSTokenType} {n : Node} {j : Json} (ht : t.isUnaryOp = true)
    (h : Converts (some n) j) : Converts (some (unaryNode t n)) (prefixValue t j) := by
  cases t <;> first
    | exact absurd ht (by decide)
    | exact converts_operation (fun _ _ => rfl) rfl (.cons h .nil) rfl
    | exact converts_fields (fun _ _ => rfl) (.cons converts_none .nil) rfl

theorem converts_arguments {list : List Node} {js : List Json} (h : ConvertsAll list js)  :
    Converts (some (Builder.createArguments (some (.ofList .argumentsList list)))) (.array js) := by
  refine converts_of fun k indent hk hi => ?_
  have hlist : Converts (some (.ofList .argumentsList list)) (.array js) :=
    converts_children (f := id) (fun k indent => by
      change _ = Except.map id _
      rw [Except.map_id]
      rfl) rfl h rfl
  refine hlist k indent (fun m hm => ?_) hi
  have hlt := Node.height_child (n := Builder.createArguments
    (some (.ofList .argumentsList list))) (m := m) (hm ▸ List.mem_singleton_self _)
  omega

theorem converts_forInVar {name : Identifier} {init : Option Node} {initValue : Option Json}
    {right body : Node} {rightValue bodyValue : Json}
    (hinit : Option.Rel (fun n j => Converts (some n) j) init initValue)
    (hright : Converts (some right) rightValue) (hbody : Converts (some body) bodyValue) :
    Converts (some (Builder.createForInVar name init right body))
      (forInVarValue name initValue rightValue bodyValue) := by
  cases hinit with
  | none => exact converts_fields (fun _ _ => rfl) (.cons hright (.cons hbody .nil)) rfl
  | some _ => exact converts_fields (fun _ _ => rfl) (.cons hright (.cons hbody .nil)) rfl

theorem converts_switch {discriminant : Node} {j : Json} {first : List Node} {js : List Json}
    {default second : Option Node} {d : Option (List Json)}
    (hdiscriminant : Converts (some discriminant) j) (h : ConvertsAll first js)
    (hdefault : ConvertsDefault default d) :
    Converts (some (Builder.createSwitchStatement discriminant
      (Node.ofListOrNull .clauseList first) default second))
        (.object .switchStatement ((.discriminant, j) :: casesFields js d)) := by
  refine converts_of fun k indent hk _ => ?_
  have hcases := convertCases_of indent h hdefault hk
  generalize hs : Builder.createSwitchStatement discriminant
    (Node.ofListOrNull .clauseList first) default second = n at *
  have hchild : convertChild (convertNode k) n 0 (indent + 1) = .ok j :=
    convertChild_of (by rw [← hs]; exact hdiscriminant) (by omega) (Nat.succ_pos _)
  have hbranch : convertNode (k + 1) (some n) indent = (do
      let discriminant ← convertChild (convertNode k) n 0 (indent + 1)
      return Json.object .switchStatement
        ((.discriminant, discriminant) :: (← convertCases (convertNode k) n indent))) := by
    rw [← hs]
    rfl
  rw [hbranch, hchild, hcases]
  rfl

/-- **The conversion of what is built of a phrase** ends, and with the value of the phrase. -/
theorem Phrase.converts {c : Category} (p : Phrase c) : c.Converts p.build p.value := by
  induction p with
  | this | resolve | string | number | null | boolean | emptyArray | emptyObject | empty =>
      exact converts_leaf fun _ _ => rfl
  | regExp => exact converts_leaf fun _ _ => rfl
  | paren e ih => exact ih
  | noExprs | noElements | trailingElisions | noProps | trailingComma | noStmts | noClauses
  | noDecls => exact .nil
  | moreExprs e rest he hrest => exact .cons he hrest
  | moreElements elisions e rest he hrest => exact .cons he hrest
  | moreProps p rest hp hrest => exact .cons hp hrest
  | moreStmts first rest hfirst hrest => exact .cons hfirst hrest
  | moreClauses test body rest htest hbody hrest =>
      exact .cons (converts_clause htest hbody) hrest
  | moreDecls name init rest hinit hrest => exact .cons (converts_declaration hinit) hrest
  | absent | noHandler | noFinalizer => exact converts_none
  | present e ih => exact ih
  | noInit | noDefault => exact .none
  | initializer e ih => exact .some ih
  | defaultClause body ih => exact .some ⟨body.build, rfl, ih⟩
  | array elisions first rest hfirst hrest =>
      exact converts_list (l := .ofList .elementList (first.build :: rest.build))
        (fun _ _ => rfl) (List.mem_singleton_self _) rfl (.cons hfirst hrest) rfl
  | object first rest hfirst hrest =>
      exact converts_list (l := .ofList .propertyList (first.build :: rest.build))
        (fun _ _ => rfl) (List.mem_singleton_self _) rfl (.cons hfirst hrest) rfl
  | function name params body ih => exact converts_function ih rfl (fun _ _ => rfl) rfl
  | functionDecl name params body ih => exact converts_function ih rfl (fun _ _ => rfl) rfl
  | bracket base property hbase hproperty =>
      exact converts_fields (fun _ _ => rfl) (.cons hbase (.cons hproperty .nil)) rfl
  | dot base property ih => exact converts_fields (fun _ _ => rfl) (.cons ih .nil) rfl
  | call callee args hcallee hargs =>
      exact converts_fields (fun _ _ => rfl) (.cons hcallee (.cons hargs .nil)) rfl
  | newArgs callee args hcallee hargs =>
      exact converts_fields (fun _ _ => rfl) (.cons hcallee (.cons hargs .nil)) rfl
  | newNoArgs callee ih => exact converts_fields (fun _ _ => rfl) (.cons ih .nil) rfl
  | unary op e ih => exact converts_unary op.2 ih
  | postOp increment e ih =>
      cases increment <;>
        exact converts_operation (fun _ _ => rfl) rfl (.cons ih .nil) rfl
  | binary left op right hleft hright =>
      exact converts_operation (fun _ _ => rfl) (operatorAsText_isSome op.operator_ne)
        (.cons hleft (.cons hright .nil)) rfl
  | cond test left right htest hleft hright =>
      exact converts_fields (fun _ _ => rfl) (.cons htest (.cons hleft (.cons hright .nil))) rfl
  | assign left op right hleft hright =>
      exact converts_operation (fun _ _ => rfl)
        (operatorAsText_isSome (convertOperator_ne op.operator))
        (.cons hleft (.cons hright .nil)) rfl
  | comma first second rest hfirst hsecond hrest =>
      exact converts_children (fun _ _ => rfl) rfl (.cons hfirst (.cons hsecond hrest)) rfl
  | noArgs => exact converts_leaf fun _ _ => rfl
  | arguments first rest hfirst hrest =>
      exact converts_arguments (.cons hfirst hrest)
  | prop t name value ih => exact converts_fields (fun _ _ => rfl) (.cons ih .nil) rfl
  | numericProp name value ih => exact converts_fields (fun _ _ => rfl) (.cons ih .nil) rfl
  | block body ih => exact converts_block ih
  | varDecl name init rest semi hinit hrest =>
      exact converts_children (fun _ _ => rfl) rfl
        (.cons (converts_declarations (declarationNode_type _ _) (converts_declaration hinit)
          hrest) .nil) rfl
  | ifThen test yes htest hyes =>
      exact converts_fields (fun _ _ => rfl)
        (.cons htest (.cons hyes (.cons converts_none .nil))) rfl
  | ifElse test yes no htest hyes hno =>
      exact converts_fields (fun _ _ => rfl) (.cons htest (.cons hyes (.cons hno .nil))) rfl
  | doWhile body test semi hbody htest =>
      exact converts_fields (fun _ _ => rfl) (.cons hbody (.cons htest .nil)) rfl
  | «while» test body htest hbody =>
      exact converts_fields (fun _ _ => rfl) (.cons htest (.cons hbody .nil)) rfl
  | «for» init test update body hinit htest hupdate hbody =>
      exact converts_fields (fun _ _ => rfl)
        (.cons hinit (.cons htest (.cons hupdate (.cons hbody .nil)))) rfl
  | forVar name init rest t skipped test update body hinit hrest htest hupdate hbody =>
      exact converts_fields (fun _ _ => rfl)
        (.cons (converts_declarations (declarationNode_type _ _) (converts_declaration hinit)
          hrest) (.cons htest (.cons hupdate (.cons hbody .nil)))) rfl
  | forIn left right body hleft hright hbody =>
      exact converts_fields (fun _ _ => rfl) (.cons hright (.cons hbody .nil)) rfl
  | forInVar name init right body hinit hright hbody =>
      exact converts_forInVar hinit hright hbody
  | «continue» label semi => cases label <;> exact converts_leaf fun _ _ => rfl
  | «break» label semi => cases label <;> exact converts_leaf fun _ _ => rfl
  | «return» e semi ih => exact converts_fields (fun _ _ => rfl) (.cons ih .nil) rfl
  | throw e semi ih => exact converts_fields (fun _ _ => rfl) (.cons ih .nil) rfl
  | «with» subject body hsubject hbody =>
      exact converts_fields (fun _ _ => rfl) (.cons hsubject (.cons hbody .nil)) rfl
  | switch discriminant first default second hdiscriminant hfirst hdefault hsecond =>
      exact converts_switch hdiscriminant hfirst hdefault
  | «try» body handler finalizer hbody hhandler hfinalizer =>
      exact converts_fields (fun _ _ => rfl)
        (.cons (converts_block hbody) (.cons hhandler (.cons hfinalizer .nil))) rfl
  | debugger => exact converts_leaf fun _ _ => rfl
  | labelled => exact converts_leaf fun _ _ => rfl
  | exprStmt e semi ih => exact converts_fields (fun _ _ => rfl) (.cons ih .nil) rfl
  | «catch» name body ih => exact converts_block ih
  | «finally» body ih => exact converts_block ih

/-! ## The program -/

/-- A program. -/
def programValue (body : List Json) : Json := .object .program [(.body, .array body)]

/-- The conversion of the tree that the parser returns. -/
theorem convertOutcome_program (body : Phrase .stmts) (s : ParserState) :
    convertOutcome (.done (some (Builder.createSourceElements.appendAll body.build)) s) =
      .tree (programValue body.value) := by
  let tree := Node.ofList .sourceElements body.build
  have hheight := tree.height_eq
  have hchildren : convertChildren (convertNode (2 * tree.height - 1)) tree 1 =
      .ok (.array body.value) :=
    convertChildren_node rfl body.converts (by omega)
  have htree : convertNode (2 * tree.height) (some tree) 0 = .ok (programValue body.value) := by
    obtain ⟨k, hk⟩ : ∃ k, 2 * tree.height = k + 1 := ⟨2 * tree.height - 1, by omega⟩
    rw [hk] at hchildren ⊢
    change (convertChildren (convertNode k) tree 1).bind _ = _
    rw [show k = k + 1 - 1 from rfl, hchildren]
    rfl
  unfold convertOutcome
  simp only [show Builder.createSourceElements.appendAll body.build = tree from rfl, htree]

/-- A source that `Reflect.parse` accepts: the statements it consists of, up to a token that
ends a list of statements. -/
structure Accepted (source : List UChar) (body : Phrase .stmts) (start stop : Stream) : Prop where
  next : (initialState source).stream.Next .identifyReservedWords start
  reads : Reads body.lexemes start stop
  ends : endsStatements stop.token.type = true

/-- What the parser has built, and how much of the source it is. -/
theorem reflectParse_built {source : List UChar} {j : Json} (h : reflectParse source = .tree j) :
    ∃ body start stop s', runParser source =
        .done (some (Builder.createSourceElements.appendAll body.build)) s' ∧
      Accepted source body start stop ∧ body.Legal true ∧ j = programValue body.value := by
  unfold reflectParse at h
  cases hrun : runParser source with
  | fault e => rw [hrun] at h; cases h
  | timeout => rw [hrun] at h; cases h
  | done r s' =>
      cases r with
      | none => rw [hrun] at h; cases h
      | some tree =>
          obtain ⟨s₁, hnext, ⟨body, rfl, hread, hlegal⟩, hends⟩ := createSyntaxTree_parsed hrun
          rw [hrun, convertOutcome_program] at h
          cases h
          exact ⟨body, s₁.stream, s'.stream, s', rfl, ⟨hnext.eq.1, hread.reads, hends⟩, hlegal, rfl⟩

/-- **What `Reflect.parse` returns** is the value of the statements that it has read. -/
theorem reflectParse_tree {source : List UChar} {j : Json} (h : reflectParse source = .tree j) :
    ∃ body start stop, Accepted source body start stop ∧ body.Legal true ∧
      j = programValue body.value := by
  obtain ⟨body, start, stop, -, -, h⟩ := reflectParse_built h
  exact ⟨body, start, stop, h⟩

/-- The conversion itself never crashes. -/
theorem fault_of_crashed {source : List UChar} {e : Crash}
    (h : reflectParse source = .crashed e) : runParser source = .fault e := by
  unfold reflectParse at h
  cases hrun : runParser source with
  | fault e' => rw [hrun] at h; cases h; rfl
  | timeout => rw [hrun] at h; cases h
  | done r s' =>
      cases r with
      | none => rw [hrun] at h; cases h
      | some tree =>
          obtain ⟨s₁, -, ⟨body, rfl, -⟩, -⟩ := createSyntaxTree_parsed hrun
          rw [hrun, convertOutcome_program] at h
          cases h

end HammerJS
