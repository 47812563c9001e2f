import HammerJS.Reflect.Outcomes

/-!
# What `new` binds to

The loop of `parseMemberExpression`, and the three nonterminals of the grammar that it
stands for.

* `MemberExpression`, `NewExpression`, `CallExpression` — the grammar, over the number
  of `new` tokens, the expression behind them and its suffixes.
* `SuffixesRead` — what the loop reads.
* `memberExpression_iff` — the production returns the one tree that the grammar has for
  what it reads.
-/

namespace HammerJS

open Procs Machine Lexer Parse

/-! ## The grammar -/

/-- What stands behind the first expression of a member expression. -/
inductive Suffix where
  | dot (name : Identifier)
  | bracket (property : Node)
  | arguments (args : Node)

/-- `MemberExpression`: `newCount` tokens `new`, the expression `p` and the suffixes
derive a tree. -/
inductive MemberExpression (p : Node) : Nat → List Suffix → Node → Prop
  | base : MemberExpression p 0 [] p
  | bracket {newCount suffixes e} (property : Node) (h : MemberExpression p newCount suffixes e) :
      MemberExpression p newCount (suffixes ++ [.bracket property])
        (Builder.createBracketAccess e property)
  | dot {newCount suffixes e} (name : Identifier) (h : MemberExpression p newCount suffixes e) :
      MemberExpression p newCount (suffixes ++ [.dot name]) (Builder.createDotAccess e name)
  | new {newCount suffixes e} (args : Node) (h : MemberExpression p newCount suffixes e) :
      MemberExpression p (newCount + 1) (suffixes ++ [.arguments args])
        (Builder.createNewExpr e args)

/-- `NewExpression`. -/
inductive NewExpression (p : Node) : Nat → List Suffix → Node → Prop
  | member {newCount suffixes e} (h : MemberExpression p newCount suffixes e) :
      NewExpression p newCount suffixes e
  | new {newCount suffixes e} (h : NewExpression p newCount suffixes e) :
      NewExpression p (newCount + 1) suffixes (Builder.createNewExprNoArguments e)

/-- `CallExpression`. -/
inductive CallExpression (p : Node) : Nat → List Suffix → Node → Prop
  | member {newCount suffixes e} (args : Node) (h : MemberExpression p newCount suffixes e) :
      CallExpression p newCount (suffixes ++ [.arguments args])
        (Builder.makeFunctionCallNode e args)
  | call {newCount suffixes e} (args : Node) (h : CallExpression p newCount suffixes e) :
      CallExpression p newCount (suffixes ++ [.arguments args])
        (Builder.makeFunctionCallNode e args)
  | bracket {newCount suffixes e} (property : Node) (h : CallExpression p newCount suffixes e) :
      CallExpression p newCount (suffixes ++ [.bracket property])
        (Builder.createBracketAccess e property)
  | dot {newCount suffixes e} (name : Identifier) (h : CallExpression p newCount suffixes e) :
      CallExpression p newCount (suffixes ++ [.dot name]) (Builder.createDotAccess e name)

/-- `LeftHandSideExpression`. -/
def LeftHandSideExpression (p : Node) (newCount : Nat) (suffixes : List Suffix) (e : Node) : Prop :=
  NewExpression p newCount suffixes e ∨ CallExpression p newCount suffixes e

/-! ## Nodes -/

/-- What a suffix makes of the expression in front of it; its arguments go into a node of the
given type. -/
def Suffix.Makes (type : NodeType) (base e : Node) : Suffix → Prop
  | .dot name => e.Has .dotAccess .noOperator [base] ∧ e.identifier = name
  | .bracket property => e.Has .bracketAccess .noOperator [base, property]
  | .arguments args => e.Has type .noOperator [base, args]

/-- The `new` tokens that a suffix of a member expression takes. -/
def Suffix.newCount : Suffix → Nat
  | .arguments _ => 1
  | _ => 0

section Nodes

variable {p e : Node} {newCount : Nat} {suffixes : List Suffix}

/-- The node of a member expression belongs to its last suffix: arguments are those of `new`. -/
theorem MemberExpression.node (h : MemberExpression p newCount suffixes e) :
    newCount = 0 ∧ suffixes = [] ∧ e = p ∨
      ∃ init suffix n base, suffixes = init ++ [suffix] ∧ newCount = n + suffix.newCount ∧
        MemberExpression p n init base ∧ suffix.Makes .newExpression base e := by
  cases h with
  | base => exact Or.inl ⟨rfl, rfl, rfl⟩
  | bracket property h => exact Or.inr ⟨_, _, _, _, rfl, rfl, h, rfl, rfl, rfl⟩
  | dot name h => exact Or.inr ⟨_, _, _, _, rfl, rfl, h, ⟨rfl, rfl, rfl⟩, rfl⟩
  | new args h => exact Or.inr ⟨_, _, _, _, rfl, rfl, h, rfl, rfl, rfl⟩

/-- A `new` that finds no arguments has a node of its own, with the rest as its child. -/
theorem NewExpression.node (h : NewExpression p newCount suffixes e) :
    MemberExpression p newCount suffixes e ∨
      ∃ n base, newCount = n + 1 ∧ NewExpression p n suffixes base ∧
        e.Has .expression .noOperator [base] := by
  cases h with
  | member h => exact Or.inl h
  | new h => exact Or.inr ⟨_, _, rfl, h, rfl, rfl, rfl⟩

/-- The node of a call expression belongs to its last suffix: arguments are those of a call,
and the first of them stand behind a member expression. -/
theorem CallExpression.node (h : CallExpression p newCount suffixes e) :
    ∃ init suffix base, suffixes = init ++ [suffix] ∧
      (CallExpression p newCount init base ∨
        (∃ args, suffix = .arguments args) ∧ MemberExpression p newCount init base) ∧
      suffix.Makes .functionCall base e := by
  cases h with
  | member args h => exact ⟨_, _, _, rfl, Or.inr ⟨⟨args, rfl⟩, h⟩, rfl, rfl, rfl⟩
  | call args h => exact ⟨_, _, _, rfl, Or.inl h, rfl, rfl, rfl⟩
  | bracket property h => exact ⟨_, _, _, rfl, Or.inl h, rfl, rfl, rfl⟩
  | dot name h => exact ⟨_, _, _, rfl, Or.inl h, ⟨rfl, rfl, rfl⟩, rfl⟩

end Nodes

/-! ## One tree for each expression -/

/-- What the loop of `parseMemberExpression` makes of the suffixes, from left to right:
an expression, and the number of `new` tokens that have found no arguments. -/
def applySuffixes : Node → Nat → List Suffix → Node × Nat
  | base, newCount, [] => (base, newCount)
  | base, newCount, .dot name :: rest =>
      applySuffixes (Builder.createDotAccess base name) newCount rest
  | base, newCount, .bracket property :: rest =>
      applySuffixes (Builder.createBracketAccess base property) newCount rest
  | base, n + 1, .arguments args :: rest => applySuffixes (Builder.createNewExpr base args) n rest
  | base, 0, .arguments args :: rest =>
      applySuffixes (Builder.makeFunctionCallNode base args) 0 rest

/-- The tree that `parseMemberExpression` builds. -/
def bindNew (base : Node) (newCount : Nat) (suffixes : List Suffix) : Node :=
  createNewExprs (applySuffixes base newCount suffixes).1 (applySuffixes base newCount suffixes).2

section Grammar

variable {p e : Node} {newCount : Nat} {suffixes : List Suffix}

/-- A member expression takes all its `new` tokens; those before it are left. -/
theorem MemberExpression.applySuffixes (h : MemberExpression p newCount suffixes e) (n : Nat)
    (rest : List Suffix) :
    applySuffixes p (newCount + n) (suffixes ++ rest) = applySuffixes e n rest := by
  induction h generalizing n rest with
  | base => simp
  | bracket property h ih => rw [List.append_assoc, ih]; rfl
  | dot name h ih => rw [List.append_assoc, ih]; rfl
  | @new newCount suffixes e args h ih =>
      rw [List.append_assoc, show newCount + 1 + n = newCount + (n + 1) by omega, ih]
      rfl

theorem CallExpression.applySuffixes (h : CallExpression p newCount suffixes e)
    (rest : List Suffix) :
    applySuffixes p newCount (suffixes ++ rest) = applySuffixes e 0 rest := by
  induction h generalizing rest with
  | member args h => rw [List.append_assoc, ← Nat.add_zero newCount, h.applySuffixes]; rfl
  | call args h ih => rw [List.append_assoc, ih]; rfl
  | bracket property h ih => rw [List.append_assoc, ih]; rfl
  | dot name h ih => rw [List.append_assoc, ih]; rfl

theorem createNewExprs_succ (base : Node) (n : Nat) :
    createNewExprs base (n + 1) = Builder.createNewExprNoArguments (createNewExprs base n) := by
  induction n generalizing base with
  | zero => rfl
  | succ n ih => exact ih (Builder.createNewExprNoArguments base)

/-- The `new` tokens in front of a new expression that it does not take. -/
theorem NewExpression.applySuffixes (h : NewExpression p newCount suffixes e) :
    ∃ base n, applySuffixes p newCount suffixes = (base, n) ∧ e = createNewExprs base n := by
  have key : ∃ m n base, newCount = m + n ∧ MemberExpression p m suffixes base ∧
      e = createNewExprs base n := by
    induction h with
    | member h => exact ⟨_, 0, _, rfl, h, rfl⟩
    | new h ih =>
        obtain ⟨m, n, base, rfl, hbase, rfl⟩ := ih
        exact ⟨m, n + 1, base, rfl, hbase, (createNewExprs_succ base n).symm⟩
  obtain ⟨m, n, base, rfl, hbase, rfl⟩ := key
  refine ⟨base, n, ?_, rfl⟩
  rw [← List.append_nil suffixes, hbase.applySuffixes]
  rfl

/-- What the grammar derives is what the loop builds. -/
theorem LeftHandSideExpression.eq_bindNew (h : LeftHandSideExpression p newCount suffixes e) :
    e = bindNew p newCount suffixes := by
  unfold bindNew
  rcases h with h | h
  · obtain ⟨base, n, happly, rfl⟩ := h.applySuffixes
    rw [happly]
  · rw [← List.append_nil suffixes, h.applySuffixes]
    rfl

theorem NewExpression.createNewExprs (h : NewExpression p newCount suffixes e) (n : Nat) :
    NewExpression p (newCount + n) suffixes (createNewExprs e n) := by
  induction n with
  | zero => exact h
  | succ n ih =>
      rw [createNewExprs_succ]
      exact ih.new

theorem CallExpression.applySuffixes_derives (h : CallExpression p newCount suffixes e)
    (rest : List Suffix) :
    CallExpression p newCount (suffixes ++ rest) (bindNew e 0 rest) := by
  induction rest generalizing suffixes e with
  | nil => rw [List.append_nil]; exact h
  | cons suffix rest ih =>
      rw [List.append_cons]
      cases suffix with
      | dot name => exact ih (h.dot name)
      | bracket property => exact ih (h.bracket property)
      | arguments args => exact ih (h.call args)

theorem MemberExpression.applySuffixes_derives (h : MemberExpression p newCount suffixes e) (n : Nat)
    (rest : List Suffix) :
    LeftHandSideExpression p (newCount + n) (suffixes ++ rest) (bindNew e n rest) := by
  induction rest generalizing newCount suffixes e n with
  | nil =>
      rw [List.append_nil]
      exact Or.inl (NewExpression.createNewExprs (.member h) n)
  | cons suffix rest ih =>
      rw [List.append_cons]
      cases suffix with
      | dot name => exact ih (h.dot name) n
      | bracket property => exact ih (h.bracket property) n
      | arguments args =>
          cases n with
          | zero => exact Or.inr ((CallExpression.member args h).applySuffixes_derives rest)
          | succ n =>
              rw [show newCount + (n + 1) = newCount + 1 + n by omega]
              exact ih (h.new args) n

/-- What the loop builds is what the grammar derives. -/
theorem leftHandSideExpression_iff :
    LeftHandSideExpression p newCount suffixes e ↔ e = bindNew p newCount suffixes := by
  constructor
  · exact LeftHandSideExpression.eq_bindNew
  · rintro rfl
    simpa using MemberExpression.applySuffixes_derives (.base (p := p)) newCount suffixes

end Grammar

/-! ## What is read -/

variable [Platform]

/-- So many `new` tokens lead from `s` to `s'`. -/
inductive NewTokens : Nat → ParserState → ParserState → Prop
  | zero {s} : NewTokens 0 s s
  | succ {n s t s'} (ht : s.token.type = .new) (hn : s.Next .identifyReservedWords t)
      (h : NewTokens n t s') : NewTokens (n + 1) s s'

/-- A function expression or a primary expression was read. -/
inductive BaseRead (s : ParserState) (p : Node) (s' : ParserState) : Prop
  | function {t info} (ht : s.token.type = .function) (hn : s.Next .identifyReservedWords t)
      (h : parser.Returns (.functionInfo false) t (some info) s')
      (hp : p = Builder.createFunctionExpr (info.name.getD []) info.body info.parameters)
  | primary (h : parser.Returns .primaryExpression s (some p) s')

/-- Suffixes were read, behind so many `new` tokens that had no arguments yet.
`m_nonLHSCount` is put back behind brackets, and behind the arguments of a call. -/
inductive SuffixesRead : Nat → ParserState → List Suffix → ParserState → Prop
  | nil {n s} : SuffixesRead n s [] s
  | dot {n s t u rest s'} (ht : s.token.type = .dot) (hn : s.Next .ignoreReservedWords t)
      (hname : t.token.type = .ident) (hn' : t.Next .identifyReservedWords u)
      (h : SuffixesRead n u rest s') : SuffixesRead n s (.dot t.token.data.getIdent :: rest) s'
  | bracket {n s t property u v rest s'} (ht : s.token.type = .openBracket)
      (hn : s.Next .identifyReservedWords t)
      (hproperty : parser.Returns .expression t (some property) u)
      (hclose : u.token.type = .closeBracket) (hn' : u.Next .identifyReservedWords v)
      (h : SuffixesRead n
        { v with regs := { v.regs with nonLHSCount := t.regs.nonLHSCount } } rest s') :
      SuffixesRead n s (.bracket property :: rest) s'
  | newArguments {n s args t rest s'} (ht : s.token.type = .openParen)
      (hargs : parser.Returns .arguments s (some args) t) (h : SuffixesRead n t rest s') :
      SuffixesRead (n + 1) s (.arguments args :: rest) s'
  | callArguments {s args t rest s'} (ht : s.token.type = .openParen)
      (hargs : parser.Returns .arguments s (some args) t)
      (h : SuffixesRead 0
        { t with regs := { t.regs with nonLHSCount := s.regs.nonLHSCount } } rest s') :
      SuffixesRead 0 s (.arguments args :: rest) s'

/-- The tokens that start a suffix. -/
def startsSuffix : JSTokenType → Bool
  | .dot | .openBracket | .openParen => true
  | _ => false

/-! ## What the production returns -/

section Runs

variable {s s' : ParserState} {base node : Node} {newCount n : Nat} {suffixes : List Suffix}

/-- The suffixes that are read are applied. -/
theorem SuffixesRead.returns (h : SuffixesRead newCount s suffixes s')
    (hend : startsSuffix s'.token.type = false) (base : Node) :
    parser.Returns (.memberLoop base newCount) s (some (applySuffixes base newCount suffixes))
      s' := by
  induction h generalizing base with
  | nil =>
      refine parser_returns_iff.mpr (gives_tokenType.mpr ?_)
      split
      · rename_i ht
        rw [ht] at hend
        cases hend
      · rename_i ht
        rw [ht] at hend
        cases hend
      · rename_i ht
        rw [ht] at hend
        cases hend
      · exact gives_pure.mpr ⟨rfl, rfl⟩
  | @dot n s t u rest s' ht hn hname hn' h ih =>
      refine parser_returns_iff.mpr (gives_tokenType.mpr ?_)
      rw [ht]
      refine gives_next.mpr ⟨t, hn, gives_matchOrFail.mpr ⟨hname, gives_tokenData.mpr ?_⟩⟩
      refine gives_next.mpr ⟨u, hn', gives_parse.mpr ⟨_, _, ih hend _, ?_⟩⟩
      exact gives_answer.mpr ⟨rfl, rfl⟩
  | @bracket n s t property u v rest s' ht hn hproperty hclose hn' h ih =>
      refine parser_returns_iff.mpr (gives_tokenType.mpr ?_)
      rw [ht]
      refine gives_next.mpr ⟨t, hn, gives_nonLHSCount.mpr (gives_parse.mpr ⟨_, u, hproperty, ?_⟩)⟩
      refine gives_failIfNull.mpr ⟨property, rfl, gives_consume.mpr ⟨hclose, v, hn', ?_⟩⟩
      refine gives_setNonLHSCount.mpr (gives_parse.mpr ⟨_, _, ih hend _, ?_⟩)
      exact gives_answer.mpr ⟨rfl, rfl⟩
  | @newArguments n s args t rest s' ht hargs h ih =>
      refine parser_returns_iff.mpr (gives_tokenType.mpr ?_)
      rw [ht]
      refine gives_ifToken.mpr ?_
      rw [if_pos ht]
      refine gives_parse.mpr ⟨_, t, hargs, gives_failIfNull.mpr ⟨args, rfl, ?_⟩⟩
      exact gives_parse.mpr ⟨_, _, ih hend _, gives_answer.mpr ⟨rfl, rfl⟩⟩
  | @callArguments s args t rest s' ht hargs h ih =>
      refine parser_returns_iff.mpr (gives_tokenType.mpr ?_)
      rw [ht]
      refine gives_nonLHSCount.mpr (gives_parse.mpr ⟨_, t, hargs, ?_⟩)
      refine gives_failIfNull.mpr ⟨args, rfl, gives_setNonLHSCount.mpr ?_⟩
      exact gives_parse.mpr ⟨_, _, ih hend _, gives_answer.mpr ⟨rfl, rfl⟩⟩

/-- What the loop reads are suffixes, up to a token that starts none. -/
theorem suffixesRead_of_run {k : Nat} {r : Node × Nat}
    (h : parser.run k (.memberLoop base newCount) s = .done (some r) s') :
    ∃ suffixes, SuffixesRead newCount s suffixes s' ∧ startsSuffix s'.token.type = false ∧
      r = applySuffixes base newCount suffixes := by
  induction k generalizing base newCount s with
  | zero => cases h
  | succ k ih =>
      have hreturns : ∀ {p : Production} {s s' : ParserState} {a : p.Ret},
          parser.run k p s = .done (some a) s' → parser.Returns p s (some a) s' :=
        fun h => ⟨k, h⟩
      replace h := gives_tokenType.mp (show Gives _ (parseMemberLoop base newCount) s r s' from
        reaches_of_run h)
      split at h
      case h_1 ht =>
        obtain ⟨t, hn, h⟩ := gives_next.mp h
        obtain ⟨_, u, hproperty, h⟩ := gives_parse.mp (gives_nonLHSCount.mp h)
        obtain ⟨property, rfl, h⟩ := gives_failIfNull.mp h
        obtain ⟨hclose, v, hn', h⟩ := gives_consume.mp h
        obtain ⟨_, _, hrest, h⟩ := gives_parse.mp (gives_setNonLHSCount.mp h)
        obtain ⟨rfl, rfl⟩ := gives_answer.mp h
        obtain ⟨suffixes, hread, hend, rfl⟩ := ih hrest
        exact ⟨_, .bracket ht hn (hreturns hproperty) hclose hn' hread, hend, rfl⟩
      case h_2 ht =>
        cases newCount with
        | succ n =>
            replace h := gives_ifToken.mp h
            rw [if_pos ht] at h
            obtain ⟨_, t, hargs, h⟩ := gives_parse.mp h
            obtain ⟨args, rfl, h⟩ := gives_failIfNull.mp h
            obtain ⟨_, _, hrest, h⟩ := gives_parse.mp h
            obtain ⟨rfl, rfl⟩ := gives_answer.mp h
            obtain ⟨suffixes, hread, hend, rfl⟩ := ih hrest
            exact ⟨_, .newArguments ht (hreturns hargs) hread, hend, rfl⟩
        | zero =>
            obtain ⟨_, t, hargs, h⟩ := gives_parse.mp (gives_nonLHSCount.mp h)
            obtain ⟨args, rfl, h⟩ := gives_failIfNull.mp h
            obtain ⟨_, _, hrest, h⟩ := gives_parse.mp (gives_setNonLHSCount.mp h)
            obtain ⟨rfl, rfl⟩ := gives_answer.mp h
            obtain ⟨suffixes, hread, hend, rfl⟩ := ih hrest
            exact ⟨_, .callArguments ht (hreturns hargs) hread, hend, rfl⟩
      case h_3 ht =>
        obtain ⟨t, hn, h⟩ := gives_next.mp h
        obtain ⟨hname, h⟩ := gives_matchOrFail.mp h
        obtain ⟨u, hn', h⟩ := gives_next.mp (gives_tokenData.mp h)
        obtain ⟨_, _, hrest, h⟩ := gives_parse.mp h
        obtain ⟨rfl, rfl⟩ := gives_answer.mp h
        obtain ⟨suffixes, hread, hend, rfl⟩ := ih hrest
        exact ⟨_, .dot ht hn hname hn' hread, hend, rfl⟩
      case h_4 hbracket hparen hdot =>
        obtain ⟨rfl, rfl⟩ := gives_pure.mp h
        refine ⟨[], .nil, ?_, rfl⟩
        unfold startsSuffix
        split <;> first | contradiction | rfl

theorem NewTokens.returns (h : NewTokens n s s') (ht : s'.token.type ≠ .new) (m : Nat) :
    parser.Returns (.newLoop m) s (some (m + n)) s' := by
  induction h generalizing m with
  | zero =>
      refine parser_returns_iff.mpr (gives_ifToken.mpr ?_)
      rw [if_neg ht]
      exact gives_pure.mpr ⟨rfl, rfl⟩
  | @succ n s t s' htype hn h ih =>
      refine parser_returns_iff.mpr (gives_ifToken.mpr ?_)
      rw [if_pos htype]
      rw [show m + (n + 1) = m + 1 + n by omega]
      refine gives_next.mpr ⟨t, hn, gives_parse.mpr ⟨_, _, ih ht (m + 1), ?_⟩⟩
      exact gives_answer.mpr ⟨rfl, rfl⟩

theorem newTokens_of_run {k m r : Nat} (h : parser.run k (.newLoop m) s = .done (some r) s') :
    ∃ n, r = m + n ∧ NewTokens n s s' := by
  induction k generalizing m s with
  | zero => cases h
  | succ k ih =>
      replace h := gives_ifToken.mp (show Gives _ (parseNewLoop m) s r s' from reaches_of_run h)
      split at h
      · rename_i ht
        obtain ⟨t, hn, h⟩ := gives_next.mp h
        obtain ⟨_, _, hrest, h⟩ := gives_parse.mp h
        obtain ⟨rfl, rfl⟩ := gives_answer.mp h
        obtain ⟨n, rfl, hnew⟩ := ih hrest
        exact ⟨n + 1, by omega, .succ ht hn hnew⟩
      · obtain ⟨rfl, rfl⟩ := gives_pure.mp h
        exact ⟨0, rfl, .zero⟩

/-- No primary expression starts with `new` or `function`. -/
theorem not_primary (ht : s.token.type = .new ∨ s.token.type = .function) :
    ¬ parser.Returns .primaryExpression s (some node) s' := by
  intro h
  replace h := gives_tokenType.mp (parser_returns_iff.mp h)
  rcases ht with ht | ht <;> rw [ht] at h <;> exact gives_fail h

theorem BaseRead.ne_new (h : BaseRead s base s') : s.token.type ≠ .new := by
  intro ht
  cases h with
  | function ht' => exact absurd (ht'.symm.trans ht) (by simp)
  | primary h => exact not_primary (Or.inl ht) h

theorem gives_parseMemberBase :
    Gives parser.Returns parseMemberBase s base s' ↔ BaseRead s base s' := by
  unfold parseMemberBase
  rw [gives_ifToken]
  split
  · rename_i ht
    constructor
    · intro h
      obtain ⟨t, hn, h⟩ := gives_next.mp h
      obtain ⟨_, u, hinfo, h⟩ := gives_parse.mp h
      obtain ⟨info, rfl, h⟩ := gives_failIfNull.mp h
      obtain ⟨rfl, rfl⟩ := gives_pure.mp h
      exact .function ht hn hinfo rfl
    · rintro (⟨ht', hn, hinfo, rfl⟩ | h)
      · refine gives_next.mpr ⟨_, hn, gives_parse.mpr ⟨_, _, hinfo, ?_⟩⟩
        exact gives_failIfNull.mpr ⟨_, rfl, gives_pure.mpr ⟨rfl, rfl⟩⟩
      · exact absurd h (not_primary (Or.inr ht))
  · rename_i ht
    constructor
    · intro h
      obtain ⟨r, u, hprimary, h⟩ := gives_parse.mp h
      cases r with
      | none => exact absurd h gives_fail
      | some node =>
          obtain ⟨rfl, rfl⟩ := gives_pure.mp h
          exact .primary hprimary
    · rintro (⟨ht', -⟩ | h)
      · exact absurd ht' ht
      · exact gives_parse.mpr ⟨_, _, h, gives_pure.mpr ⟨rfl, rfl⟩⟩

/-- **What `new` binds to.**  A member expression is some `new` tokens, a function or
primary expression and all the suffixes that follow; the tree is the one that the
grammar has for them, and it has one for any number of tokens and any suffixes. -/
theorem memberExpression_iff :
    (∀ s s' node, parser.Returns .memberExpression s (some node) s' ↔
      ∃ newCount p suffixes t u, NewTokens newCount s t ∧ BaseRead t p u ∧
        SuffixesRead newCount u suffixes s' ∧ startsSuffix s'.token.type = false ∧
          LeftHandSideExpression p newCount suffixes node) ∧
      ∀ p newCount suffixes, ∃! node, LeftHandSideExpression p newCount suffixes node := by
  refine ⟨fun s s' node => ⟨fun h => ?_, ?_⟩, fun p newCount suffixes => ?_⟩
  · obtain ⟨_, t, ⟨k, hnew⟩, h⟩ := gives_parse.mp (parser_returns_iff.mp h)
    obtain ⟨newCount, rfl, h₁⟩ := gives_orReturnNull.mp h
    obtain ⟨n, rfl, htokens⟩ := newTokens_of_run hnew
    obtain ⟨p, u, hbase, h₂⟩ := gives_bind.mp h₁
    obtain ⟨_, _, ⟨k, hloop⟩, h₃⟩ := gives_parse.mp h₂
    obtain ⟨r, rfl, h₄⟩ := gives_orReturnNull.mp h₃
    obtain ⟨rfl, rfl⟩ := gives_pure.mp h₄
    obtain ⟨suffixes, hread, hend, rfl⟩ := suffixesRead_of_run hloop
    rw [Nat.zero_add] at hread ⊢
    exact ⟨n, p, suffixes, t, u, htokens, gives_parseMemberBase.mp hbase, hread, hend,
      leftHandSideExpression_iff.mpr rfl⟩
  · rintro ⟨newCount, p, suffixes, t, u, htokens, hbase, hread, hend, hnode⟩
    obtain rfl := leftHandSideExpression_iff.mp hnode
    have hnew := htokens.returns hbase.ne_new 0
    rw [Nat.zero_add] at hnew
    refine parser_returns_iff.mpr (gives_parse.mpr ⟨_, t, hnew, ?_⟩)
    refine gives_orReturnNull.mpr ⟨_, rfl, gives_bind.mpr ⟨p, u, gives_parseMemberBase.mpr hbase, ?_⟩⟩
    refine gives_parse.mpr ⟨_, s', hread.returns hend p, ?_⟩
    exact gives_orReturnNull.mpr ⟨_, rfl, gives_pure.mpr ⟨rfl, rfl⟩⟩
  · exact ⟨bindNew p newCount suffixes, leftHandSideExpression_iff.mpr rfl,
      fun node h => leftHandSideExpression_iff.mp h⟩

end Runs

end HammerJS
