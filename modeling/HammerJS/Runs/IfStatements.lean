import HammerJS.Reflect.Outcomes
import HammerJS.Reflect.StatementsSafety

/-!
# Chains of `if` statements

`parseIfStatement` reads a chain of `else if` parts in one loop, and folds what it has
put on its stacks in another.

* `parseIfRecursive` — the rule of the grammar, as a production that calls itself.
* `ElseChain` — what the first loop reads, and what it puts on the three stacks.
* `ifStatement_recursive` — the parser with the one production returns what the parser
  with the other returns, and the loops never find a stack empty.
-/

namespace HammerJS

open Procs Machine Lexer Parse

variable [Platform]

/-! ## The rule of the grammar -/

/-- `IfStatement`: `if ( Expression ) Statement`, and `else Statement` if there is an
`else`. -/
def parseIfRecursive : Parse Node := do
  assertToken .if
  let (condition, _, trueBlock) ← parseIfPart
  if ← isToken .else then
    next
    let falseBlock ← failIfNull (← parse .statement)
    return Builder.createIfStatement condition trueBlock (some falseBlock)
  else return Builder.createIfStatement condition trueBlock none

/-- The code of the productions, with the rule of the grammar for `if`. -/
def recursiveBody : (p : Production) → Parse p.Ret
  | .ifStatement => parseIfRecursive
  | p => productionBody p

/-- The parser, with the rule of the grammar for `if`. -/
def recursiveParser : Machine parserInterface ParserState Crash := parserWith recursiveBody

/-! ## The stacks -/

/-- What the first loop leaves: the conditions, the positions and the branches, the last one
on top, and whether the chain ends in an `else` without an `if`. -/
abbrev IfStacks := List Node × List (Nat × Nat) × List Node × Bool

/-- The loop goes on from stacks that hold something already. -/
def IfStacks.onto (exprStack : List Node) (posStack : List (Nat × Nat))
    (statementStack : List Node) (entries : IfStacks) : IfStacks :=
  (entries.1 ++ exprStack, entries.2.1 ++ posStack, entries.2.2.1 ++ statementStack,
    entries.2.2.2)

/-- What comes of the stacks: the branch of the `else` they were read behind. -/
def IfStacks.Closes (entries : IfStacks) (falseBlock : Node) : Prop :=
  ((if entries.2.2.2 then pure (entries.1, entries.2.1, entries.2.2.1)
    else closeIf entries.1 entries.2.1 entries.2.2.1) >>= fun r => foldIf r.1 r.2.1 r.2.2) =
      (pure [falseBlock] : Parse (List Node))

omit [Platform] in
/-- The entries below are folded last. -/
theorem foldIf_onto {exprStack statementStack : List Node} {posStack : List (Nat × Nat)}
    {node : Node} (hlen : posStack.length = exprStack.length)
    (h : foldIf exprStack posStack statementStack = pure [node]) (conditions branches : List Node)
    (lines : List (Nat × Nat)) :
    foldIf (exprStack ++ conditions) (posStack ++ lines) (statementStack ++ branches) =
      foldIf conditions lines (node :: branches) := by
  induction exprStack generalizing posStack statementStack with
  | nil =>
      obtain rfl : posStack = [] := List.length_eq_zero_iff.mp hlen
      cases h
      rfl
  | cons condition exprStack ih =>
      match posStack, statementStack, hlen, h with
      | _ :: _, [], _, h => cases h
      | _ :: _, [_], _, h => cases h
      | _ :: posStack, falseBlock :: trueBlock :: statementStack, hlen, h =>
          exact ih (Nat.succ.inj hlen) h

omit [Platform] in
theorem IfStacks.Closes.onto {entries : IfStacks} {node condition trueBlock : Node}
    {pos : Nat × Nat} (hlen : entries.2.1.length = entries.1.length) (h : entries.Closes node) :
    (entries.onto [condition] [pos] [trueBlock]).Closes
      (Builder.createIfStatement condition trueBlock (some node)) := by
  obtain ⟨exprStack, posStack, statementStack, trailingElse⟩ := entries
  cases trailingElse with
  | true => exact foldIf_onto hlen h [condition] [trueBlock] [pos]
  | false =>
      match exprStack, posStack, statementStack, hlen, h with
      | [], _, _, _, h => cases h
      | _ :: _, _ :: _, [], _, h => cases h
      | _ :: _, _ :: posStack, _ :: statementStack, hlen, h =>
          exact foldIf_onto (Nat.succ.inj hlen) h [condition] [trueBlock] [pos]

/-! ## What the first loop reads -/

/-- What follows an `else`, as the first loop reads it: the stacks, or null. -/
inductive ElseChain (T : Productions) : ParserState → Option IfStacks → ParserState → Prop
  | last {s t block s'} (hn : s.Next .identifyReservedWords t) (ht : t.token.type ≠ .if)
      (h : T .statement t (some block) s') : ElseChain T s (some ([], [], [block], true)) s'
  | lastNull {s t s'} (hn : s.Next .identifyReservedWords t) (ht : t.token.type ≠ .if)
      (h : T .statement t none s') : ElseChain T s none s'.failed
  | single {s t condition pos trueBlock s'} (hn : s.Next .identifyReservedWords t)
      (ht : t.token.type = .if) (h : Gives T parseIfPart t (condition, pos, trueBlock) s')
      (hend : s'.token.type ≠ .else) :
      ElseChain T s (some ([condition], [pos], [trueBlock], false)) s'
  | partNull {s t s'} (hn : s.Next .identifyReservedWords t) (ht : t.token.type = .if)
      (h : Reaches parserStep T parseIfPart t none s') : ElseChain T s none s'
  | more {s t condition pos trueBlock u entries s'} (hn : s.Next .identifyReservedWords t)
      (ht : t.token.type = .if) (h : Gives T parseIfPart t (condition, pos, trueBlock) u)
      (helse : u.token.type = .else) (hrest : ElseChain T u entries s') :
      ElseChain T s (entries.map (IfStacks.onto [condition] [pos] [trueBlock])) s'

section Loop

variable {T : Productions} {s s' : ParserState} {entries : Option IfStacks}
  {exprStack statementStack : List Node} {posStack : List (Nat × Nat)}

omit [Platform] in
theorem IfStacks.onto_onto (entries : IfStacks) (condition : Node) (pos : Nat × Nat)
    (trueBlock : Node) :
    (entries.onto [condition] [pos] [trueBlock]).onto exprStack posStack statementStack =
      entries.onto (condition :: exprStack) (pos :: posStack) (trueBlock :: statementStack) := by
  simp [IfStacks.onto]

/-- There are as many positions as conditions. -/
theorem ElseChain.lengths (h : ElseChain T s entries s') :
    ∀ r, entries = some r → r.2.1.length = r.1.length := by
  induction h with
  | last | single =>
      intro r hr
      cases hr
      rfl
  | lastNull | partNull =>
      intro r hr
      cases hr
  | more hn ht h helse hrest ih =>
      intro r hr
      obtain ⟨r, rfl, rfl⟩ := Option.map_eq_some_iff.mp hr
      simp [IfStacks.onto, ih r rfl]

/-- The stacks that were read can be closed. -/
theorem ElseChain.closes (h : ElseChain T s entries s') :
    ∀ r, entries = some r → ∃ node, r.Closes node := by
  induction h with
  | last | single =>
      intro r hr
      cases hr
      exact ⟨_, rfl⟩
  | lastNull | partNull =>
      intro r hr
      cases hr
  | more hn ht h helse hrest ih =>
      intro r hr
      obtain ⟨r, rfl, rfl⟩ := Option.map_eq_some_iff.mp hr
      obtain ⟨node, hnode⟩ := ih r rfl
      exact ⟨_, hnode.onto (hrest.lengths r rfl)⟩

/-- The code of the loop, where its own calls read what is left of the chain. -/
theorem reaches_ifLoop {r : Option IfStacks} :
    Reaches parserStep T (parseIfLoop exprStack posStack statementStack) s r s' ↔
      ∃ t, s.Next .identifyReservedWords t ∧
        if t.token.type = .if then
          (∃ part u, Gives T parseIfPart t part u ∧
            if u.token.type = .else then
              T (.ifLoop (part.1 :: exprStack) (part.2.1 :: posStack)
                (part.2.2 :: statementStack)) u r s'
            else r = some (part.1 :: exprStack, part.2.1 :: posStack,
              part.2.2 :: statementStack, false) ∧ s' = u) ∨
          r = none ∧ Reaches parserStep T parseIfPart t none s'
        else
          ∃ block u, T .statement t block u ∧
            ((∃ node, block = some node ∧ r = some (exprStack, posStack, node :: statementStack, true) ∧
              s' = u) ∨ block = none ∧ r = none ∧ s' = u.failed) := by
  refine reaches_next.trans (exists_congr fun t => and_congr_right fun _ => ?_)
  refine reaches_ifToken.trans ?_
  split
  · refine reaches_bind.trans (or_congr_left (exists₂_congr fun part u => and_congr_right fun _ => ?_))
    refine reaches_ifToken.trans ?_
    split
    · constructor
      · rintro ⟨a, v, h, hr⟩
        obtain ⟨rfl, rfl⟩ := reaches_answer.mp hr
        exact h
      · exact fun h => ⟨r, s', h, reaches_answer.mpr ⟨rfl, rfl⟩⟩
    · exact Iff.rfl
  · exact exists₂_congr fun block u => and_congr_right fun _ => reaches_failIfNull

/-! ### Failures -/

omit [Platform] in
theorem failed_of_error (h : s.error = true) : s.failed = s := by
  obtain ⟨lexer, error, token, tokenCount, validated, regs⟩ := s
  cases h
  rfl

theorem ifPart_null (h : Reaches parserStep T parseIfPart s none s') : s'.error = true := by
  obtain ⟨t, -, h⟩ := reaches_next.mp ((reaches_command (o := .token) rfl).mp h)
  have hconsume : ∀ {α : Type} {x : JSTokenType} {f : Unit → Parse α} {u : ParserState},
      Reaches parserStep T (consumeOrFail x >>= f) u none s' →
        s'.error = true ∨ ∃ v, Reaches parserStep T (f ()) v none s' := by
    intro α x f u h
    rcases reaches_bind.mp h with ⟨_, v, -, h⟩ | ⟨-, h⟩
    · exact Or.inr ⟨v, h⟩
    · rcases reaches_bind.mp h with ⟨c, v, -, h⟩ | ⟨-, h⟩
      · cases c with
        | true => cases h.1
        | false => exact Or.inl (by rw [(reaches_fail.mp h).2]; rfl)
      · replace h := reaches_ifToken.mp h
        split at h
        · obtain ⟨v, -, h⟩ := reaches_next.mp h
          cases h.1
        · obtain ⟨_, v, -, h⟩ := h
          cases h.1
  rcases hconsume h with h | ⟨u, h⟩
  · exact h
  obtain ⟨r, v, -, h⟩ := h
  rcases reaches_failIfNull.mp h with ⟨condition, rfl, h⟩ | ⟨-, -, rfl⟩
  · rcases hconsume ((reaches_command (o := .token) rfl).mp h) with h | ⟨w, h⟩
    · exact h
    obtain ⟨r, x, -, h⟩ := h
    rcases reaches_failIfNull.mp h with ⟨trueBlock, rfl, h⟩ | ⟨-, -, rfl⟩
    · cases h.1
    · rfl
  · rfl

theorem ElseChain.null (h : ElseChain T s entries s') (hnull : entries = none) :
    s'.error = true := by
  induction h with
  | last | single => cases hnull
  | lastNull => rfl
  | partNull hn ht h => exact ifPart_null h
  | more hn ht h helse hrest ih => exact ih (Option.map_eq_none_iff.mp hnull)

end Loop

/-! ## The two rules -/

/-- The statement behind an `else`, as the rule of the grammar has it. -/
def ElseBranch (T : Productions) (s : ParserState) (r : Option Node) (s' : ParserState) : Prop :=
  ∃ t block u, s.Next .identifyReservedWords t ∧ T .statement t block u ∧
    ((∃ node, block = some node ∧ r = some node ∧ s' = u) ∨
      block = none ∧ r = none ∧ s' = u.failed)

section Rules

variable {T : Productions} {s s' : ParserState} {r : Option Node}

/-- An `if` statement, where `Rest` says what comes of its `else`. -/
def IfRule (T : Productions) (Rest : ParserState → Option Node → ParserState → Prop)
    (s : ParserState) (r : Option Node) (s' : ParserState) : Prop :=
  s.token.type = .if ∧
    ((∃ part u, Gives T parseIfPart s part u ∧
      if u.token.type = .else then
        ∃ no, Rest u no s' ∧ r = no.map fun no => Builder.createIfStatement part.1 part.2.2 (some no)
      else r = some (Builder.createIfStatement part.1 part.2.2 none) ∧ s' = u) ∨
    r = none ∧ Reaches parserStep T parseIfPart s none s')

theorem IfRule.mono {Rest Rest' : ParserState → Option Node → ParserState → Prop}
    (h : ∀ u no s', Rest u no s' → Rest' u no s') (hr : IfRule T Rest s r s') :
    IfRule T Rest' s r s' := by
  refine ⟨hr.1, hr.2.imp_left ?_⟩
  rintro ⟨part, u, hpart, hrest⟩
  refine ⟨part, u, hpart, ?_⟩
  split
  · rename_i helse
    rw [if_pos helse] at hrest
    obtain ⟨no, hno, rfl⟩ := hrest
    exact ⟨no, h u no s' hno, rfl⟩
  · rename_i helse
    rwa [if_neg helse] at hrest

theorem reaches_ifRecursive :
    Reaches parserStep T parseIfRecursive s r s' ↔ IfRule T (ElseBranch T) s r s' := by
  refine reaches_assertToken.trans (and_congr_right fun _ => ?_)
  refine reaches_bind.trans (or_congr_left (exists₂_congr fun part u => and_congr_right fun _ => ?_))
  refine reaches_ifToken.trans ?_
  split
  · constructor
    · intro h
      obtain ⟨t, hn, block, v, hblock, h⟩ := reaches_next.mp h
      rcases reaches_failIfNull.mp h with ⟨no, rfl, rfl, rfl⟩ | ⟨rfl, rfl, rfl⟩
      · exact ⟨some no, ⟨t, some no, _, hn, hblock, Or.inl ⟨no, rfl, rfl, rfl⟩⟩, rfl⟩
      · exact ⟨none, ⟨t, none, v, hn, hblock, Or.inr ⟨rfl, rfl, rfl⟩⟩, rfl⟩
    · rintro ⟨no, ⟨t, block, v, hn, hblock, h⟩, rfl⟩
      refine reaches_next.mpr ⟨t, hn, block, v, hblock, reaches_failIfNull.mpr ?_⟩
      rcases h with ⟨node, rfl, rfl, rfl⟩ | ⟨rfl, rfl, rfl⟩
      · exact Or.inl ⟨node, rfl, rfl, rfl⟩
      · exact Or.inr ⟨rfl, rfl, rfl⟩
  · exact Iff.rfl

omit [Platform] in
/-- What the end of `parseIfStatement` makes of the stacks. -/
theorem IfStacks.Closes.bind {entries : IfStacks} {node : Node} (h : entries.Closes node)
    {β : Type} (f : List Node → Parse β) :
    (if entries.2.2.2 then
        pure (entries.1, entries.2.1, entries.2.2.1) >>= fun r => foldIf r.1 r.2.1 r.2.2 >>= f
      else closeIf entries.1 entries.2.1 entries.2.2.1 >>= fun r => foldIf r.1 r.2.1 r.2.2 >>= f) =
      f [node] := by
  obtain ⟨exprStack, posStack, statementStack, trailingElse⟩ := entries
  cases trailingElse with
  | true =>
      have h : foldIf exprStack posStack statementStack = pure [node] := h
      show foldIf exprStack posStack statementStack >>= f = _
      rw [h]
      rfl
  | false =>
      match exprStack, posStack, statementStack, h with
      | [], _, _, h => cases h
      | _ :: _, [], _, h => cases h
      | _ :: _, _ :: _, [], h => cases h
      | condition :: exprStack, _ :: posStack, trueBlock :: statementStack, h =>
          have h : foldIf exprStack posStack (Builder.createIfStatement condition trueBlock none ::
            statementStack) = pure [node] := h
          show foldIf exprStack posStack (Builder.createIfStatement condition trueBlock none ::
            statementStack) >>= f = _
          rw [h]
          rfl

/-- The chain behind an `else`, as the loops of `parseIfStatement` have it. -/
def ElseLoop (T : Productions) (s : ParserState) (r : Option Node) (s' : ParserState) : Prop :=
  ∃ entries, ElseChain T s entries s' ∧ Option.Rel IfStacks.Closes entries r

end Rules

section Machines

variable {body : (p : Production) → Parse p.Ret} {s s' : ParserState}

omit [Platform] in
theorem IfStacks.onto_nil (entries : Option IfStacks) :
    entries.map (IfStacks.onto [] [] []) = entries := by
  cases entries <;> simp [IfStacks.onto]

/-- The first loop reads a chain, where its own calls do. -/
theorem elseChain_of_reaches {T T' : Productions} (hT : ∀ p s r s', T p s r s' → T' p s r s')
    (ih : ∀ exprStack posStack statementStack s r s',
      T (.ifLoop exprStack posStack statementStack) s r s' → ∃ entries,
        ElseChain T' s entries s' ∧
          r = entries.map (IfStacks.onto exprStack posStack statementStack))
    {exprStack statementStack : List Node} {posStack : List (Nat × Nat)} {r : Option IfStacks}
    (h : Reaches parserStep T (parseIfLoop exprStack posStack statementStack) s r s') :
    ∃ entries, ElseChain T' s entries s' ∧
      r = entries.map (IfStacks.onto exprStack posStack statementStack) := by
  obtain ⟨t, hn, h⟩ := reaches_ifLoop.mp h
  split at h
  · rename_i ht
    rcases h with ⟨⟨condition, pos, trueBlock⟩, u, hpart, h⟩ | ⟨rfl, hnull⟩
    · split at h
      · rename_i helse
        obtain ⟨entries, hchain, rfl⟩ := ih _ _ _ _ _ _ h
        refine ⟨_, .more hn ht (hpart.mono hT) helse hchain, ?_⟩
        cases entries with
        | none => rfl
        | some entries => exact congrArg some (entries.onto_onto condition pos trueBlock).symm
      · rename_i hend
        obtain ⟨rfl, rfl⟩ := h
        exact ⟨_, .single hn ht (hpart.mono hT) hend, rfl⟩
    · exact ⟨none, .partNull hn ht (hnull.mono hT), rfl⟩
  · rename_i ht
    obtain ⟨block, u, hblock, ⟨node, rfl, rfl, rfl⟩ | ⟨rfl, rfl, rfl⟩⟩ := h
    · exact ⟨_, .last hn ht (hT _ _ _ _ hblock), rfl⟩
    · exact ⟨_, .lastNull hn ht (hT _ _ _ _ hblock), rfl⟩

theorem elseChain_of_run (hloop : ∀ es ps ss, body (.ifLoop es ps ss) = parseIfLoop es ps ss)
    {n : Nat} {exprStack statementStack : List Node} {posStack : List (Nat × Nat)} {r : Option IfStacks}
    (h : (parserWith body).run n (.ifLoop exprStack posStack statementStack) s = .done r s') :
    ∃ entries, ElseChain (parserWith body).Returns s entries s' ∧
      r = entries.map (IfStacks.onto exprStack posStack statementStack) := by
  induction n generalizing s s' exprStack posStack statementStack r with
  | zero => cases h
  | succ n ih =>
      have h := reaches_of_run h
      change Reaches parserStep (fun q t a u => (parserWith body).run n q t = .done a u)
        (body (.ifLoop exprStack posStack statementStack)) s r s' at h
      rw [hloop] at h
      exact elseChain_of_reaches (fun p s r s' h => ⟨n, h⟩)
        (fun exprStack posStack statementStack s r s' h => ih h) h

theorem ElseChain.returns (hloop : ∀ es ps ss, body (.ifLoop es ps ss) = parseIfLoop es ps ss)
    {entries : Option IfStacks} (h : ElseChain (parserWith body).Returns s entries s')
    (exprStack : List Node) (posStack : List (Nat × Nat)) (statementStack : List Node) :
    (parserWith body).Returns (.ifLoop exprStack posStack statementStack) s
      (entries.map (IfStacks.onto exprStack posStack statementStack)) s' := by
  induction h generalizing exprStack posStack statementStack with
  | @last s t block s' hn ht h =>
      rw [returns_iff]
      change Reaches parserStep _ (body (.ifLoop exprStack posStack statementStack)) _ _ _
      rw [hloop]
      refine reaches_ifLoop.mpr ⟨t, hn, ?_⟩
      rw [if_neg ht]
      exact ⟨_, _, h, Or.inl ⟨block, rfl, rfl, rfl⟩⟩
  | @lastNull s t s' hn ht h =>
      rw [returns_iff]
      change Reaches parserStep _ (body (.ifLoop exprStack posStack statementStack)) _ _ _
      rw [hloop]
      refine reaches_ifLoop.mpr ⟨t, hn, ?_⟩
      rw [if_neg ht]
      exact ⟨_, _, h, Or.inr ⟨rfl, rfl, rfl⟩⟩
  | @single s t condition pos trueBlock s' hn ht h hend =>
      rw [returns_iff]
      change Reaches parserStep _ (body (.ifLoop exprStack posStack statementStack)) _ _ _
      rw [hloop]
      refine reaches_ifLoop.mpr ⟨t, hn, ?_⟩
      rw [if_pos ht]
      refine Or.inl ⟨_, s', h, ?_⟩
      rw [if_neg hend]
      exact ⟨rfl, rfl⟩
  | @partNull s t s' hn ht h =>
      rw [returns_iff]
      change Reaches parserStep _ (body (.ifLoop exprStack posStack statementStack)) _ _ _
      rw [hloop]
      refine reaches_ifLoop.mpr ⟨t, hn, ?_⟩
      rw [if_pos ht]
      exact Or.inr ⟨rfl, h⟩
  | @more s t condition pos trueBlock u entries s' hn ht h helse hrest ih =>
      rw [returns_iff]
      change Reaches parserStep _ (body (.ifLoop exprStack posStack statementStack)) _ _ _
      rw [hloop]
      refine reaches_ifLoop.mpr ⟨t, hn, ?_⟩
      rw [if_pos ht]
      refine Or.inl ⟨_, u, h, ?_⟩
      rw [if_pos helse]
      have hrest := ih (condition :: exprStack) (pos :: posStack) (trueBlock :: statementStack)
      cases entries with
      | none => exact hrest
      | some entries =>
          have honto : (entries.onto [condition] [pos] [trueBlock]).onto exprStack posStack
            statementStack = _ := entries.onto_onto condition pos trueBlock
          exact (congrArg (fun r => (parserWith body).Returns _ u (some r) s') honto).mpr hrest

/-- `parseIfStatement` with its loops, in any parser that has them. -/
theorem reaches_ifStatement (hloop : ∀ es ps ss, body (.ifLoop es ps ss) = parseIfLoop es ps ss)
    {r : Option Node} :
    Reaches parserStep (parserWith body).Returns parseIfStatement s r s' ↔
      IfRule (parserWith body).Returns (ElseLoop (parserWith body).Returns) s r s' := by
  refine reaches_assertToken.trans (and_congr_right fun _ => ?_)
  refine reaches_bind.trans (or_congr_left (exists₂_congr fun part u => and_congr_right fun _ => ?_))
  refine reaches_ifToken.trans ?_
  split
  · constructor
    · rintro ⟨entries, v, ⟨n, hrun⟩, h⟩
      obtain ⟨entries, hchain, rfl⟩ := elseChain_of_run hloop hrun
      rw [IfStacks.onto_nil] at h
      rcases reaches_orReturnNull.mp h with ⟨stack, rfl, h⟩ | ⟨rfl, rfl, rfl⟩
      · obtain ⟨node, hnode⟩ := hchain.closes stack rfl
        replace h := (congrArg (fun x => Reaches parserStep (parserWith body).Returns x v r s')
          (hnode.bind _)).mp h
        obtain ⟨rfl, rfl⟩ := reaches_pure.mp h
        exact ⟨some node, ⟨_, hchain, .some hnode⟩, rfl⟩
      · exact ⟨none, ⟨none, hchain, .none⟩, rfl⟩
    · rintro ⟨no, ⟨entries, hchain, hrel⟩, rfl⟩
      have hreturns := hchain.returns hloop [] [] []
      rw [IfStacks.onto_nil] at hreturns
      refine ⟨entries, s', hreturns, reaches_orReturnNull.mpr ?_⟩
      cases hrel with
      | none => exact Or.inr ⟨rfl, rfl, rfl⟩
      | @some stack node hnode =>
          refine Or.inl ⟨stack, rfl, ?_⟩
          refine (congrArg (fun x => Reaches parserStep (parserWith body).Returns x s' _ s')
            (hnode.bind _)).mpr ?_
          exact reaches_pure.mpr ⟨rfl, rfl⟩
  · exact Iff.rfl

/-- A statement that starts with `if` is an `if` statement. -/
theorem statement_if (hstatement : body .statement = parseStatement) (ht : s.token.type = .if)
    {r : Option Node} : (parserWith body).Returns .statement s r s' ↔
      (parserWith body).Returns .ifStatement s r s' := by
  rw [returns_iff]
  change Reaches parserStep _ (body .statement) _ _ _ ↔ _
  rw [hstatement]
  refine (reaches_command (o := .token) rfl).trans ?_
  rw [ht]
  constructor
  · rintro ⟨a, t, h, hr⟩
    obtain ⟨rfl, rfl⟩ := reaches_answer.mp hr
    exact h
  · exact fun h => ⟨r, s', h, reaches_answer.mpr ⟨rfl, rfl⟩⟩

/-! ### The loops and the rule -/

omit [Platform] in
theorem IfStacks.Closes.unique {entries : IfStacks} {node node' : Node}
    (h : entries.Closes node) (h' : entries.Closes node') : node = node' := by
  have hpure : (pure [node] : Parse (List Node)) = pure [node'] := h.symm.trans h'
  cases hpure
  rfl

omit [Platform] in
theorem closes_unique {entries : Option IfStacks} {r r' : Option Node}
    (h : Option.Rel IfStacks.Closes entries r) (h' : Option.Rel IfStacks.Closes entries r') :
    r = r' := by
  cases h with
  | none =>
      cases h'
      rfl
  | some h =>
      cases h' with
      | some h' => exact congrArg some (h.unique h')

/-- The rule reads what the first loop reads, and the second loop makes its tree. -/
theorem ElseChain.branch (hstatement : body .statement = parseStatement)
    (hif : body .ifStatement = parseIfRecursive) {entries : Option IfStacks}
    (h : ElseChain (parserWith body).Returns s entries s') :
    ∃ r, ElseBranch (parserWith body).Returns s r s' ∧ Option.Rel IfStacks.Closes entries r := by
  have hrule : ∀ {t : ParserState} {r : Option Node} {u : ParserState}, t.token.type = .if →
      IfRule (parserWith body).Returns (ElseBranch (parserWith body).Returns) t r u →
      (parserWith body).Returns .statement t r u := by
    intro t r u ht hr
    rw [statement_if hstatement ht, returns_iff]
    change Reaches parserStep _ (body .ifStatement) _ _ _
    rw [hif]
    exact reaches_ifRecursive.mpr hr
  induction h with
  | @last s t block s' hn ht h =>
      exact ⟨some block, ⟨t, some block, s', hn, h, Or.inl ⟨block, rfl, rfl, rfl⟩⟩, .some rfl⟩
  | @lastNull s t s' hn ht h =>
      exact ⟨none, ⟨t, none, s', hn, h, Or.inr ⟨rfl, rfl, rfl⟩⟩, .none⟩
  | @single s t condition pos trueBlock s' hn ht h hend =>
      have hstatement := hrule ht ⟨ht, Or.inl ⟨_, s', h, by rw [if_neg hend]; exact ⟨rfl, rfl⟩⟩⟩
      exact ⟨_, ⟨t, _, s', hn, hstatement, Or.inl ⟨_, rfl, rfl, rfl⟩⟩, .some rfl⟩
  | @partNull s t s' hn ht h =>
      have hstatement := hrule ht ⟨ht, Or.inr ⟨rfl, h⟩⟩
      refine ⟨none, ⟨t, none, s', hn, hstatement, Or.inr ⟨rfl, rfl, ?_⟩⟩, .none⟩
      exact (failed_of_error (ifPart_null h)).symm
  | @more s t condition pos trueBlock u entries s' hn ht h helse hrest ih =>
      obtain ⟨no, hno, hrel⟩ := ih
      have hstatement := hrule ht
        ⟨ht, Or.inl ⟨_, u, h, by rw [if_pos helse]; exact ⟨no, hno, rfl⟩⟩⟩
      cases hrel with
      | none =>
          refine ⟨none, ⟨t, none, s', hn, hstatement, Or.inr ⟨rfl, rfl, ?_⟩⟩, .none⟩
          exact (failed_of_error (hrest.null rfl)).symm
      | some hnode =>
          exact ⟨_, ⟨t, _, s', hn, hstatement, Or.inl ⟨_, rfl, rfl, rfl⟩⟩,
            .some (hnode.onto (hrest.lengths _ rfl))⟩

/-- The loops read what the rule reads, and make its tree. -/
theorem ElseBranch.loop (hstatement : body .statement = parseStatement)
    (hif : body .ifStatement = parseIfStatement)
    (hloop : ∀ es ps ss, body (.ifLoop es ps ss) = parseIfLoop es ps ss) {r : Option Node}
    (h : ElseBranch (parserWith body).Returns s r s') :
    ElseLoop (parserWith body).Returns s r s' := by
  obtain ⟨t, block, u, hn, hblock, h⟩ := h
  by_cases ht : t.token.type = .if
  · rw [statement_if hstatement ht, returns_iff] at hblock
    change Reaches parserStep _ (body .ifStatement) _ _ _ at hblock
    rw [hif] at hblock
    rcases ((reaches_ifStatement hloop).mp hblock).2 with ⟨part, v, hpart, hrest⟩ | ⟨rfl, hnull⟩
    · split at hrest
      · rename_i helse
        obtain ⟨no, ⟨entries, hchain, hrel⟩, rfl⟩ := hrest
        have hmore := ElseChain.more hn ht hpart helse hchain
        cases hrel with
        | none =>
            rcases h with ⟨node, hnode, -⟩ | ⟨-, rfl, rfl⟩
            · cases hnode
            · rw [failed_of_error (hchain.null rfl)]
              exact ⟨_, hmore, .none⟩
        | some hnode =>
            rcases h with ⟨node, hsome, rfl, rfl⟩ | ⟨hnone, -⟩
            · cases hsome
              exact ⟨_, hmore, .some (hnode.onto (hchain.lengths _ rfl))⟩
            · cases hnone
      · rename_i hend
        obtain ⟨rfl, rfl⟩ := hrest
        rcases h with ⟨node, hsome, rfl, rfl⟩ | ⟨hnone, -⟩
        · cases hsome
          exact ⟨_, .single hn ht hpart hend, .some rfl⟩
        · cases hnone
    · rcases h with ⟨node, hsome, -⟩ | ⟨-, rfl, rfl⟩
      · cases hsome
      · rw [failed_of_error (ifPart_null hnull)]
        exact ⟨none, .partNull hn ht hnull, .none⟩
  · rcases h with ⟨node, rfl, rfl, rfl⟩ | ⟨rfl, rfl, rfl⟩
    · exact ⟨_, .last hn ht hblock, .some rfl⟩
    · exact ⟨_, .lastNull hn ht hblock, .none⟩

end Machines

theorem recursiveBody_of_ne {p : Production} (h : p ≠ .ifStatement) :
    recursiveBody p = productionBody p := by
  cases p <;> first | rfl | exact absurd rfl h

/-- Both parsers return the same from every production. -/
theorem parser_recursive {p : Production} {s s' : ParserState} {r : Option p.Ret} :
    parser.Returns p s r s' ↔ recursiveParser.Returns p s r s' := by
  constructor
  · intro h
    refine Returns.of_bodies (M := parser) (N := recursiveParser) rfl (fun p s r s' h => ?_) h
    by_cases hp : p = .ifStatement
    · subst hp
      refine reaches_ifRecursive.mpr (IfRule.mono ?_ ((reaches_ifStatement fun _ _ _ => rfl).mp h))
      rintro u no s' ⟨entries, hchain, hrel⟩
      obtain ⟨no', hbranch, hrel'⟩ := hchain.branch rfl rfl
      rwa [closes_unique hrel hrel']
    · have hbody : recursiveParser.body p = parser.body p := recursiveBody_of_ne hp
      rwa [hbody]
  · intro h
    refine Returns.of_bodies (M := recursiveParser) (N := parser) rfl (fun p s r s' h => ?_) h
    by_cases hp : p = .ifStatement
    · subst hp
      exact (reaches_ifStatement fun _ _ _ => rfl).mpr
        (IfRule.mono (fun u no s' h => h.loop rfl rfl fun _ _ _ => rfl) (reaches_ifRecursive.mp h))
    · have hbody : recursiveParser.body p = parser.body p := recursiveBody_of_ne hp
      rwa [hbody] at h

/-- **The loops are the rule of the grammar.** From every state `parseIfStatement` returns
what `if ( Expression ) Statement`, with an `else Statement` where an `else` is next,
returns, and leaves the same behind. Behind every chain that it reads there are as many
positions as conditions, as much on the stacks as it pops, and exactly one statement is left
on the last one. -/
theorem ifStatement_recursive :
    (∀ s r s', parser.Returns .ifStatement s r s' ↔
      recursiveParser.Returns .ifStatement s r s') ∧
    (∀ s r s', recursiveParser.Returns .ifStatement s r s' ↔
      IfRule recursiveParser.Returns (ElseBranch recursiveParser.Returns) s r s') ∧
    ∀ s (entries : IfStacks) s', parser.Returns (.ifLoop [] [] []) s (some entries) s' →
      entries.2.1.length = entries.1.length ∧
        ∃ node, ElseBranch parser.Returns s (some node) s' ∧ entries.Closes node := by
  refine ⟨fun s r s' => parser_recursive, fun s r s' => ?_, ?_⟩
  · rw [returns_iff]
    exact reaches_ifRecursive
  · intro s entries s' h
    obtain ⟨n, hrun⟩ := parser_recursive.mp h
    obtain ⟨chain, hchain, hentries⟩ :=
      elseChain_of_run (fun _ _ _ => rfl) hrun
    rw [IfStacks.onto_nil] at hentries
    subst hentries
    obtain ⟨r, ⟨t, block, u, hn, hblock, hr⟩, hrel⟩ := hchain.branch rfl rfl
    cases hrel with
    | some hnode =>
        exact ⟨hchain.lengths entries rfl, _,
          ⟨t, block, u, hn, parser_recursive.mpr hblock, hr⟩, hnode⟩

end HammerJS
