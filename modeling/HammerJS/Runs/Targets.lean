import HammerJS.Syntax.Accepted
import HammerJS.Runs.Completeness

/-!
# What can be assigned to

`m_nonLHSCount` stands for a question that the grammar answers otherwise: whether the operand
before an assignment operator, or before the `in` of a `for` statement, can be assigned to.

* `conditionalExpression_counts` — the count tells whether the operand is calm.
* `assignment_target_iff`, `forIn_target_iff` — where an operand is taken for a target.
-/

namespace HammerJS

open Procs Machine Lexer Parse

variable [Platform] {s : ParserState} {left right : Phrase .expr} {b : Stream}

/-! ## Assignments -/

/-- The operand before an assignment operator is read, and it has counted unless it is calm. -/
theorem conditionalExpression_counts {op : AssignmentToken} {m n : Stream}
    (hspans : left.Spans s.stream m) (hop : (Lexeme.mark op.1).Step m n) (herror : s.error = false)
    (hlegal : left.Legal s.regs.allowsIn) (hrank : 3 ≤ left.rank) :
    parser.Answers .conditionalExpression s fun node s' => node = left.build ∧
      s'.stream = m ∧ (s.regs.nonLHSCount = s'.regs.nonLHSCount ↔ left.Calm) := by
  have hends : Ends 2 s.regs.allowsIn m.token.type := hop.1 ▸ ends_assigned op
  have htaken : left.TakenAsConditional := left.taken.conditional
  apply (htaken hspans rfl herror hlegal (Or.inl ⟨hrank, hends⟩)).mono
  rintro node s' ⟨rfl, h⟩
  exact ⟨rfl, h.stream, eq_comm.trans h.eq_iff⟩

/-- The operand leaves `m_nonLHSCount` as it was exactly if it is calm. -/
theorem conditionalExpression_quiet {op : AssignmentToken} {m n : Stream}
    (hspans : left.Spans s.stream m) (hop : (Lexeme.mark op.1).Step m n) (herror : s.error = false)
    (hlegal : left.Legal s.regs.allowsIn) (hrank : 3 ≤ left.rank) :
    parser.Answers .conditionalExpression s (fun node s' =>
      node = left.build ∧ s'.regs.nonLHSCount = s.regs.nonLHSCount) ↔ left.Calm := by
  obtain ⟨node, s₁, hreturns, rfl, -, hcount⟩ :=
    conditionalExpression_counts hspans hop herror hlegal hrank
  constructor
  · rintro ⟨node', s₂, hreturns', -, hsame⟩
    obtain ⟨-, rfl⟩ := Machine.Returns.unique parser hreturns hreturns'
    exact hcount.mp hsame.symm
  · exact fun hcalm => ⟨_, s₁, hreturns, rfl, (hcount.mpr hcalm).symm⟩

/-- An operand that has counted is the whole expression. -/
theorem assignmentExpression_stops {op : AssignmentToken} {m n : Stream}
    (hspans : left.Spans s.stream m) (hop : (Lexeme.mark op.1).Step m n) (herror : s.error = false)
    (hlegal : left.Legal s.regs.allowsIn) (hrank : 3 ≤ left.rank) (hcalm : ¬ left.Calm) :
    parser.Answers .assignmentExpression s fun node s' => node = left.build ∧ s'.stream = m := by
  apply answers_production.mpr
  apply accepts_nonLHSCount
  apply accepts_orFail
  apply (conditionalExpression_counts hspans hop herror hlegal hrank).mono
  rintro node s' ⟨rfl, hstream, hcount⟩
  apply accepts_nonLHSCount
  rw [if_pos fun heq => hcalm (hcount.mp heq)]
  exact accepts_pure ⟨rfl, hstream⟩

/-- **Which operands can be assigned to.**  Where an operand, an assignment operator and an
expression follow each other, they are taken for an assignment exactly if the operand is calm,
that is, if reading it leaves `m_nonLHSCount` as it was. -/
theorem assignment_target_iff {op : AssignmentToken}
    (hspans : (Phrase.assign left op right).Spans s.stream b) (herror : s.error = false)
    (hleft : left.Legal s.regs.allowsIn) (hrank : 3 ≤ left.rank)
    (hright : right.Legal s.regs.allowsIn) (hrank' : 1 ≤ right.rank)
    (hends : Ends 1 s.regs.allowsIn b.token.type) :
    (parser.Answers .assignmentExpression s (fun node s' =>
        node = Builder.createAssignment left.build op.operator right.build ∧ s'.stream = b) ↔
      left.Calm) ∧
    (parser.Answers .conditionalExpression s (fun node s' =>
        node = left.build ∧ s'.regs.nonLHSCount = s.regs.nonLHSCount) ↔ left.Calm) := by
  obtain ⟨hparts, -⟩ := spans_iff.mp hspans
  obtain ⟨m, hspans₁, n, hop, -⟩ := by simpa [Phrase.parts] using hparts
  refine ⟨⟨?_, ?_⟩, conditionalExpression_quiet hspans₁ hop herror hleft hrank⟩
  · intro hanswers
    by_contra hcalm
    obtain ⟨node, s₁, hreturns, -, hm⟩ :=
      assignmentExpression_stops hspans₁ hop herror hleft hrank hcalm
    obtain ⟨node', s₂, hreturns', -, hb⟩ := hanswers
    obtain ⟨-, rfl⟩ := Machine.Returns.unique parser hreturns hreturns'
    -- the operator would have to stand behind the assignment
    have hnone := hends.assignment
    rw [← hb, hm, hop.1] at hnone
    exact absurd op.2 (by simp [hnone])
  · intro hcalm
    have htaken : (Phrase.assign left op right).TakenAsAssignment :=
      (Phrase.assign left op right).taken.assignment
    apply (htaken hspans rfl herror ⟨⟨hleft, hcalm⟩, hright, hrank'⟩ ⟨le_rfl, hends⟩).mono
    rintro node s' ⟨rfl, h⟩
    exact ⟨rfl, h.stream⟩

-- what follows in a source is evaluated by the kernel alone
attribute [local irreducible] Stream.rest

/-- The parser at a place in a source. -/
def Stream.state (a : Stream) (source : List UChar) : ParserState :=
  { initialState source with lexer := a.lexer, token := a.token }

omit [Platform] in
/-- The source `a=b;`. -/
theorem assignment_target_name :
    let _ : Platform := exactPlatform
    let source := identifierOfChars "a=b;".toList
    let start := (Stream.before source).rest
    let name := Phrase.resolve (identifierOfChars ['a'])
    let value := Phrase.resolve (identifierOfChars ['b'])
    (parser.Answers .assignmentExpression (start.state source) (fun node s' =>
      node = Builder.createAssignment name.build .opEqual value.build ∧
        s'.stream = start.rest.rest.rest) ↔ name.Calm) ∧
    (parser.Answers .conditionalExpression (start.state source) (fun node s' =>
      node = name.build ∧ s'.regs.nonLHSCount = (start.state source).regs.nonLHSCount) ↔
        name.Calm) := by
  intro _ source start name value
  have h₁ : start.readable = true := by decide +kernel
  have h₂ : start.rest.readable = true := by decide +kernel
  have h₃ : start.rest.rest.readable = true := by decide +kernel
  have hname : start.token.type = .ident ∧
      start.token.data.getIdent = identifierOfChars ['a'] := by decide +kernel
  have hequal : start.rest.token.type = .equal := by decide +kernel
  have hvalue : start.rest.rest.token.type = .ident ∧
      start.rest.rest.token.data.getIdent = identifierOfChars ['b'] := by decide +kernel
  have hends : start.rest.rest.rest.token.type = .semicolon := by decide +kernel
  have hspans : (Phrase.assign name ⟨.equal, rfl⟩ value).Spans start start.rest.rest.rest :=
    .intro (.sub (.intro (.token ⟨hname.1, hname.2, Stream.next_rest h₁⟩ .nil) trivial)
      (.token ⟨hequal, Stream.next_rest h₂⟩
        (.sub (.intro (.token ⟨hvalue.1, hvalue.2, Stream.next_rest h₃⟩ .nil) trivial) .nil)))
      trivial
  exact assignment_target_iff (s := start.state source) hspans rfl trivial (by decide) trivial
    (by decide) (hends ▸ ends_other rfl)

/-! ## `for` statements -/

theorem ParserState.Next.unique {t u : ParserState} {lexType : LexType} (h : s.Next lexType t)
    (h' : s.Next lexType u) : t = u := by
  have heq := h.symm.trans h'
  injection heq with heq
  exact (Prod.mk.inj heq).2

/-- The state behind the head of a `for` statement. -/
theorem forStatement_head {node : Node} {s' : ParserState} {n₁ n₂ : Stream}
    (h : parser.Returns .statement s (some node) s') (hfor : (Lexeme.mark .for).Step s.stream n₁)
    (hopen : (Lexeme.mark .openParen).Step n₁ n₂) :
    ∃ t, Arrives s [.mark .for, .mark .openParen] True n₂ t ∧
      Gives parser.Returns (do
        if ← isToken .var then parseForVar
        else
          let decls ← parseForInit
          if ← isToken .semicolon then parseStandardForLoop decls
          else
            failIfFalse (t.regs.nonLHSCount = (← nonLHSCount))
            consumeOrFail .inToken
            let expr ← failIfNull (← parse .expression)
            consumeOrFail .closeParen
            let statement ← failIfNull (← parse .statement)
            let decls ← orReturnNull decls
            return Builder.createForIn decls expr statement) t node s' := by
  replace h := gives_tokenType.mp (parser_returns_iff.mp h)
  rw [show s.token.type = .for from hfor.1] at h
  obtain ⟨_, v, hreturns, h⟩ := gives_parse.mp h
  obtain ⟨rfl, rfl⟩ := gives_answer.mp h
  replace h : Gives parser.Returns parseForStatement s node s' := parser_returns_iff.mp hreturns
  obtain ⟨-, h⟩ := gives_assertToken.mp h
  obtain ⟨t₁, hn₁, h⟩ := gives_next.mp h
  obtain ⟨u₁, hu₁, h₁⟩ := arrives_next rfl hfor hfor.2
  obtain rfl : u₁ = t₁ := ParserState.Next.unique hu₁ hn₁
  obtain ⟨-, t₂, hn₂, h⟩ := gives_consumeOrFail.mp h
  obtain ⟨u₂, hu₂, h₂⟩ := arrives_next h₁.stream hopen hopen.2
  obtain rfl : u₂ = t₂ := ParserState.Next.unique hu₂ hn₂
  exact ⟨u₂, (h₁.trans h₂).cast rfl (by simp), gives_nonLHSCount.mp h⟩

/-- What stands before the `in` is read, without regard to what can be assigned to. -/
theorem forInit_counts {m : Stream} {node : Node} {s' : ParserState} {f : Option Node → Parse Node}
    (hspans : left.Spans s.stream m) (hin : m.token.type = .inToken) (herror : s.error = false)
    (hlegal : left.Legal false)
    (h : Gives parser.Returns (parseForInit >>= f) s node s') :
    ∃ t, t.stream = m ∧ (s.regs.nonLHSCount = t.regs.nonLHSCount ↔ left.Calm) ∧
      Gives parser.Returns (f (some left.build)) t node s' := by
  obtain ⟨r, u, hx, hf⟩ := gives_bind.mp h
  replace hx := gives_ifToken.mp hx
  have htype : s.token.type ≠ .semicolon := Phrase.expression_start hspans rfl
  rw [if_neg htype] at hx
  obtain ⟨_, v, hreturns, hx⟩ := gives_parse.mp (gives_setAllowsIn.mp hx)
  obtain ⟨lhs, rfl, hsome⟩ := gives_failIfNull.mp (gives_setAllowsIn.mp hx)
  obtain ⟨rfl, rfl⟩ := gives_pure.mp hsome
  have hends : Ends 0 false m.token.type := by
    rw [hin]
    exact ends_of_none rfl
  have htaken : left.TakenAsExpression := left.taken.expression
  obtain ⟨_, w, hreturns', rfl, hw⟩ :=
    htaken (s := { s with regs := { s.regs with allowsIn := false } }) hspans rfl herror hlegal hends
  obtain ⟨heq, rfl⟩ := Machine.Returns.unique parser hreturns' hreturns
  cases heq
  exact ⟨{ w with regs := { w.regs with allowsIn := true } }, hw.stream, eq_comm.trans hw.eq_iff,
    hf⟩

/-- What stands before the `in` leaves `m_nonLHSCount` as it was exactly if it is calm. -/
theorem forInit_quiet {m : Stream} (hspans : left.Spans s.stream m) (hin : m.token.type = .inToken)
    (herror : s.error = false) (hlegal : left.Legal false) :
    parser.Answers .expression { s with regs := { s.regs with allowsIn := false } } (fun node s' =>
      node = left.build ∧ s'.regs.nonLHSCount = s.regs.nonLHSCount) ↔ left.Calm := by
  have hends : Ends 0 false m.token.type := by
    rw [hin]
    exact ends_of_none rfl
  have htaken : left.TakenAsExpression := left.taken.expression
  obtain ⟨_, w, hreturns, rfl, hw⟩ :=
    htaken (s := { s with regs := { s.regs with allowsIn := false } }) hspans rfl herror hlegal hends
  constructor
  · rintro ⟨node, s₂, hreturns', -, hsame⟩
    obtain ⟨-, rfl⟩ := Machine.Returns.unique parser hreturns hreturns'
    exact hw.eq_iff.mp hsame
  · exact fun hcalm => ⟨_, w, hreturns, rfl, hw.eq_iff.mpr hcalm⟩

/-- **What `for` can assign to.**  An expression and the `in` of a `for` statement are taken for
its head exactly if the expression is calm, that is, if reading it, behind `for` and `(`,
leaves `m_nonLHSCount` as it was. -/
theorem forIn_target_iff {body : Phrase .stmt}
    (hspans : (Phrase.forIn left right body).Spans s.stream b) (herror : s.error = false)
    (hallows : s.regs.allowsIn = true) (hleft : left.Legal false) (hright : right.Legal true)
    (hbody : body.Legal true) :
    (parser.Answers .statement s (fun node s' =>
        node = Builder.createForIn left.build right.build body.build ∧ s'.stream = b) ↔
      left.Calm) ∧
    ∃ s₁ s₂, s.Next .identifyReservedWords s₁ ∧ s₁.Next .identifyReservedWords s₂ ∧
      (parser.Answers .expression { s₂ with regs := { s₂.regs with allowsIn := false } }
        (fun node s' => node = left.build ∧ s'.regs.nonLHSCount = s₂.regs.nonLHSCount) ↔
          left.Calm) := by
  obtain ⟨hparts, -⟩ := spans_iff.mp hspans
  obtain ⟨n₁, hx, n₂, hopen, n₃, hspans₁, n₄, hy, -⟩ := by simpa [Phrase.parts] using hparts
  obtain ⟨s₁, hs₁, h₁⟩ := arrives_next rfl hx hx.2
  obtain ⟨s₂, hs₂, h₂⟩ := arrives_next h₁.stream hopen hopen.2
  have herror₂ : s₂.error = false := (h₂.error.trans h₁.error).trans herror
  refine ⟨⟨?_, ?_⟩, s₁, s₂, hs₁, hs₂, forInit_quiet (h₂.stream ▸ hspans₁) hy.1 herror₂ hleft⟩
  · rintro ⟨node, s', hreturns, -, -⟩
    obtain ⟨t, ht, h⟩ := forStatement_head hreturns hx hopen
    replace h := gives_ifToken.mp h
    rw [token_eq ht.stream, if_neg (Phrase.expression_start hspans₁ rfl)] at h
    obtain ⟨u, hu, hcount, h⟩ := forInit_counts (ht.stream ▸ hspans₁) hy.1
      (ht.error.trans herror) hleft h
    replace h := gives_ifToken.mp h
    rw [token_eq hu, hy.1, if_neg (by decide)] at h
    obtain ⟨hsame, -⟩ := gives_failIfFalse.mp (gives_nonLHSCount.mp h)
    exact hcount.mp (of_decide_eq_true hsame)
  · intro hcalm
    have htaken : (Phrase.forIn left right body).TakenAsStatement :=
      (Phrase.forIn left right body).taken.1
    apply (htaken hspans rfl herror ⟨⟨hleft, hcalm⟩, hright, hbody⟩ hallows).mono
    rintro node s' ⟨rfl, h⟩
    exact ⟨rfl, h.stream⟩

omit [Platform] in
/-- The source `for(a in b);`. -/
theorem forIn_target_name :
    let _ : Platform := exactPlatform
    let source := identifierOfChars "for(a in b);".toList
    let start := (Stream.before source).rest
    let name := Phrase.resolve (identifierOfChars ['a'])
    let object := Phrase.resolve (identifierOfChars ['b'])
    (parser.Answers .statement (start.state source) (fun node s' =>
      node = Builder.createForIn name.build object.build (Phrase.build .empty) ∧
        s'.stream = start.rest.rest.rest.rest.rest.rest.rest) ↔ name.Calm) ∧
    ∃ s₁ s₂, (start.state source).Next .identifyReservedWords s₁ ∧
      s₁.Next .identifyReservedWords s₂ ∧
        (parser.Answers .expression { s₂ with regs := { s₂.regs with allowsIn := false } }
          (fun node s' => node = name.build ∧ s'.regs.nonLHSCount = s₂.regs.nonLHSCount) ↔
            name.Calm) := by
  intro _ source start name object
  let a := start.rest.rest
  let o := a.rest.rest
  have hreadable : (start.readable && start.rest.readable && a.readable && a.rest.readable &&
      o.readable && o.rest.readable && o.rest.rest.readable) = true := by decide +kernel
  simp only [Bool.and_eq_true] at hreadable
  obtain ⟨⟨⟨⟨⟨⟨h₁, h₂⟩, h₃⟩, h₄⟩, h₅⟩, h₆⟩, h₇⟩ := hreadable
  have hhead : start.token.type = .for ∧ start.rest.token.type = .openParen := by decide +kernel
  have hname : a.token.type = .ident ∧ a.token.data.getIdent = identifierOfChars ['a'] := by
    decide +kernel
  have hin : a.rest.token.type = .inToken := by decide +kernel
  have hobject : o.token.type = .ident ∧ o.token.data.getIdent = identifierOfChars ['b'] := by
    decide +kernel
  have hend : o.rest.token.type = .closeParen ∧ o.rest.rest.token.type = .semicolon := by
    decide +kernel
  have hspans : (Phrase.forIn name object .empty).Spans start o.rest.rest.rest :=
    .intro (.token ⟨hhead.1, Stream.next_rest h₁⟩ (.token ⟨hhead.2, Stream.next_rest h₂⟩
      (.sub (.intro (.token ⟨hname.1, hname.2, Stream.next_rest h₃⟩ .nil) trivial)
        (.token ⟨hin, Stream.next_rest h₄⟩
          (.sub (.intro (.token ⟨hobject.1, hobject.2, Stream.next_rest h₅⟩ .nil) trivial)
            (.token ⟨hend.1, Stream.next_rest h₆⟩
              (.sub (.intro (.token ⟨hend.2, Stream.next_rest h₇⟩ .nil) trivial) .nil)))))))
      trivial
  exact forIn_target_iff (s := start.state source) hspans rfl rfl trivial trivial trivial

end HammerJS
