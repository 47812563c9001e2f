import HammerJS.Reflect.Exact
import HammerJS.Runs.Numbers
import HammerJS.Spelling.Identifiers
import HammerJS.Syntax.Printing
import HammerJS.Syntax.Shapes

/-!
# Values as syntax trees

What the value of `Reflect.parse` is, taken as a syntax tree.

* `well_formed_iff` — the programs whose values have the shape of one.
* `Spells.spelling_eq` — the operators of a source are spelled in one way.
* `print_eq_source_iff` — the expressions that are spelled as their values are printed.
-/

namespace HammerJS

open Lexer

variable [Platform]

/-! ## Shapes -/

/-- **Which programs have well-formed values**: those without a malformed phrase, but for what
stands behind a default clause. -/
theorem well_formed_iff {source : List UChar} {j : Json} (h : reflectParse source = .tree j) :
    ∃ body start stop, Accepted source body start stop ∧ j = programValue body.value ∧
      (j.WellFormed ↔ ∀ {c : Category} (p : Phrase c), p.KeptIn body → ¬ p.Malformed) := by
  obtain ⟨body, start, stop, haccepted, -, hj⟩ := reflectParse_tree h
  refine ⟨body, start, stop, haccepted, hj, ?_⟩
  rw [← body.fits_iff, hj, programValue, wellFormed_slots rfl]
  simp [slots, Category.Fits]

omit [Platform] in
/-- The source `if(a);`. -/
theorem well_formed_if : ∃ j,
    @reflectParse exactPlatform (identifierOfChars "if(a);".toList) = .tree j ∧
    ∃ body start stop, @Accepted exactPlatform (identifierOfChars "if(a);".toList) body start stop ∧
      j = programValue (@Phrase.value exactPlatform .stmts body) ∧
      (j.WellFormed ↔ ∀ {c : Category} (p : Phrase c), p.KeptIn body → ¬ p.Malformed) := by
  let _ : Platform := exactPlatform
  have hrun : (@reflectParse exactPlatform (identifierOfChars "if(a);".toList)).isTree
      (programValue [.object .ifStatement [(.test, identifierObject (identifierOfChars ['a'])),
        (.consequent, .object .emptyStatement []), (.alternate, .null)]]) = true := by
    decide +kernel
  exact ⟨_, ReflectResult.of_isTree hrun, well_formed_iff (ReflectResult.of_isTree hrun)⟩

omit [Platform] in
/-- The source `new a;`: what stands in the statement is a statement itself. -/
theorem well_formed_new : ∃ j,
    @reflectParse exactPlatform (identifierOfChars "new a;".toList) = .tree j ∧
      ¬ j.WellFormed := by
  have hrun : (@reflectParse exactPlatform (identifierOfChars "new a;".toList)).isTree
      (programValue [.object .expressionStatement [(.expression, .object .expressionStatement
        [(.expression, identifierObject (identifierOfChars ['a']))])]]) = true := by
    decide +kernel
  refine ⟨_, ReflectResult.of_isTree hrun, ?_⟩
  rw [programValue, wellFormed_slots rfl]
  simp [slots, fits_object, Kind.admits, ObjectType.isExpression]

/-! ## Spellings -/

omit [Platform] in
/-- Without an escape, a name is its text. -/
theorem IdentifierParts.name_eq {b escaped : Bool} {text : List UChar} {name : Identifier}
    (h : IdentifierParts b text name escaped) (hescaped : escaped = false) : text = name := by
  induction h with
  | nil => rfl
  | char hc h ih => rw [ih hescaped]
  | escape => cases hescaped

omit [Platform] in
/-- A name is in ASCII. -/
theorem IdentifierParts.chars {b escaped : Bool} {text : List UChar} {name : Identifier}
    (h : IdentifierParts b text name escaped) : identifierOfChars (charsOf name) = name := by
  have hunit : ∀ {started} {c : UChar}, namesWith started c →
      (Char.ofNat c.toNat).toNat.toUInt16 = c := by
    intro started c hc
    obtain ⟨d, hd, rfl⟩ := (namesWith_iff started c).mp hc
    have hlt := goesWith_ascii hd
    rw [UInt16.toNat_ofNat', Nat.mod_eq_of_lt (by omega), Char.ofNat_toNat]
  induction h with
  | nil => rfl
  | char hc h ih => exact congrArg₂ List.cons (hunit hc) ih
  | escape hd hlen hc h ih => exact congrArg₂ List.cons (hunit hc) ih

/-- The tokens of the type are all spelled alike. -/
def JSTokenType.hasSpelling (t : JSTokenType) : Bool :=
  t != .semicolon && t != .reserved && (punctuators ++ keywords).any fun k => k.2 == t

theorem Spells.spelling_eq {lexType : LexType} {following text : List UChar}
    {t : JSTokenType} {data : JSTokenData} (h : Spells lexType following text t data)
    (ht : t.hasSpelling = true) : text = tokenSpelling t := by
  cases h with
  | punctuator hmem longest =>
      have hall : ∀ p ∈ punctuators, identifierOfChars p.1 = tokenSpelling p.2 := by decide
      exact hall _ hmem
  | @identifier text name escaped h hne =>
      have hident : nameType lexType escaped name ≠ .ident := by
        intro hn
        rw [hn] at ht
        cases ht
      -- only a keyword without escapes is taken for one
      by_cases hyes : escaped = false ∧ lexType = .identifyReservedWords
      · have hall : ∀ k ∈ keywords, k.2.hasSpelling = true →
            identifierOfChars k.1 = tokenSpelling k.2 := by decide
        rw [nameType, if_pos hyes, testKeyword_eq] at hident ht ⊢
        rw [h.name_eq hyes.1, ← hall _ (tokenOf_mem hident) ht]
        exact h.chars.symm
      · exact absurd (if_neg hyes) hident
  | string => cases ht
  | number => cases ht

/-- The lexeme is an identifier, or it is spelled as all tokens of its type are. -/
def Lexeme.HasSpelling : Lexeme → Prop
  | .ident _ => True
  | .mark t => t.hasSpelling = true
  | _ => False

omit [Platform] in
theorem operator_hasSpelling {t : JSTokenType} (h : t.isUnaryOp = true ∨
    t.isBinaryOperator true ≠ 0 ∨ (assignmentOperator t).isSome = true) :
    t.hasSpelling = true := by
  revert h
  cases t <;> decide

omit [Platform] in
/-- The lexemes of an expression that is made of operators. -/
theorem Phrase.OperatorsOnly.hasSpelling : ∀ {e : Phrase .expr}, e.OperatorsOnly →
    ∀ x ∈ e.lexemes, x.HasSpelling
  | .resolve name, _ => by simp [lexemes, Lexeme.HasSpelling]
  | .paren e, h => by
      have he := hasSpelling (e := e) h
      simpa [lexemes, or_imp, forall_and] using ⟨(rfl : JSTokenType.hasSpelling _ = true), he, rfl⟩
  | .unary op e, h => by
      have he := hasSpelling (e := e) h
      simpa [lexemes] using ⟨operator_hasSpelling (.inl op.2), he⟩
  | .postOp increment e, h => by
      have he := hasSpelling (e := e) h
      have hop : (Lexeme.mark (if increment then .plusPlus else .minusMinus)).HasSpelling := by
        cases increment <;> rfl
      simpa [lexemes, or_imp, forall_and] using ⟨he, hop⟩
  | .binary left op right, h => by
      have hleft := hasSpelling (e := left) h.1
      have hright := hasSpelling (e := right) h.2
      simpa [lexemes, or_imp, forall_and] using
        ⟨hleft, operator_hasSpelling (.inr (.inl op.2)), hright⟩
  | .assign left op right, h => by
      have hleft := hasSpelling (e := left) h.1
      have hright := hasSpelling (e := right) h.2
      simpa [lexemes, or_imp, forall_and] using
        ⟨hleft, operator_hasSpelling (.inr (.inr op.2)), hright⟩
  | .cond test left right, h => by
      have htest := hasSpelling (e := test) h.1
      have hleft := hasSpelling (e := left) h.2.1
      have hright := hasSpelling (e := right) h.2.2
      simpa [lexemes, or_imp, forall_and] using
        ⟨htest, (rfl : JSTokenType.hasSpelling _ = true), hleft,
          (rfl : JSTokenType.hasSpelling _ = true), hright⟩

/-- The token that a piece of a source is: a parenthesis, the name of an identifier, or the
text of what else it may be. -/
def Spelling.printed (piece : Spelling) : Printed :=
  match piece.lexeme with
  | .mark .openParen => .openParen
  | .mark .closeParen => .closeParen
  | .ident name => .word name
  | _ => .word piece.text

theorem Spelling.printed_eq {piece : Spelling} {following : List UChar}
    (htext : piece.lexeme.Text following piece.text) (h : piece.lexeme.HasSpelling) :
    piece.printed = piece.lexeme.print := by
  obtain ⟨lexeme, before, text⟩ := piece
  cases lexeme with
  | ident name => rfl
  | mark t =>
      have hspelling : t.hasSpelling = true := h
      have hreal : t.isReal = true := by
        clear htext h
        revert hspelling
        cases t <;> decide
      have hspelled : text = tokenSpelling t := by
        rcases htext hreal with ⟨lexType, data, hspells, -⟩ | ⟨rfl, -⟩
        · exact hspells.spelling_eq hspelling
        · cases hspelling
      subst hspelled
      unfold Spelling.printed Lexeme.print
      cases t <;> rfl
  | _ => exact h.elim

/-! ## Operators -/

/-- **Which expressions are spelled as their values are printed**: a program that is one
expression of identifiers, operators and parentheses is, parentheses aside, exactly if none of
its operators is misspelled. -/
theorem print_eq_source_iff {source : List UChar} {j : Json} (h : reflectParse source = .tree j) :
    ∃ body pieces rest, Parsed source j body pieces rest ∧
      ∀ (e : Phrase .expr) (semi : Bool), body = .moreStmts (.exprStmt e semi) .noStmts →
        e.OperatorsOnly → ∃ own ends, pieces = own ++ ends ∧ own.map Spelling.lexeme = e.lexemes ∧
          (eraseParens j.print = eraseParens (own.map Spelling.printed) ↔
            ∀ {c : Category} (p : Phrase c), p.Within e → ¬ p.Misspelled) := by
  obtain ⟨body, pieces, rest, hparsed, -⟩ := reflectParse_parsed h
  refine ⟨body, pieces, rest, hparsed, ?_⟩
  rintro e semi rfl hops
  have hlexemes : pieces.map Spelling.lexeme = e.lexemes ++ semiLexemes semi := by
    rw [hparsed.lexemes]
    simp [Phrase.lexemes]
  obtain ⟨own, ends, rfl, hown, -⟩ := List.map_eq_append_iff.mp hlexemes
  refine ⟨own, ends, rfl, hown, ?_⟩
  have hsource : own.map Spelling.printed = e.lexemes.map Lexeme.print := by
    rw [← hown, List.map_map]
    refine List.map_congr_left fun piece hpiece => ?_
    obtain ⟨following, -, htext⟩ := hparsed.cut.mem piece (List.mem_append_left _ hpiece)
    exact Spelling.printed_eq htext
      (hops.hasSpelling _ (hown ▸ List.mem_map_of_mem hpiece))
  have hprint : eraseParens j.print = e.printed := by
    rw [hparsed.value]
    simp [programValue, Phrase.value, Json.print, Phrase.printed]
  rw [hsource, hprint]
  exact Phrase.print_eq_iff hops

omit [Platform] in
/-- The source `a+b`. -/
theorem print_eq_source_sum : ∃ j,
    @reflectParse exactPlatform (identifierOfChars "a+b".toList) = .tree j ∧
    ∃ body pieces rest,
      @Parsed exactPlatform (identifierOfChars "a+b".toList) j body pieces rest ∧
      ∀ (e : Phrase .expr) (semi : Bool), body = .moreStmts (.exprStmt e semi) .noStmts →
        e.OperatorsOnly → ∃ own ends, pieces = own ++ ends ∧ own.map Spelling.lexeme = e.lexemes ∧
          (eraseParens j.print = eraseParens (own.map Spelling.printed) ↔
            ∀ {c : Category} (p : Phrase c), p.Within e → ¬ p.Misspelled) := by
  let _ : Platform := exactPlatform
  have hrun : (@reflectParse exactPlatform (identifierOfChars "a+b".toList)).isTree
      (programValue [.object .expressionStatement [(.expression, .object .binaryExpression
        [(.operator, .text "+"), (.left, identifierObject (identifierOfChars ['a'])),
          (.right, identifierObject (identifierOfChars ['b']))])]]) = true := by
    decide +kernel
  exact ⟨_, ReflectResult.of_isTree hrun, print_eq_source_iff (ReflectResult.of_isTree hrun)⟩

end HammerJS
