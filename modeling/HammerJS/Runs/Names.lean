import HammerJS.Reflect.Exact
import HammerJS.Runs.Numbers
import HammerJS.Syntax.Names

/-!
# The names of a program, in its value

Whether the identifiers of a source come out in the value of `Reflect.parse`, in order.

* `Lexeme.Text.ident_ne_nil` — no identifier is empty.
* `NamesKept` — the names of the value are those of the source.
* `names_kept_iff` — the sources of which this holds.
-/

namespace HammerJS

open Lexer

variable [Platform]

/-! ## Identifiers have characters -/

section Texts

variable {following text : List UChar} {name : Identifier}

omit [Platform] in
theorem IdentifierParts.ne_nil {b escaped : Bool} (h : IdentifierParts b text name escaped)
    (hne : text ≠ []) : name ≠ [] := by
  cases h with
  | nil => exact absurd rfl hne
  | char => exact List.cons_ne_nil _ _
  | escape => exact List.cons_ne_nil _ _

theorem Spells.ident_ne_nil {lexType : LexType} {data : JSTokenData}
    (h : Spells lexType following text .ident data) : data.getIdent ≠ [] := by
  generalize ht : JSTokenType.ident = t at h
  cases h with
  | punctuator hmem =>
      have hnone : ∀ p ∈ punctuators, JSTokenType.ident ≠ p.2 := by decide
      exact absurd ht (hnone _ hmem)
  | identifier h hne => exact h.ne_nil hne
  | string => cases ht
  | number => cases ht

theorem Lexeme.Text.ident_ne_nil (h : (Lexeme.ident name).Text following text) : name ≠ [] := by
  rcases h with ⟨lexType, data, hspells, hname⟩ | ⟨h, -⟩
  · exact (show data.getIdent = name from hname) ▸ hspells.ident_ne_nil
  · cases h

end Texts

/-! ## Names of a source -/

/-- The token behind a program is not read as a part of one. -/
def Lexeme.IsPlain : Lexeme → Prop
  | .key _ _ | .numericKey _ | .skipped _ _ => False
  | _ => True

/-- The names of the value `j` are those of the source, in the order of the source: those of the
tokens of the program, and those of whatever tokens are found behind it. -/
def NamesKept (body : Phrase .stmts) (stop : Stream) (j : Json) : Prop :=
  ∀ behind last, (∀ x ∈ behind, x.IsPlain) → Reads behind stop last →
    j.names = lexemeNames (body.lexemes ++ behind)

/-- No identifier stands behind the program. -/
def NoNamesBehind (stop : Stream) : Prop :=
  ∀ behind last, (∀ x ∈ behind, x.IsPlain) → Reads behind stop last → lexemeNames behind = []

/-- **Which programs keep their names**: those without a phrase that loses names, and without an
identifier behind them. -/
theorem names_kept_iff {source : List UChar} {j : Json} (h : reflectParse source = .tree j) :
    ∃ body start stop, Accepted source body start stop ∧ j = programValue body.value ∧
      (NamesKept body stop j ↔
        (∀ {c : Category} (p : Phrase c), p.Within body → ¬ p.LosesNames) ∧ NoNamesBehind stop) := by
  obtain ⟨body, pieces, rest, hparsed, -⟩ := reflectParse_parsed h
  obtain ⟨start, stop, haccepted⟩ := hparsed.accepted
  refine ⟨body, start, stop, haccepted, hparsed.value, ?_⟩
  have hnames : j.names = namesIn (Category.stmts.all body.value) := by
    rw [hparsed.value]
    simp [programValue, Category.all, Field.isName]
  have hnamed : ∀ {c : Category} (p : Phrase c), p.Within body → ¬ p.IsUnnamed := by
    intro c p hp hunnamed
    have hmem := hp.mem_lexemes hunnamed.mem_lexemes
    rw [← hparsed.lexemes] at hmem
    obtain ⟨piece, hpiece, hl⟩ := List.mem_map.mp hmem
    obtain ⟨following, -, htext⟩ := hparsed.cut.mem piece hpiece
    rw [hl] at htext
    exact htext.ident_ne_nil rfl
  have hbody : j.names = lexemeNames body.lexemes ↔
      ∀ {c : Category} (p : Phrase c), p.Within body → ¬ p.LosesNames := by
    rw [hnames, body.names_eq_iff]
    exact ⟨fun h c p hp => (h p hp).1, fun h c p hp => ⟨h p hp, hnamed p hp⟩⟩
  rw [← hbody]
  constructor
  · intro h
    have hown := h [] stop (by simp) rfl
    rw [List.append_nil] at hown
    refine ⟨hown, fun behind last hplain hreads => ?_⟩
    have hall := h behind last hplain hreads
    rw [hown, lexemeNames_append] at hall
    exact List.self_eq_append_right.mp hall
  · rintro ⟨hown, hbehind⟩ behind last hplain hreads
    rw [lexemeNames_append, hbehind behind last hplain hreads, List.append_nil, hown]

omit [Platform] in
/-- The source `f(x)`. -/
theorem names_kept_call : ∃ j,
    @reflectParse exactPlatform (identifierOfChars "f(x)".toList) = .tree j ∧
    ∃ body start stop, @Accepted exactPlatform (identifierOfChars "f(x)".toList) body start stop ∧
      j = programValue (@Phrase.value exactPlatform .stmts body) ∧
      (@NamesKept exactPlatform body stop j ↔
        (∀ {c : Category} (p : Phrase c), p.Within body → ¬ @Phrase.LosesNames exactPlatform c p) ∧
          @NoNamesBehind exactPlatform stop) := by
  let _ : Platform := exactPlatform
  have hrun : (@reflectParse exactPlatform (identifierOfChars "f(x)".toList)).isTree
      (programValue [.object .expressionStatement [(.expression, .object .callExpression
        [(.callee, identifierObject (identifierOfChars ['f'])),
          (.arguments, .array [identifierObject (identifierOfChars ['x'])])])]]) = true := by
    decide +kernel
  exact ⟨_, ReflectResult.of_isTree hrun, names_kept_iff (ReflectResult.of_isTree hrun)⟩

omit [Platform] in
/-- The source `a:;`, the value of which is a program with the statement `undefined`. -/
theorem names_kept_label : ∃ j,
    @reflectParse exactPlatform (identifierOfChars "a:;".toList) = .tree j ∧
    ¬ ∃ body start stop, @Accepted exactPlatform (identifierOfChars "a:;".toList) body start stop ∧
      j = programValue (@Phrase.value exactPlatform .stmts body) ∧
      @NamesKept exactPlatform body stop j := by
  let _ : Platform := exactPlatform
  have hrun : (@reflectParse exactPlatform (identifierOfChars "a:;".toList)).isTree
      (programValue [.undefined]) = true := by decide +kernel
  refine ⟨_, ReflectResult.of_isTree hrun, ?_⟩
  rintro ⟨body, start, stop, -, hj, hkept⟩
  have hvalue : body.value = [.undefined] := by
    simpa [programValue, eq_comm] using hj
  have hnames := hkept [] stop (by simp) rfl
  cases body with
  | noStmts => cases hvalue
  | moreStmts first rest =>
      obtain ⟨hfirst, -⟩ := List.cons.inj hvalue
      cases first with
      | labelled label body => simp [Phrase.lexemes, programValue, Field.isName] at hnames
      | forInVar name init right body =>
          cases init <;> simp [Phrase.value, forInVarValue] at hfirst
      | _ => simp [Phrase.value, blockValue, functionValue] at hfirst

end HammerJS
