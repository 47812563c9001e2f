import HammerJS.Syntax.Legal

/-!
# Where phrases stand

The tokens of a phrase are its own and those of its parts, in the order of the source.

* `Phrase.parts` — the tokens and the parts of a phrase, in order.
* `Phrase.Stands` — where a part of a phrase, or a part of that, stands among its tokens.
* `stands_of_token` — each token of a phrase is the own token of one phrase in it.
* `OperatorPosition`, `OperandPosition` — between the operands of an operator, and where an
  expression starts.
* `division_iff`, `regExp_iff` — in which of them a division token is which.
-/

namespace HammerJS

/-! ## Parts -/

/-- A token, or a phrase. -/
abbrev Part := Lexeme ⊕ ((c : Category) × Phrase c)

/-- The tokens of a part. -/
def Part.lexemes : Part → List Lexeme
  | .inl x => [x]
  | .inr q => q.2.lexemes

/-- The tokens of some parts. -/
def partsLexemes (parts : List Part) : List Lexeme := parts.flatMap Part.lexemes

/-- Some tokens, as parts. -/
def tokens (xs : List Lexeme) : List Part := xs.map .inl

/-- The tokens of a function, from behind `function` to the brace before its body. -/
def headLexemes (name : Option Identifier) (params : List Identifier) : List Lexeme :=
  labelLexemes name ++ .mark .openParen :: paramLexemes params ++
    [.mark .closeParen, .mark .openBrace]

namespace Part

/-- A token of which only the type matters. -/
abbrev mark (t : JSTokenType) : Part := .inl (.mark t)

/-- A phrase. -/
abbrev sub {c : Category} (p : Phrase c) : Part := .inr ⟨c, p⟩

end Part

open Part

namespace Phrase

/-- The tokens of a phrase and the phrases that it is put together from. -/
def parts : {c : Category} → Phrase c → List Part
  | _, this => [mark .thisToken]
  | _, resolve name => [.inl (.ident name)]
  | _, string value => [.inl (.string value)]
  | _, number value => [.inl (.number value)]
  | _, null => [mark .nullToken]
  | _, boolean value => [mark (if value then .trueToken else .falseToken)]
  | _, regExp patternPrefix pattern flags => [.inl (.regExp patternPrefix pattern flags)]
  | _, paren e => [mark .openParen, sub e, mark .closeParen]
  | _, emptyArray elisions =>
      [mark .openBracket] ++ tokens (elisionLexemes elisions) ++ [mark .closeBracket]
  | _, array elisions first rest =>
      [mark .openBracket] ++ tokens (elisionLexemes elisions) ++ [sub first, sub rest]
  | _, emptyObject => [mark .openBrace, mark .closeBrace]
  | _, object first rest => [mark .openBrace, sub first, sub rest, mark .closeBrace]
  | _, function name params body =>
      [mark .function] ++ tokens (headLexemes name params) ++ [sub body, mark .closeBrace]
  | _, bracket base property => [sub base, mark .openBracket, sub property, mark .closeBracket]
  | _, dot base property => [sub base, .inl .dot, .inl (.ident property)]
  | _, call callee args => [sub callee, sub args]
  | _, newArgs callee args => [mark .new, sub callee, sub args]
  | _, newNoArgs callee => [mark .new, sub callee]
  | _, unary op e => [mark op.1, sub e]
  | _, postOp increment e => [sub e, mark (if increment then .plusPlus else .minusMinus)]
  | _, binary left op right => [sub left, mark op.1, sub right]
  | _, cond test left right => [sub test, mark .question, sub left, mark .colon, sub right]
  | _, assign left op right => [sub left, mark op.1, sub right]
  | _, comma first second rest => [sub first, mark .comma, sub second, sub rest]
  | _, moreExprs e rest => [mark .comma, sub e, sub rest]
  | _, noArgs => [mark .openParen, mark .closeParen]
  | _, arguments first rest => [mark .openParen, sub first, sub rest, mark .closeParen]
  | _, noElements => [mark .closeBracket]
  | _, trailingElisions elisions =>
      [mark .comma] ++ tokens (elisionLexemes elisions) ++ [mark .closeBracket]
  | _, moreElements elisions e rest =>
      [mark .comma] ++ tokens (elisionLexemes elisions) ++ [sub e, sub rest]
  | _, prop t name value => [.inl (.key t name), mark .colon, sub value]
  | _, numericProp name value => [.inl (.numericKey name), mark .colon, sub value]
  | _, trailingComma => [mark .comma]
  | _, moreProps p rest => [mark .comma, sub p, sub rest]
  | _, present e => [sub e]
  | _, initializer e => [mark .equal, sub e]
  | _, block body => [mark .openBrace, sub body, mark .closeBrace]
  | _, varDecl name init rest semi =>
      [mark .var, .inl (.ident name), sub init, sub rest] ++ tokens (semiLexemes semi)
  | _, functionDecl name params body =>
      [mark .function] ++ tokens (headLexemes (some name) params) ++
        [sub body, mark .closeBrace]
  | _, empty => [mark .semicolon]
  | _, ifThen test yes => [mark .if, mark .openParen, sub test, mark .closeParen, sub yes]
  | _, ifElse test yes no =>
      [mark .if, mark .openParen, sub test, mark .closeParen, sub yes, mark .else, sub no]
  | _, doWhile body test semi =>
      [mark .do, sub body, mark .while, mark .openParen, sub test, mark .closeParen] ++
        tokens (semiLexemes semi)
  | _, .while test body => [mark .while, mark .openParen, sub test, mark .closeParen, sub body]
  | _, .for init test update body =>
      [mark .for, mark .openParen, sub init, mark .semicolon, sub test, mark .semicolon,
        sub update, mark .closeParen, sub body]
  | _, forVar name init rest t skipped test update body =>
      [mark .for, mark .openParen, mark .var, .inl (.ident name), sub init, sub rest,
        .inl (.skipped t skipped), sub test, mark .semicolon, sub update, mark .closeParen, sub body]
  | _, forIn left right body =>
      [mark .for, mark .openParen, sub left, mark .inToken, sub right, mark .closeParen, sub body]
  | _, forInVar name init right body =>
      [mark .for, mark .openParen, mark .var, .inl (.ident name), sub init, mark .inToken,
        sub right, mark .closeParen, sub body]
  | _, .continue label semi =>
      [mark .continue] ++ tokens (labelLexemes label) ++ tokens (semiLexemes semi)
  | _, .break label semi =>
      [mark .break] ++ tokens (labelLexemes label) ++ tokens (semiLexemes semi)
  | _, .return e semi => [mark .return, sub e] ++ tokens (semiLexemes semi)
  | _, throw e semi => [mark .throw, sub e] ++ tokens (semiLexemes semi)
  | _, .with subject body =>
      [mark .with, mark .openParen, sub subject, mark .closeParen, sub body]
  | _, switch discriminant first default second =>
      [mark .switch, mark .openParen, sub discriminant, mark .closeParen, mark .openBrace,
        sub first, sub default, sub second, mark .closeBrace]
  | _, .try body handler finalizer =>
      [mark .try, mark .openBrace, sub body, mark .closeBrace, sub handler, sub finalizer]
  | _, debugger semi => [mark .debugger] ++ tokens (semiLexemes semi)
  | _, labelled label body => [.inl (.ident label), mark .colon, sub body]
  | _, exprStmt e semi => [sub e] ++ tokens (semiLexemes semi)
  | _, moreStmts first rest => [sub first, sub rest]
  | _, moreClauses test body rest => [mark .case, sub test, mark .colon, sub body, sub rest]
  | _, defaultClause body => [mark .default, mark .colon, sub body]
  | _, moreDecls name init rest => [mark .comma, .inl (.ident name), sub init, sub rest]
  | _, .catch name body =>
      [mark .catch, mark .openParen, .inl (.ident name), mark .closeParen, mark .openBrace,
        sub body, mark .closeBrace]
  | _, .finally body => [mark .finally, mark .openBrace, sub body, mark .closeBrace]
  | _, noExprs | _, noProps | _, absent | _, noInit | _, noStmts | _, noClauses | _, noDefault
  | _, noDecls | _, noHandler | _, noFinalizer => []

-- only to have the equations of the definition made here, once for all that rewrite with them
attribute [local simp] parts

end Phrase

@[simp] theorem partsLexemes_nil : partsLexemes [] = [] := rfl

@[simp] theorem partsLexemes_token (x : Lexeme) (parts : List Part) :
    partsLexemes (.inl x :: parts) = x :: partsLexemes parts := rfl

@[simp] theorem partsLexemes_phrase (q : (c : Category) × Phrase c) (parts : List Part) :
    partsLexemes (.inr q :: parts) = q.2.lexemes ++ partsLexemes parts := rfl

@[simp] theorem partsLexemes_append (parts parts' : List Part) :
    partsLexemes (parts ++ parts') = partsLexemes parts ++ partsLexemes parts' :=
  List.flatMap_append

@[simp] theorem partsLexemes_tokens (xs : List Lexeme) : partsLexemes (tokens xs) = xs := by
  induction xs with
  | nil => rfl
  | cons x xs ih => exact congrArg (x :: ·) ih

/-- The tokens of a phrase are those of its parts. -/
theorem Phrase.lexemes_eq {c : Category} (p : Phrase c) : p.lexemes = partsLexemes p.parts := by
  cases p <;> simp [lexemes, parts, functionLexemes, headLexemes]

/-! ## Positions -/

/-- The phrase stands in the whole, behind some tokens and before others. -/
inductive Phrase.Stands : {c c' : Category} → Phrase c → Phrase c' → List Lexeme → List Lexeme →
    Prop
  | refl {c : Category} (p : Phrase c) : Stands p p [] []
  | part {c c' c'' : Category} {p : Phrase c} {q : Phrase c'} {whole : Phrase c''}
      {a b : List Part} {before behind : List Lexeme} (hq : whole.parts = a ++ sub q :: b)
      (h : Stands p q before behind) :
      Stands p whole (partsLexemes a ++ before) (behind ++ partsLexemes b)

theorem Phrase.Stands.lexemes {c c' : Category} {p : Phrase c} {whole : Phrase c'}
    {before behind : List Lexeme} (h : p.Stands whole before behind) :
    whole.lexemes = before ++ p.lexemes ++ behind := by
  induction h with
  | refl p => simp
  | part hq h ih =>
      rw [Phrase.lexemes_eq, hq, partsLexemes_append, partsLexemes_phrase, ih]
      simp only [List.append_assoc]

/-- Which part a token belongs to. -/
theorem partsLexemes_split {parts : List Part} {before behind : List Lexeme} {x : Lexeme}
    (h : partsLexemes parts = before ++ x :: behind) :
    ∃ a part b before' behind', parts = a ++ part :: b ∧
      part.lexemes = before' ++ x :: behind' ∧ before = partsLexemes a ++ before' ∧
      behind = behind' ++ partsLexemes b := by
  induction parts generalizing before with
  | nil => simp at h
  | cons part parts ih =>
      have h : part.lexemes ++ partsLexemes parts = before ++ x :: behind := h
      rcases List.append_eq_append_iff.mp h with ⟨more, hbefore, hrest⟩ | ⟨more, hpart, hrest⟩
      · obtain ⟨a, part', b, before', behind', rfl, hx, rfl, rfl⟩ := ih hrest
        exact ⟨part :: a, part', b, before', behind', rfl, hx, by rw [hbefore]; simp [partsLexemes],
          rfl⟩
      · cases more with
        | nil =>
            have hrest : partsLexemes parts = [] ++ x :: behind := hrest.symm
            obtain ⟨a, part', b, before', behind', rfl, hx, hnil, rfl⟩ := ih hrest
            obtain ⟨ha, rfl⟩ := List.append_eq_nil_iff.mp hnil.symm
            refine ⟨part :: a, part', b, [], behind', rfl, hx, ?_, rfl⟩
            rw [List.append_nil] at hpart
            simp only [partsLexemes, List.flatMap_cons, List.append_nil] at ha ⊢
            rw [ha, List.append_nil, hpart]
        | cons y more =>
            obtain ⟨rfl, rfl⟩ := List.cons.inj hrest
            exact ⟨[], part, parts, before, more, rfl, hpart, rfl, rfl⟩

theorem Phrase.part_size {c : Category} (p : Phrase c) :
    ∀ q, Sum.inr q ∈ p.parts → sizeOf q.2 < sizeOf p := by
  cases p <;> simp [parts, tokens] <;> grind

/-- **Each token is the own token of one phrase**, and stands where that phrase has it. -/
theorem Phrase.stands_of_token {c : Category} (whole : Phrase c) {before behind : List Lexeme}
    {x : Lexeme} (h : whole.lexemes = before ++ x :: behind) :
    ∃ (c' : Category) (p : Phrase c') (a b : List Part) (before' behind' : List Lexeme),
      p.Stands whole before' behind' ∧ p.parts = a ++ .inl x :: b ∧
        before = before' ++ partsLexemes a ∧ behind = partsLexemes b ++ behind' := by
  rw [lexemes_eq] at h
  obtain ⟨a, part, b, before', behind', hparts, hx, rfl, rfl⟩ := partsLexemes_split h
  rcases part with y | ⟨c', q⟩
  · have hy : [y] = before' ++ x :: behind' := hx
    cases before' with
    | nil =>
        obtain ⟨rfl, rfl⟩ := List.cons.inj hy
        exact ⟨c, whole, a, b, [], [], .refl whole, hparts, by simp, by simp⟩
    | cons z before' => simp at hy
  · have hsize := whole.part_size ⟨c', q⟩ (by rw [hparts]; simp)
    obtain ⟨c'', p, a', b', before'', behind'', hstands, hp, rfl, rfl⟩ := q.stands_of_token hx
    refine ⟨c'', p, a', b', _, _, .part hparts hstands, hp, ?_, ?_⟩
    · rw [List.append_assoc]
    · rw [List.append_assoc]
termination_by sizeOf whole

/-! ## Divisions and regular expressions -/

/-- The type of the token that a lexeme is read from. -/
def Lexeme.type : Lexeme → JSTokenType
  | mark t | key t _ | skipped t _ => t
  | ident _ => .ident
  | string _ => .string
  | number _ | numericKey _ => .number
  | dot => .dot
  | regExp patternPrefix _ _ => if patternPrefix.isSome then .divEqual else .divide

/-- The lexeme is a division token that stands for a division. -/
def Lexeme.IsDivision (x : Lexeme) : Prop := x = .mark .divide ∨ x = .mark .divEqual

/-- The lexeme is a regular expression. -/
def Lexeme.IsRegExp (x : Lexeme) : Prop :=
  ∃ patternPrefix pattern flags, x = .regExp patternPrefix pattern flags

/-- The token type `/` or `/=`. -/
def JSTokenType.IsSlash (t : JSTokenType) : Prop := t = .divide ∨ t = .divEqual

/-- The phrase is an operator between two operands. -/
inductive Phrase.Operation : {c : Category} → Phrase c → Phrase .expr → Phrase .expr → Prop
  | binary (left : Phrase .expr) (op : BinaryToken) (right : Phrase .expr) :
      Operation (.binary left op right) left right
  | assign (left : Phrase .expr) (op : AssignmentToken) (right : Phrase .expr) :
      Operation (.assign left op right) left right

/-- What is behind `before` and in front of `behind` stands between two operands. -/
def OperatorPosition {c : Category} (whole : Phrase c) (before behind : List Lexeme) : Prop :=
  ∃ (p left right : Phrase .expr) (before' behind' : List Lexeme), p.Operation left right ∧
    p.Stands whole before' behind' ∧ before = before' ++ left.lexemes ∧
    behind = right.lexemes ++ behind'

/-- An expression starts behind `before`. -/
def OperandPosition {c : Category} (whole : Phrase c) (before : List Lexeme) : Prop :=
  ∃ (e : Phrase .expr) (behind : List Lexeme), e.Stands whole before behind

theorem mem_tokens {x : Lexeme} {xs : List Lexeme} : .inl x ∈ tokens xs ↔ x ∈ xs := by
  simp [tokens]

/-- Between the names of parameters there are commas. -/
theorem mem_paramLexemes {x : Lexeme} :
    ∀ params, x ∈ paramLexemes params → x = .mark .comma ∨ ∃ name, x = .ident name
  | [], h => absurd h (by simp [paramLexemes])
  | [name], h => Or.inr ⟨name, List.mem_singleton.mp h⟩
  | name :: next :: rest, h => by
      have h : x ∈ .ident name :: .mark .comma :: paramLexemes (next :: rest) := h
      rcases List.mem_cons.mp h with rfl | h
      · exact Or.inr ⟨name, rfl⟩
      · rcases List.mem_cons.mp h with rfl | h
        · exact Or.inl rfl
        · exact mem_paramLexemes (next :: rest) h

/-- Semicolons, labels, commas and the head of a function are neither. -/
theorem no_slash {x : Lexeme} (hx : x.type.IsSlash) :
    (∀ semi, x ∉ semiLexemes semi) ∧ (∀ label, x ∉ labelLexemes label) ∧
      (∀ elisions, x ∉ elisionLexemes elisions) ∧ ∀ name params, x ∉ headLexemes name params := by
  have hmark : ∀ t : JSTokenType, ¬ t.IsSlash → x ≠ .mark t := by
    rintro t ht rfl
    exact ht hx
  have hident : ∀ name, x ≠ .ident name := by
    rintro name rfl
    rcases hx with hx | hx <;> cases hx
  have hcomma := hmark .comma (by simp [JSTokenType.IsSlash])
  have hsemicolon := hmark .semicolon (by simp [JSTokenType.IsSlash])
  have hparen := hmark .openParen (by simp [JSTokenType.IsSlash])
  have hparen' := hmark .closeParen (by simp [JSTokenType.IsSlash])
  have hbrace := hmark .openBrace (by simp [JSTokenType.IsSlash])
  have hparams : ∀ params, x ∉ paramLexemes params := by
    intro params h
    rcases mem_paramLexemes params h with h | ⟨name, h⟩
    · exact hcomma h
    · exact hident name h
  have hlabel : ∀ label, x ∉ labelLexemes label := by
    intro label
    cases label <;> simp [labelLexemes, hident]
  refine ⟨fun semi => ?_, hlabel, fun elisions => ?_, fun name params => ?_⟩
  · cases semi <;> simp [semiLexemes, hsemicolon]
  · simp [elisionLexemes, hcomma]
  · simp [headLexemes, hlabel, hparams, hparen, hparen', hbrace]

/-- A division among the own tokens of a phrase is its operator. -/
theorem Phrase.own_division {c : Category} {p : Phrase c} {t : JSTokenType} (ht : t.IsSlash)
    (h : .inl (.mark t) ∈ p.parts) :
    ∃ left right, p.Operation left right ∧ p.parts = [sub left, mark t, sub right] := by
  obtain ⟨hsemi, hlabel, helisions, hhead⟩ := no_slash (x := .mark t) ht
  cases p with
  | binary left op right =>
      have hop : t = op.1 := by simpa [parts] using h
      exact ⟨left, right, .binary left op right, by rw [hop]; rfl⟩
  | assign left op right =>
      have hop : t = op.1 := by simpa [parts] using h
      exact ⟨left, right, .assign left op right, by rw [hop]; rfl⟩
  | unary op e =>
      have hop : t = op.1 := by simpa [parts] using h
      have hunary := op.2
      rw [← hop] at hunary
      rcases ht with rfl | rfl <;> cases hunary
  | boolean value =>
      rcases ht with rfl | rfl <;> cases value <;> simp [parts] at h
  | postOp increment e =>
      rcases ht with rfl | rfl <;> cases increment <;> simp [parts] at h
  | _ =>
      rcases ht with rfl | rfl <;> simp [parts, mem_tokens, hsemi, hlabel, helisions, hhead] at h

/-- A regular expression among the own tokens of a phrase is all of it. -/
theorem Phrase.own_regExp {c : Category} {p : Phrase c} {patternPrefix : Option UChar}
    {pattern flags : Identifier} (h : .inl (.regExp patternPrefix pattern flags) ∈ p.parts) :
    (⟨c, p⟩ : (c : Category) × Phrase c) = ⟨.expr, .regExp patternPrefix pattern flags⟩ := by
  obtain ⟨hsemi, hlabel, helisions, hhead⟩ := no_slash (x := .regExp patternPrefix pattern flags)
    (by cases patternPrefix <;> simp [Lexeme.type, JSTokenType.IsSlash])
  cases p with
  | regExp patternPrefix' pattern' flags' =>
      simp only [parts, List.mem_singleton, Sum.inl.injEq, Lexeme.regExp.injEq] at h
      obtain ⟨rfl, rfl, rfl⟩ := h
      rfl
  | _ => simp [parts, mem_tokens, hsemi, hlabel, helisions, hhead] at h

/-- **A division is what stands between two operands.** -/
theorem division_iff {c : Category} {whole : Phrase c} {before behind : List Lexeme} {x : Lexeme}
    (h : whole.lexemes = before ++ x :: behind) (hx : x.type.IsSlash) :
    x.IsDivision ↔ OperatorPosition whole before behind := by
  constructor
  · intro hdivision
    obtain ⟨t, ht, rfl⟩ : ∃ t, t.IsSlash ∧ x = .mark t := by
      rcases hdivision with rfl | rfl
      · exact ⟨_, Or.inl rfl, rfl⟩
      · exact ⟨_, Or.inr rfl, rfl⟩
    obtain ⟨c', p, a, b, before', behind', hstands, hp, rfl, rfl⟩ := whole.stands_of_token h
    obtain ⟨left, right, hoperation, hparts⟩ := Phrase.own_division ht (by rw [hp]; simp)
    obtain ⟨rfl, rfl⟩ : a = [sub left] ∧ b = [sub right] := by
      rw [hparts] at hp
      match a with
      | [] => cases hp
      | [y] =>
          simp only [List.cons_append, List.nil_append, List.cons.injEq] at hp
          exact ⟨by rw [hp.1], hp.2.2.symm⟩
      | [y, z] => simp at hp
      | y :: z :: w :: a => simp at hp
    cases hoperation with
    | binary left op right =>
        exact ⟨_, left, right, before', behind', .binary left op right, hstands, by simp, by simp⟩
    | assign left op right =>
        exact ⟨_, left, right, before', behind', .assign left op right, hstands, by simp, by simp⟩
  · rintro ⟨p, left, right, before', behind', hoperation, hstands, rfl, rfl⟩
    rw [hstands.lexemes] at h
    cases hoperation with
    | binary left op right | assign left op right =>
        have hop : .mark op.1 = x := by simpa [Phrase.lexemes] using h
        rw [← hop] at hx ⊢
        rcases hx with hx | hx
        · exact Or.inl (congrArg Lexeme.mark hx)
        · exact Or.inr (congrArg Lexeme.mark hx)

theorem Phrase.head_append {e : Phrase .expr} {more rest : List Lexeme} {x : Lexeme}
    (h : e.lexemes ++ more = x :: rest) : ∃ rest', e.lexemes = x :: rest' := by
  rcases List.append_eq_cons_iff.mp h with ⟨hnil, -⟩ | ⟨rest', hrest, -⟩
  · exact absurd hnil e.lexemes_ne_nil
  · exact ⟨rest', hrest⟩

/-- The first token of an expression is no division. -/
theorem Phrase.head_token (e : Phrase .expr) {x : Lexeme} {rest : List Lexeme}
    (h : e.lexemes = x :: rest) (hx : x.type.IsSlash) : x.IsRegExp := by
  match e with
  | .regExp patternPrefix pattern flags =>
      exact ⟨patternPrefix, pattern, flags, (List.cons.inj h).1.symm⟩
  -- what starts with an expression starts with its first token
  | .bracket base _ | .dot base _ | .call base _ | .postOp _ base | .binary base _ _
  | .cond base _ _ | .assign base _ _ | .comma base _ _ =>
      obtain ⟨rest', h⟩ := head_append (e := base) (by simpa [lexemes] using h)
      exact base.head_token h hx
  | .unary op e =>
      have hop : .mark op.1 = x := (List.cons.inj h).1
      have hunary := op.2
      rw [← hop] at hx
      rcases hx with hx | hx
      · rw [show op.1 = .divide from hx] at hunary
        cases hunary
      · rw [show op.1 = .divEqual from hx] at hunary
        cases hunary
  | .boolean value =>
      rw [← (List.cons.inj h).1] at hx
      cases value <;> rcases hx with hx | hx <;> cases hx
  | .this | .resolve _ | .string _ | .number _ | .null | .paren _ | .emptyArray _ | .array _ _ _
  | .emptyObject | .object _ _ | .function _ _ _ | .newArgs _ _ | .newNoArgs _ =>
      rw [← (List.cons.inj h).1] at hx
      rcases hx with hx | hx <;> cases hx

/-- **A regular expression is what stands where an expression starts.** -/
theorem regExp_iff {c : Category} {whole : Phrase c} {before behind : List Lexeme} {x : Lexeme}
    (h : whole.lexemes = before ++ x :: behind) (hx : x.type.IsSlash) :
    x.IsRegExp ↔ OperandPosition whole before := by
  constructor
  · rintro ⟨patternPrefix, pattern, flags, rfl⟩
    obtain ⟨c', p, a, b, before', behind', hstands, hp, rfl, rfl⟩ := whole.stands_of_token h
    have hmem : .inl (.regExp patternPrefix pattern flags) ∈ p.parts := by
      rw [hp]
      simp
    have howned := Phrase.own_regExp hmem
    cases howned
    have ha : a = [] := by
      match a with
      | [] => rfl
      | y :: a => simp [Phrase.parts] at hp
    rw [ha, partsLexemes_nil, List.append_nil]
    exact ⟨_, behind', hstands⟩
  · rintro ⟨e, behind', hstands⟩
    rw [hstands.lexemes, List.append_assoc] at h
    have h := List.append_cancel_left h
    cases hlexemes : e.lexemes with
    | nil => exact absurd hlexemes e.lexemes_ne_nil
    | cons y rest =>
        rw [hlexemes] at h
        have hy : y = x := (List.cons.inj h).1
        exact e.head_token (hy ▸ hlexemes) hx

end HammerJS
