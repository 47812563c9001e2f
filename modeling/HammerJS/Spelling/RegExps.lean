import HammerJS.Spelling.Identifiers

/-!
# Reading regular expressions

`lex` and `scanRegExp` over the regular expression literals of ECMAScript 5.1, 7.8.5.

* `RegularExpressionClassChars`, `RegularExpressionChars`, `RegularExpressionBody` — the
  productions.
* `RegularExpressionChars.scanned` — what they derive is what the loop of `scanRegExp`
  waits for.
* `regExpLoop_reads`, `scanRegExp_reads` — the body and the flags are read.
* `lex_slash` — the token that `lex` takes the start of a literal for.
-/

namespace HammerJS

open Lexer Procs

/-! ## The grammar -/

/-- `RegularExpressionClassChars`: no line terminator, and a `]` only behind a backslash. -/
inductive RegularExpressionClassChars : List UChar → Prop
  | nil : RegularExpressionClassChars []
  | char {c : UChar} {text : List UChar} (hline : isLineTerminator c.toNat = false)
      (hc : c ∉ identifierOfChars [']', '\\']) (h : RegularExpressionClassChars text) :
      RegularExpressionClassChars (c :: text)
  | backslash {c : UChar} {text : List UChar} (hline : isLineTerminator c.toNat = false)
      (h : RegularExpressionClassChars text) :
      RegularExpressionClassChars (identifierOfChars ['\\'] ++ c :: text)

/-- `RegularExpressionChars`: characters, backslash sequences and classes. -/
inductive RegularExpressionChars : List UChar → Prop
  | nil : RegularExpressionChars []
  | char {c : UChar} {text : List UChar} (hline : isLineTerminator c.toNat = false)
      (hc : c ∉ identifierOfChars ['\\', '/', '[']) (h : RegularExpressionChars text) :
      RegularExpressionChars (c :: text)
  | backslash {c : UChar} {text : List UChar} (hline : isLineTerminator c.toNat = false)
      (h : RegularExpressionChars text) :
      RegularExpressionChars (identifierOfChars ['\\'] ++ c :: text)
  | cls {chars text : List UChar} (hchars : RegularExpressionClassChars chars)
      (h : RegularExpressionChars text) :
      RegularExpressionChars (identifierOfChars ['['] ++ chars ++ identifierOfChars [']'] ++ text)

/-- `RegularExpressionBody`: not empty, and without a `*` at its start. -/
structure RegularExpressionBody (body : List UChar) : Prop where
  chars : RegularExpressionChars body
  nonempty : body ≠ []
  first : body.head? ≠ some '*'.toNat.toUInt16

/-! ## What the loop waits for -/

theorem unit_ne {c : UChar} {d : Char} {ds : List Char} (hd : d ∈ ds)
    (h : c ∉ identifierOfChars ds) (hlt : d.toNat < 65536) : (c.toNat : Int) ≠ chr d := by
  intro hc
  apply h
  have hnat : c.toNat = d.toNat := Int.ofNat_inj.mp hc
  have hunit : c = d.toNat.toUInt16 := by
    apply UInt16.toNat_inj.mp
    rw [hnat, UInt16.toNat_ofNat', Nat.mod_eq_of_lt hlt]
  rw [hunit]
  exact List.mem_map_of_mem hd

/-- The characters of a class, and what follows behind its bracket. -/
theorem RegularExpressionClassChars.scanned {chars : List UChar}
    (h : RegularExpressionClassChars chars) {text : List UChar}
    (htext : RegExpChars false false text) :
    RegExpChars false true (chars ++ identifierOfChars [']'] ++ text) := by
  induction h with
  | nil => exact .closeBracket htext
  | @char c chars hline hc h ih =>
      by_cases hopen : c = '['.toNat.toUInt16
      · rw [hopen]
        exact .openBracket ih
      · have hopen : c ∉ identifierOfChars ['['] := by simpa [identifierOfChars] using hopen
        refine .char hline ?_ (fun _ => rfl) ih
        intro d hd
        simp only [List.mem_cons, List.not_mem_nil, or_false] at hd
        rcases hd with rfl | rfl | rfl
        · exact unit_ne (by simp) hopen (by decide)
        · exact unit_ne (by simp) hc (by decide)
        · exact unit_ne (by simp) hc (by decide)
  | backslash hline h ih => exact .backslash (.escaped hline ih)

/-- What the grammar derives is what the loop waits for. -/
theorem RegularExpressionChars.scanned {text : List UChar} (h : RegularExpressionChars text) :
    RegExpChars false false text := by
  induction h with
  | nil => exact .nil
  | @char c text hline hc h ih =>
      by_cases hclose : c = ']'.toNat.toUInt16
      · rw [hclose]
        exact .closeBracket ih
      · have hclose : c ∉ identifierOfChars [']'] := by simpa [identifierOfChars] using hclose
        refine .char hline ?_ (fun hslash => ?_) ih
        · intro d hd
          simp only [List.mem_cons, List.not_mem_nil, or_false] at hd
          rcases hd with rfl | rfl | rfl
          · exact unit_ne (by simp) hc (by decide)
          · exact unit_ne (by simp) hclose (by decide)
          · exact unit_ne (by simp) hc (by decide)
        · exact absurd hslash (unit_ne (by simp) hc (by decide))
  | backslash hline h ih => exact .backslash (.escaped hline ih)
  | cls hchars h ih =>
      rw [List.append_assoc, List.append_assoc]
      exact .openBracket (by simpa using hchars.scanned ih)

/-! ## Reading -/

namespace Lexer

/-- The loop at a character that does not close the literal. -/
theorem regExpLoop_step {escape brackets : Bool} {c : UChar} {rest : List UChar} {l : Lexer}
    {n : Nat} {Q : Bool → Lexer → Prop} (hline : isLineTerminator c.toNat = false)
    (hclose : ¬ ((c.toNat : Int) = chr '/' ∧ (!escape) = true ∧ (!brackets) = true))
    (h : Succeeds
      (if escape = true then regExpLoop false brackets n
        else if (c.toNat : Int) = chr '[' then regExpLoop false true n
        else if (c.toNat : Int) = chr ']' then regExpLoop false false n
        else if (c.toNat : Int) = chr '\\' then regExpLoop true brackets n
        else regExpLoop false brackets n)
      ({ l with buffer16 := l.buffer16 ++ [c] }.skipTo rest) Q) :
    Succeeds (regExpLoop escape brackets (n + 1)) (l.skipTo (c :: rest)) Q := by
  have hend : ¬ (isLineTerminator c.toNat || (c.toNat : Int) == -1) = true := by
    have hne : (c.toNat : Int) ≠ -1 := by omega
    simp [hline, hne]
  have hlt := c.toNat_lt
  simp only [regExpLoop, succeeds_bind, succeeds_getCurrent, skipTo, codeUnit_cons, if_neg hend,
    succeeds_shift, advance, List.tail_cons, if_neg hclose, succeeds_record16, recorded_unit]
  exact ⟨by omega, by omega, h⟩

/-- The loop reads the body of a literal and the slash behind it. -/
theorem regExpLoop_reads {escape brackets : Bool} {body rest : List UChar} {l : Lexer} {n : Nat}
    {Q : Bool → Lexer → Prop} (hbody : RegExpChars escape brackets body)
    (hn : body.length < n)
    (h : Q true ({ l with buffer16 := l.buffer16 ++ body }.skipTo rest)) :
    Succeeds (regExpLoop escape brackets n)
      (l.skipTo (body ++ identifierOfChars ['/'] ++ rest)) Q := by
  induction hbody generalizing l n with
  | nil =>
      obtain ⟨n, rfl⟩ : ∃ m, n = m + 1 := ⟨n - 1, by omega⟩
      have hcode : [] ++ identifierOfChars ['/'] ++ rest = '/'.toNat.toUInt16 :: rest := rfl
      have hslash : (('/'.toNat.toUInt16.toNat : Nat) : Int) = chr '/' := rfl
      have hend : ¬ (isLineTerminator (chr '/') || chr '/' == -1) = true := by decide
      rw [hcode]
      simp only [regExpLoop, succeeds_bind, succeeds_getCurrent, skipTo, codeUnit_cons, hslash,
        if_neg hend, succeeds_shift, advance, List.tail_cons, Bool.not_false, and_self, if_true,
        succeeds_pure]
      rw [List.append_nil] at h
      exact ⟨by decide, h⟩
  | @escaped brackets c text hline htext ih =>
      obtain ⟨n, rfl⟩ : ∃ m, n = m + 1 := ⟨n - 1, by omega⟩
      apply regExpLoop_step hline (by simp)
      rw [if_pos rfl]
      exact ih (by simpa using hn) (by simpa using h)
  | @openBracket brackets text htext ih =>
      obtain ⟨n, rfl⟩ : ∃ m, n = m + 1 := ⟨n - 1, by omega⟩
      have hchr : (('['.toNat.toUInt16.toNat : Nat) : Int) = chr '[' := rfl
      apply regExpLoop_step (c := '['.toNat.toUInt16) (by decide)
        (fun h => absurd (hchr.symm.trans h.1) (by decide))
      rw [if_neg (by decide), if_pos hchr]
      exact ih (by simpa [identifierOfChars] using hn) (by simpa [identifierOfChars] using h)
  | @closeBracket brackets text htext ih =>
      obtain ⟨n, rfl⟩ : ∃ m, n = m + 1 := ⟨n - 1, by omega⟩
      have hchr : ((']'.toNat.toUInt16.toNat : Nat) : Int) = chr ']' := rfl
      apply regExpLoop_step (c := ']'.toNat.toUInt16) (by decide)
        (fun h => absurd (hchr.symm.trans h.1) (by decide))
      rw [if_neg (by decide), if_neg (by rw [hchr]; decide), if_pos hchr]
      exact ih (by simpa [identifierOfChars] using hn) (by simpa [identifierOfChars] using h)
  | @backslash brackets text htext ih =>
      obtain ⟨n, rfl⟩ : ∃ m, n = m + 1 := ⟨n - 1, by omega⟩
      have hchr : (('\\'.toNat.toUInt16.toNat : Nat) : Int) = chr '\\' := rfl
      apply regExpLoop_step (c := '\\'.toNat.toUInt16) (by decide)
        (fun h => absurd (hchr.symm.trans h.1) (by decide))
      rw [if_neg (by decide), if_neg (by rw [hchr]; decide), if_neg (by rw [hchr]; decide),
        if_pos hchr]
      exact ih (by simpa [identifierOfChars] using hn) (by simpa [identifierOfChars] using h)
  | @char brackets c text hline hplain hslash htext ih =>
      obtain ⟨n, rfl⟩ : ∃ m, n = m + 1 := ⟨n - 1, by omega⟩
      apply regExpLoop_step hline
      · rintro ⟨hc, -, hopen⟩
        rw [hslash hc] at hopen
        cases hopen
      · rw [if_neg (by decide), if_neg (hplain '[' (by simp)), if_neg (hplain ']' (by simp)),
          if_neg (hplain '\\' (by simp))]
        exact ih (by simpa using hn) (by simpa using h)

/-- The loop over the flags reads them all. -/
theorem recordWhile16_reads {cond : Int → Bool} {text rest : List UChar} {l : Lexer} {n : Nat}
    {Q : Unit → Lexer → Prop} (hall : ∀ c ∈ text, cond (UInt16.toNat c) = true)
    (hrest : cond (codeUnit rest) = false) (hn : text.length < n)
    (h : Q () ({ l with buffer16 := l.buffer16 ++ text }.skipTo rest)) :
    Succeeds (whileCurrent cond (do record16 (← getCurrent); shift) n) (l.skipTo (text ++ rest))
      Q := by
  induction text generalizing l n with
  | nil =>
      obtain ⟨n, rfl⟩ : ∃ m, n = m + 1 := ⟨n - 1, by omega⟩
      have hcond : ¬ cond (codeUnit ([] ++ rest)) = true := by simpa using hrest
      simp only [whileCurrent, succeeds_bind, succeeds_getCurrent, skipTo, if_neg hcond,
        succeeds_pure]
      rw [List.append_nil] at h
      exact h
  | cons c text ih =>
      obtain ⟨n, rfl⟩ : ∃ m, n = m + 1 := ⟨n - 1, by omega⟩
      have hcond := hall c List.mem_cons_self
      have hlt := c.toNat_lt
      simp only [whileCurrent, succeeds_bind, succeeds_getCurrent, skipTo, List.cons_append,
        codeUnit_cons, if_pos hcond, succeeds_record16, recorded_unit, succeeds_shift, advance,
        List.tail_cons]
      refine ⟨by omega, by omega, ?_⟩
      exact ih (l := { l with buffer16 := l.buffer16 ++ [c] })
        (fun d hd => hall d (List.mem_cons_of_mem c hd)) (by simpa using hn) (by simpa using h)

/-- Behind the prefix, body and flags are read, up to where the flags do not go on. -/
theorem scanPattern_reads {pre body flags rest : List UChar} {l : Lexer}
    {Q : Option (Identifier × Identifier) → Lexer → Prop} (hbuffer : l.buffer16 = pre)
    (hbody : RegExpChars false false body) (hflags : RegExpFlags flags)
    (hrest : isIdentPart (codeUnit rest) = false)
    (h : Q (some (pre ++ body, flags)) ({ l with buffer16 := [] }.skipTo rest)) :
    Succeeds scanPattern (l.skipTo (body ++ identifierOfChars ['/'] ++ flags ++ rest)) Q := by
  rw [List.append_assoc (body ++ identifierOfChars ['/'])]
  simp only [scanPattern, succeeds_bind, succeeds_bound]
  apply regExpLoop_reads hbody
  · simp only [skipTo, List.length_append]
    omega
  · simp only [Bool.not_true, Bool.false_eq_true, if_false, succeeds_bind, succeeds_get,
      succeeds_clearBuffer16, succeeds_bound]
    apply recordWhile16_reads (l := { l with buffer16 := [] }) hflags hrest
    · simp only [skipTo, List.length_append]
      omega
    · simpa [hbuffer, skipTo] using h

/-- **`scanRegExp` reads the rest of a literal**, behind the slash or behind `/=`. -/
theorem scanRegExp_reads {patternPrefix : Option UChar} {body flags rest : List UChar} {l : Lexer}
    (hidle : l.Idle) (hpre : ∀ c ∈ patternPrefix, RegExpPrefix c)
    (hbody : RegExpChars false false body) (hflags : RegExpFlags flags)
    (hrest : isIdentPart (codeUnit rest) = false)
    (hcode : l.code = body ++ identifierOfChars ['/'] ++ flags ++ rest) :
    scanRegExp patternPrefix l = .ok (some (patternPrefix.toList ++ body, flags), l.skipTo rest) := by
  suffices h : Succeeds (scanRegExp patternPrefix) (l.skipTo l.code) fun r l' =>
      r = some (patternPrefix.toList ++ body, flags) ∧ l' = l.skipTo rest by
    obtain ⟨r, l', h, rfl, rfl⟩ := h
    rwa [hidle.valid.skipTo_code] at h
  have hlast : { l with buffer16 := [] }.skipTo rest = l.skipTo rest := by
    simp [skipTo, hidle.buffer16]
  have hempty : (l.skipTo l.code).buffer16.isEmpty = true := by simp [skipTo, hidle.buffer16]
  simp only [scanRegExp, succeeds_bind, succeeds_get, succeeds_assert, hempty, true_and]
  cases patternPrefix with
  | none =>
      rw [hcode]
      apply scanPattern_reads hidle.buffer16 hbody hflags hrest
      exact ⟨rfl, hlast⟩
  | some c =>
      obtain ⟨hterm, hslash, hbracket⟩ := hpre c rfl
      simp only [succeeds_bind, succeeds_assert, succeeds_record16]
      refine ⟨by simp [hterm], by simpa using hslash, by simpa using hbracket, recordable_toNat c, ?_⟩
      rw [recorded_unit, show (l.skipTo l.code).buffer16 = [] from hidle.buffer16, hcode]
      exact scanPattern_reads (l := { l with buffer16 := [c] }) rfl hbody hflags hrest ⟨rfl, hlast⟩

/-- A slash that opens no comment is a division, alone or with the equals sign behind it. -/
theorem lexSlash_division {l : Lexer} {text : List UChar}
    (hcomment : codeUnit text ≠ chr '/' ∧ codeUnit text ≠ chr '*') :
    Succeeds lexSlash (l.skipTo ('/'.toNat.toUInt16 :: text)) fun e l' =>
      (e = .done .divide none ∧ l' = l.skipTo text) ∨
        ∃ rest, text = '='.toNat.toUInt16 :: rest ∧ e = .done .divEqual none ∧
          l' = l.skipTo rest := by
  simp only [lexSlash, ifNext, succeeds_bind, succeeds_shift, succeeds_getCurrent, succeeds_ite,
    skipTo, advance, List.tail_cons, if_neg hcomment.1, if_neg hcomment.2, token, succeeds_pure]
  have hslash : codeUnit ('/'.toNat.toUInt16 :: text) ≠ -1 := by
    rw [codeUnit_cons]
    decide
  refine ⟨hslash, ?_⟩
  by_cases hequal : codeUnit text = chr '='
  · rw [if_pos hequal]
    cases text with
    | nil => cases hequal
    | cons c rest =>
        have hc : c = '='.toNat.toUInt16 := by
          apply UInt16.toNat_inj.mp
          exact Int.ofNat_inj.mp hequal
        exact ⟨by rw [hequal]; decide, Or.inr ⟨rest, by rw [hc], trivial, rfl⟩⟩
  · rw [if_neg hequal]
    exact Or.inl ⟨trivial, trivial⟩

/-- In front of such a slash `lex` answers the token of a division. -/
theorem lex_slash [Platform] (lexType : LexType) (old : JSToken) {l : Lexer} {text : List UChar}
    (hidle : l.Idle) (hcode : l.code = '/'.toNat.toUInt16 :: text)
    (hcomment : codeUnit text ≠ chr '/' ∧ codeUnit text ≠ chr '*') :
    Succeeds (lex lexType old) l fun token l' =>
      (token.type = .divide ∧ text = l'.code) ∨
        (token.type = .divEqual ∧ text = '='.toNat.toUInt16 :: l'.code) := by
  rw [← hidle.valid.skipTo_code, hcode]
  have hslash : (('/'.toNat.toUInt16.toNat : Nat) : Int) = chr '/' := rfl
  have hspace : ¬ isWhiteSpace (chr '/') = true := by decide
  have hend : chr '/' ≠ -1 := by decide
  have htype : characterType (chr '/') = .slash := by decide
  simp only [lex, succeeds_bind, succeeds_get, succeeds_assert, succeeds_modify, succeeds_bound,
    lexFrom, whileCurrent, succeeds_getCurrent, skipTo, codeUnit_cons, hslash, if_neg hspace,
    succeeds_pure, succeeds_currentOffset, if_neg hend, htype, lexSwitch]
  refine ⟨by simp [hidle.error, hidle.buffer8, hidle.buffer16],
    (lexSlash_division (l := { l with terminator := false }) hcomment).mono ?_⟩
  rintro e l' (⟨rfl, rfl⟩ | ⟨rest, rfl, rfl, rfl⟩)
  · simp [returnToken, skipTo]
  · simp [returnToken, skipTo]

end Lexer

end HammerJS
