import HammerJS.Reflect.Exact
import HammerJS.Runs.Numbers
import HammerJS.Spelling.Encoding
import HammerJS.Spelling.Identifiers

/-!
# The text of literals

What becomes of the string and regular expression literals of a script that is handed to
`reflect_parse` as UTF-8.

* `Lexeme.Denotes` — what a literal of the script stands for.
* `StringText.exact_iff` — the value is the one denoted if the literal is in ASCII.
* `literal_text_iff` — the literals that keep their text.
-/

namespace HammerJS

open Lexer

/-! ## What literals stand for -/

/-- The text of a literal of a script, which `after` stands behind, stands for `d`: a string
for its value, a regular expression for its text. -/
def Lexeme.Denotes (after text d : List UChar) : Lexeme → Prop
  | .string _ => ∃ quote inner, IsQuote quote ∧ text = quote :: inner ++ [quote] ∧
      StringText quote (quote :: after) inner d
  | .regExp _ _ _ => d = text
  | _ => False

/-- The text of a literal that is a string or a regular expression. -/
def Literal.text : Literal → Option Identifier
  | (_, .string s) => some s
  | _ => none

/-- The texts among the literals of a value. -/
def Json.texts (j : Json) : List Identifier := j.literals.filterMap Literal.text

/-- Each text of the value returned for the script `w` is that of a literal; in the same order,
the literals stand in the script, and what they denote there is related to these texts. -/
def TextsRelated [Platform] (related : List UChar → Identifier → Identifier → Prop)
    (w : List UChar) (utf8 : List UInt8) (j : Json) : Prop :=
  ∃ body pieces rest kept, Parsed (scriptCode utf8) j body pieces rest ∧ kept.Sublist pieces ∧
    List.Forall₂ (fun piece s => piece.lexeme.literal.bind Literal.text = some s ∧
      ∃ a text b, w = a ++ text ++ b ∧ Encoded a piece.before ∧ Encoded text piece.text ∧
        ∀ d, piece.lexeme.Denotes b text d → related text d s) kept j.texts

/-! ## Strings -/

section Strings

variable {quote : UChar}

theorem Lexer.IsQuote.ascii (h : IsQuote quote) : quote.toNat < 0x80 := by
  have hdouble : chr '"' = 34 := rfl
  have hsingle : chr '\'' = 39 := rfl
  rcases h with h | h <;> omega

/-- The text of a literal is one that `parseString` records. -/
theorem StringText.chars {inner value rest : List UChar} (hquote : IsQuote quote)
    (h : StringText quote (quote :: rest) inner value) : StringChars quote inner value := by
  have hv : (setCode (quote :: inner ++ quote :: rest)).Valid := rfl
  have hne : (setCode (quote :: inner ++ quote :: rest)).current ≠ -1 := by
    show (quote.toNat : Int) ≠ -1
    omega
  obtain ⟨r, l', hrun, -⟩ := parseString_succeeds hne
  obtain ⟨rfl, hcode, -⟩ := (parseString_accepts hquote hv rfl rfl h).of_eq hrun
  obtain ⟨quote', text, hcurrent, hscans, -, hchars⟩ :=
    (parseString_scans hv rfl).of_eq hrun value rfl
  have hquote' : quote = quote' := UInt16.toNat_inj.mp (Int.ofNat_inj.mp hcurrent)
  have hall : quote :: inner ++ quote :: rest = quote' :: text ++ l'.code := hscans.code
  rw [← hquote', hcode] at hall
  have htext : inner = text := List.append_cancel_right (List.cons.inj hall).2
  rw [htext, hquote']
  exact hchars

theorem StringChars.eq_of_isQuote {text value value' : List UChar} (hquote : IsQuote quote)
    (h : StringChars quote text value) (h' : StringChars quote text value') : value = value' := by
  have hdouble : isASCIIHexDigit (chr '"') = false ∧ isLineTerminator (chr '"') = false := by decide
  have hsingle : isASCIIHexDigit (chr '\'') = false ∧ isLineTerminator (chr '\'') = false := by
    decide
  rcases hquote with hq | hq
  · exact h.unique (hq ▸ hdouble.1) (hq ▸ hdouble.2) h'
  · exact h.unique (hq ▸ hsingle.1) (hq ▸ hsingle.2) h'

/-- A string keeps its value exactly if it is in ASCII. -/
theorem StringText.exact_iff {inner inner' after following d s : List UChar}
    (hquote : IsQuote quote) (hd : StringText quote (quote :: after) inner d)
    (hs : StringChars quote inner' s) (hinner : Encoded inner inner')
    (hafter : Encoded after following) :
    s = d ↔ ∀ c ∈ quote :: inner ++ [quote], c.toNat < 0x80 := by
  have hascii : (∀ c ∈ quote :: inner ++ [quote], c.toNat < 0x80) ↔ ∀ c ∈ inner, c.toNat < 0x80 := by
    simp [hquote.ascii, or_imp, forall_and]
  rw [hascii]
  constructor
  · intro heq
    obtain ⟨value, hvalue, -, hlt⟩ := hd.encoded hquote.ascii hinner hafter
    have hsame : s = value := hs.eq_of_isQuote hquote (hvalue.chars hquote)
    by_contra hall
    push Not at hall
    have := hlt hall
    rw [← hsame, heq] at this
    exact lt_irrefl _ this
  · intro hall
    rw [hinner.of_ascii hall] at hs
    exact hs.eq_of_isQuote hquote (hd.chars hquote)

end Strings

/-! ## From the script to the value -/

section Script

variable {w text following : List UChar} {p q : UChar}

/-- What begins and ends with ASCII stands in the script. -/
theorem Encoded.between {before inner : List UChar} (hp : p.toNat < 0x80) (hq : q.toNat < 0x80)
    (h : Encoded w (before ++ p :: (inner ++ q :: following))) :
    ∃ a inner' b, w = a ++ p :: (inner' ++ q :: b) ∧ Encoded a before ∧ Encoded inner' inner ∧
      Encoded b following := by
  obtain ⟨a, right, rfl, ha, hright⟩ := h.split hp rfl
  obtain ⟨inner', b, rfl, hinner, hb⟩ := hright.split hq rfl
  exact ⟨a, inner', b, rfl, ha, hinner, hb⟩

/-- The text of a string begins and ends with its quote, as it is handed over. -/
theorem Encoded.quoted {inner : List UChar} (hp : p.toNat < 0x80) (hq : q.toNat < 0x80)
    (h : Encoded text (p :: inner ++ [q])) :
    ∃ inner', text = p :: inner' ++ [q] ∧ Encoded inner' inner := by
  have hquoted : Encoded text ([] ++ p :: (inner ++ q :: [])) := h
  obtain ⟨a, inner', b, rfl, ha, hinner, hb⟩ := Encoded.between hp hq hquoted
  rw [ha.eq_nil, hb.eq_nil]
  exact ⟨inner', rfl, hinner⟩

end Script

section Literals

variable [Platform] {following text s : List UChar} {l : Lexeme}

/-- The text of a lexeme that is a string. -/
theorem string_text {value : Identifier} (h : (Lexeme.string value).Text following text) :
    ∃ quote inner, IsQuote quote ∧ text = quote :: inner ++ [quote] ∧
      StringChars quote inner value := by
  rcases h with ⟨lexType, data, hspells, hvalue⟩ | ⟨h, -⟩
  · obtain ⟨quote, inner, value', hquote, htext, hchars, rfl⟩ := hspells.string_text
    exact ⟨quote, inner, hquote, htext, (show value' = value from hvalue) ▸ hchars⟩
  · cases h

/-- The lexemes whose literals are texts. -/
theorem Lexeme.literal_text (h : l.literal.bind Literal.text = some s) :
    l = .string s ∨ ∃ patternPrefix pattern flags,
      l = .regExp patternPrefix pattern flags ∧ s = regExpText pattern flags := by
  cases l with
  | string value => exact Or.inl (congrArg Lexeme.string (Option.some.inj h))
  | regExp patternPrefix pattern flags =>
      exact Or.inr ⟨patternPrefix, pattern, flags, rfl, (Option.some.inj h).symm⟩
  | _ => simp [Lexeme.literal, Literal.text] at h

end Literals

/-- **Which literals keep their text**: exactly those in ASCII. -/
theorem literal_text_iff [Platform] (w : List UChar) (utf8 : List UInt8) (j : Json)
    (hutf8 : Utf8Encoding w utf8) (h : reflect_parse [utf8] = .tree j) :
    TextsRelated (fun text d s => s = d ↔ ∀ c ∈ text, c.toNat < 0x80) w utf8 j := by
  obtain ⟨body, pieces, rest, hparsed, -⟩ := reflectParse_parsed h
  obtain ⟨kept, hkept, hall⟩ := hparsed.literals Literal.text
  refine ⟨body, pieces, rest, kept, hparsed, hkept, hall.imp fun piece s ⟨hmem, hs⟩ => ⟨hs, ?_⟩⟩
  obtain ⟨following, hcode, htext⟩ := hparsed.cut.mem piece hmem
  have hencoded := hutf8.encoded
  rw [show scriptCode utf8 = piece.before ++ piece.text ++ following from hcode] at hencoded
  rcases Lexeme.literal_text hs with hl | ⟨patternPrefix, pattern, flags, hl, rfl⟩
  · rw [hl] at htext ⊢
    obtain ⟨quote, inner, hquote, hquoted, hchars⟩ := string_text htext
    rw [hquoted] at hencoded ⊢
    have hencoded : Encoded w (piece.before ++ quote :: (inner ++ quote :: following)) := by
      simpa using hencoded
    obtain ⟨a, inner', b, rfl, ha, hinner, hb⟩ := hencoded.between hquote.ascii hquote.ascii
    refine ⟨a, quote :: inner' ++ [quote], b, by simp, ha, ?_, ?_⟩
    · exact .ascii hquote.ascii (hinner.append (.ascii hquote.ascii .nil))
    · rintro d ⟨quote', inner₁, hquote', hsame, hd⟩
      obtain ⟨rfl, htail⟩ := List.cons.inj hsame
      have hinner₁ : inner' = inner₁ := List.append_cancel_right htail
      subst hinner₁
      exact hd.exact_iff hquote hchars hinner hb
  · rw [hl] at htext ⊢
    obtain ⟨hpattern, -, hflags⟩ := htext
    have hslash : ('/'.toNat.toUInt16).toNat < 0x80 := by decide
    have hflags : ∀ c ∈ flags, c.toNat < 0x80 := fun c hc => ident_ascii (hflags c hc)
    have hregExp : piece.text = regExpText pattern flags := by
      rw [hpattern]
      simp [regExpText, identifierOfChars]
    rw [hregExp] at hencoded ⊢
    have hencoded : Encoded w (piece.before ++ '/'.toNat.toUInt16 ::
        (pattern ++ '/'.toNat.toUInt16 :: (flags ++ following))) := by
      simpa [regExpText] using hencoded
    obtain ⟨a, pattern', b, rfl, ha, hpattern', hb⟩ := hencoded.between hslash hslash
    obtain ⟨b, rfl, hb⟩ := hb.front hflags
    have hsame : Encoded (regExpText pattern' flags) (regExpText pattern flags) :=
      .ascii hslash (hpattern'.append (.ascii hslash (encoded_ascii hflags)))
    refine ⟨a, regExpText pattern' flags, b, by simp [regExpText], ha, hsame, ?_⟩
    rintro d rfl
    exact hsame.eq_iff

/-- The texts of the value returned for a script. -/
def ReflectResult.texts : ReflectResult → Option (List Identifier)
  | .tree j => some j.texts
  | _ => none

theorem ReflectResult.of_texts {r : ReflectResult} {ss : List Identifier} (h : r.texts = some ss) :
    ∃ j, r = .tree j ∧ j.texts = ss := by
  cases r with
  | tree j => exact ⟨j, rfl, Option.some.inj h⟩
  | _ => cases h

-- the texts in the order of the script `'a','b'`
example : (@reflect_parse exactPlatform [[0x27, 0x61, 0x27, 0x2C, 0x27, 0x62, 0x27]]).texts =
    some [[0x61], [0x62]] := by decide +kernel

/-- The script `'a'`. -/
theorem literal_text_ascii : ∃ j, @reflect_parse exactPlatform [[0x27, 0x61, 0x27]] = .tree j ∧
    @TextsRelated exactPlatform (fun text d s => s = d ↔ ∀ c ∈ text, c.toNat < 0x80)
      [0x27, 0x61, 0x27] [0x27, 0x61, 0x27] j := by
  have hrun : (@reflect_parse exactPlatform [[0x27, 0x61, 0x27]]).texts = some [[0x61]] := by
    decide +kernel
  have hutf8 : Utf8Encoding [0x27, 0x61, 0x27] [0x27, 0x61, 0x27] :=
    .unit (not_surrogate (by decide))
      (.unit (not_surrogate (by decide)) (.unit (not_surrogate (by decide)) .nil))
  obtain ⟨j, hj, -⟩ := ReflectResult.of_texts hrun
  exact ⟨j, hj, @literal_text_iff exactPlatform _ _ j hutf8 hj⟩

/-- The script `'é'`. -/
def accentScript : List UChar := [0x27, 0xE9, 0x27]

/-- No other part of it stands between equal units. -/
theorem accentScript_literal {a inner b : List UChar} {q : UChar}
    (h : accentScript = a ++ (q :: inner ++ [q]) ++ b) : q = 0x27 ∧ inner = [0xE9] ∧ b = [] := by
  unfold accentScript at h
  have hlen := congrArg List.length h
  simp only [List.length_append, List.length_cons, List.length_nil] at hlen
  cases a with
  | nil =>
      obtain ⟨rfl, h⟩ := List.cons.inj h
      cases inner with
      | nil => cases h
      | cons x inner =>
          obtain ⟨rfl, h⟩ := List.cons.inj h
          simp only [List.length_cons, List.length_nil] at hlen
          have hinner : inner = [] := List.eq_nil_of_length_eq_zero (by omega)
          have hb : b = [] := List.eq_nil_of_length_eq_zero (by omega)
          exact ⟨rfl, by rw [hinner], hb⟩
  | cons x a =>
      simp only [List.length_cons] at hlen
      have ha : a = [] := List.eq_nil_of_length_eq_zero (by omega)
      have hinner : inner = [] := List.eq_nil_of_length_eq_zero (by omega)
      rw [ha, hinner] at h
      obtain ⟨-, h⟩ := List.cons.inj h
      obtain ⟨rfl, h⟩ := List.cons.inj h
      cases h

/-- It is a literal of one unit, the value of which has two. -/
theorem literal_text_accent : Utf8Encoding accentScript [0x27, 0xC3, 0xA9, 0x27] ∧
    ∃ j, @reflect_parse exactPlatform [[0x27, 0xC3, 0xA9, 0x27]] = .tree j ∧
      ¬ @TextsRelated exactPlatform (fun _ d s =>
        s = d) accentScript [0x27, 0xC3, 0xA9, 0x27] j := by
  let _ : Platform := exactPlatform
  have hutf8 : Utf8Encoding accentScript [0x27, 0xC3, 0xA9, 0x27] :=
    .unit (not_surrogate (by decide))
      (.unit (not_surrogate (by decide)) (.unit (not_surrogate (by decide)) .nil))
  refine ⟨hutf8, ?_⟩
  have hrun : (@reflect_parse exactPlatform [[0x27, 0xC3, 0xA9, 0x27]]).texts =
      some [[0xFFC3, 0xFFA9]] := by decide +kernel
  obtain ⟨j, hj, htexts⟩ := ReflectResult.of_texts hrun
  refine ⟨j, hj, ?_⟩
  rintro ⟨body, pieces, rest, kept, hparsed, hkept, hall⟩
  rw [htexts] at hall
  obtain ⟨piece, hpiece, hliteral, a, text, b, hw, -, htext, hdenotes⟩ : ∃ piece ∈ kept,
      piece.lexeme.literal.bind Literal.text = some [0xFFC3, 0xFFA9] ∧
        ∃ a text b, accentScript = a ++ text ++ b ∧ Encoded a piece.before ∧
          Encoded text piece.text ∧
            ∀ d, piece.lexeme.Denotes b text d → [0xFFC3, 0xFFA9] = d := by
    cases hall with
    | cons h _ => exact ⟨_, List.mem_cons_self .., h⟩
  obtain ⟨following, -, hspelled⟩ := hparsed.cut.mem piece (hkept.subset hpiece)
  rcases Lexeme.literal_text hliteral with hl | ⟨_, pattern, flags, -, hs⟩
  · rw [hl] at hspelled hdenotes
    obtain ⟨quote, inner, hquote, hquoted, -⟩ := string_text hspelled
    rw [hquoted] at htext
    obtain ⟨inner', rfl, -⟩ := htext.quoted hquote.ascii hquote.ascii
    obtain ⟨rfl, rfl, rfl⟩ := accentScript_literal hw
    have hdenoted : StringText 0x27 [0x27] [0xE9] [0xE9] :=
      .char (by decide) (by decide) (by decide) .nil
    have hvalue := hdenotes [0xE9] ⟨0x27, [0xE9], hquote, rfl, hdenoted⟩
    revert hvalue
    decide
  · cases hs

end HammerJS
