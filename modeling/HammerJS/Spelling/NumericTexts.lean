import HammerJS.Spelling.Texts

/-!
# Numeric literals, as texts

Which texts are numeric literals, and where the one at the start of the code ends: the
longest match counts, as everywhere in the lexical grammar.

* `run_prefix` — a run of one class inside of another, with what follows each.
* `NumericText`, `LongestNumber` — the literals, and the one that the code starts with.
* `LongestExponent`, `LongestDecimal` — the parts of a decimal literal, one after another.
* `LongestNumber.hex`, `LongestNumber.octal`, `LongestNumber.decimal` — what has to follow.
* `NumberScan` — the accumulator or the conversion that a literal gets its value from.
-/

namespace HammerJS

/-! ## Runs -/

/-- A run of the class `p` and what stands behind it, inside of another run and what
stands behind that. -/
theorem run_prefix {α : Type} {p : α → Prop} {run more run' rest : List α}
    (hrun : ∀ c ∈ run, p c) (hrun' : ∀ c ∈ run', p c)
    (hmore : ∀ c, more.head? = some c → ¬ p c) (hrest : ∀ c, rest.head? = some c → ¬ p c)
    (h : run ++ more <+: run' ++ rest) :
    more = [] ∧ run.length ≤ run'.length ∨ run = run' ∧ more <+: rest := by
  induction run generalizing run' with
  | nil =>
      rw [List.nil_append] at h
      cases run' with
      | nil => exact Or.inr ⟨rfl, h⟩
      | cons c run' =>
          cases more with
          | nil => exact Or.inl ⟨rfl, Nat.zero_le _⟩
          | cons d more =>
              -- the character behind the run would belong to the class
              obtain ⟨rfl, -⟩ := List.cons_prefix_cons.mp h
              exact absurd (hrun' d (List.mem_cons_self ..)) (hmore d rfl)
  | cons c run ih =>
      have hc := hrun c (List.mem_cons_self ..)
      cases run' with
      | nil =>
          obtain ⟨tail, htail⟩ := h
          rw [List.nil_append] at htail
          exact absurd hc (hrest c (by rw [← htail]; rfl))
      | cons d run' =>
          rw [List.cons_append, List.cons_append, List.cons_prefix_cons] at h
          obtain ⟨rfl, hp⟩ := h
          have hmem : ∀ e ∈ run, p e := fun e he => hrun e (List.mem_cons_of_mem _ he)
          have hmem' : ∀ e ∈ run', p e := fun e he => hrun' e (List.mem_cons_of_mem _ he)
          rcases ih hmem hmem' hp with ⟨hnil, hlen⟩ | ⟨rfl, hmore⟩
          · exact Or.inl ⟨hnil, Nat.succ_le_succ hlen⟩
          · exact Or.inr ⟨rfl, hmore⟩

/-- The code does not go on with the class where its first code unit is not in it. -/
theorem head_not {p : Int → Bool} {code : List UChar} (h : p (codeUnit code) = false) :
    ∀ c, code.head? = some c → ¬ p (UInt16.toNat c) = true := by
  intro c hc
  cases code with
  | nil => cases hc
  | cons d code =>
      cases hc
      rw [show codeUnit (c :: code) = c.toNat from rfl] at h
      simp [h]

/-- A run alone is not longer than the one that it is in. -/
theorem run_length_le {p : Int → Bool} {run run' rest : List UChar}
    (hrun : ∀ c ∈ run, p (UInt16.toNat c) = true) (hrun' : ∀ c ∈ run', p (UInt16.toNat c) = true)
    (hrest : p (codeUnit rest) = false) (h : run <+: run' ++ rest) :
    run.length ≤ run'.length := by
  have h : run ++ [] <+: run' ++ rest := by rwa [List.append_nil]
  rcases run_prefix hrun hrun' (by simp) (head_not hrest) h with ⟨-, hlen⟩ | ⟨rfl, -⟩
  · exact hlen
  · exact le_rfl

/-! ## The literals -/

/-- Whether the digits that the text starts with are a zero and octal digits. -/
def OctalWhole (text : List UChar) : Prop :=
  ∃ digits, text.takeWhile (fun c => isASCIIDigit c.toNat) = identifierOfChars ['0'] ++ digits ∧
    OctalDigits digits ∧ digits ≠ []

/-- The numeric literals: hexadecimal, octal, and decimal where the digits before the point
are not an octal literal already. -/
inductive NumericText : List UChar → Prop
  | hex {x : UChar} {digits : List UChar} (hx : orBit20 x.toNat = chr 'x')
      (hd : HexDigits digits) (hne : digits ≠ []) :
      NumericText (identifierOfChars ['0'] ++ x :: digits)
  | octal {digits : List UChar} (hd : OctalDigits digits) (hne : digits ≠ []) :
      NumericText (identifierOfChars ['0'] ++ digits)
  | decimal {text : List UChar} (h : DecimalText text) (hoctal : ¬ OctalWhole text) :
      NumericText text

/-- The code `text ++ rest` starts with the literal `text`, and with no longer one. -/
structure LongestNumber (text rest : List UChar) : Prop where
  numeric : NumericText text
  longest : ∀ p, NumericText p → p <+: text ++ rest → p.length ≤ text.length

/-- The code starts with one literal only. -/
theorem LongestNumber.unique {text rest text' rest' : List UChar} (h : LongestNumber text rest)
    (h' : LongestNumber text' rest') (heq : text ++ rest = text' ++ rest') :
    text = text' ∧ rest = rest' := by
  have hle : text.length ≤ text'.length :=
    h'.longest text h.numeric (heq ▸ List.prefix_append text rest)
  have hge : text'.length ≤ text.length :=
    h.longest text' h'.numeric (heq ▸ List.prefix_append text' rest')
  exact List.append_inj heq (le_antisymm hle hge)

/-! ## Exponents -/

/-- The exponent that the code goes on with is `exponent`, and not a longer one. -/
def LongestExponent (exponent rest : List UChar) : Prop :=
  ∀ p, ExponentText p → p <+: exponent ++ rest → p.length ≤ exponent.length

theorem ExponentText.head {exponent : List UChar} (h : ExponentText exponent) :
    ∀ c, exponent.head? = Option.some c → orBit20 (UInt16.toNat c) = chr 'e' := by
  cases h with
  | none => simp
  | some he _ _ _ =>
      intro c hc
      cases hc
      exact he

theorem isASCIIDigit_e {c : UChar} (h : orBit20 c.toNat = chr 'e') :
    isASCIIDigit c.toNat = false ∧ (c.toNat : Int) ≠ chr '.' ∧ isIdentStart c.toNat = true := by
  have hall : ∀ n < 128, orBit20 (n : Nat) = chr 'e' → isASCIIDigit (n : Nat) = false ∧
      ((n : Nat) : Int) ≠ chr '.' ∧ isIdentStart (n : Nat) = true := by decide
  have hle : c.toNat ≤ c.toNat ||| 0x20 := Nat.left_le_or
  have hor : ((c.toNat ||| 0x20 : Nat) : Int) = 101 := by
    rw [orBit20, if_neg (by omega)] at h
    exact h
  exact hall c.toNat (by omega) h

theorem isIdentStart_e {code : List UChar} (h : orBit20 (codeUnit code) = chr 'e') :
    isIdentStart (codeUnit code) = true := by
  cases code with
  | nil => exact absurd h (by decide)
  | cons c code => exact (isASCIIDigit_e h).2.2

/-- The first code unit of a prefix. -/
theorem codeUnit_of_starts {c : UChar} {p code : List UChar} (h : c :: p <+: code) :
    codeUnit code = c.toNat := by
  obtain ⟨tail, rfl⟩ := h
  rfl

/-- The sign of an exponent: none, a plus or a minus. -/
def SignText (sign : List UChar) : Prop :=
  sign = [] ∨ sign = identifierOfChars ['+'] ∨ sign = identifierOfChars ['-']

/-- Two signs in the same place are one, where none of them leaves a sign behind. -/
theorem SignText.unique {sign sign' rest rest' : List UChar} (h : SignText sign)
    (h' : SignText sign') (hplain : sign = [] → codeUnit rest ≠ chr '+' ∧ codeUnit rest ≠ chr '-')
    (hplain' : sign' = [] → codeUnit rest' ≠ chr '+' ∧ codeUnit rest' ≠ chr '-')
    (heq : codeUnit (sign ++ rest) = codeUnit (sign' ++ rest')) : sign = sign' := by
  have hne : chr '+' ≠ chr '-' := by decide
  rcases h with rfl | rfl | rfl <;> rcases h' with rfl | rfl | rfl
  · rfl
  · exact absurd heq (hplain rfl).1
  · exact absurd heq (hplain rfl).2
  · exact absurd heq.symm (hplain' rfl).1
  · rfl
  · exact absurd heq hne
  · exact absurd heq.symm (hplain' rfl).2
  · exact absurd heq hne.symm
  · rfl

/-- Behind the `e` and the sign, an exponent of the code can only go on with digits. -/
theorem ExponentText.digits {e : UChar} {sign rest p : List UChar} (hsign : SignText sign)
    (hplain : sign = [] → codeUnit rest ≠ chr '+' ∧ codeUnit rest ≠ chr '-')
    (h : ExponentText p) (hp : p <+: e :: sign ++ rest) :
    p = [] ∨ ∃ digits, p = e :: sign ++ digits ∧ Digits digits ∧ digits ≠ [] ∧ digits <+: rest := by
  have hplus : isASCIIDigit (chr '+') = false := by decide
  have hminus : isASCIIDigit (chr '-') = false := by decide
  cases h with
  | none => exact Or.inl rfl
  | @some e' sign' digits he hsign' hd hne =>
      right
      rw [List.cons_append, List.cons_append] at hp
      obtain ⟨rfl, hbehind⟩ := List.cons_prefix_cons.mp hp
      obtain ⟨d, digits, rfl⟩ := List.exists_cons_of_ne_nil hne
      have hdigit : isASCIIDigit d.toNat = true := hd d (List.mem_cons_self ..)
      have hplain' : codeUnit (d :: digits) ≠ chr '+' ∧ codeUnit (d :: digits) ≠ chr '-' := by
        constructor <;> intro heq <;> rw [show (d.toNat : Int) = _ from heq] at hdigit
        · rw [hplus] at hdigit
          cases hdigit
        · rw [hminus] at hdigit
          cases hdigit
      have hunit : codeUnit (sign' ++ d :: digits) = codeUnit (sign ++ rest) := by
        cases hfirst : sign' ++ d :: digits with
        | nil => simp at hfirst
        | cons c p => exact (codeUnit_of_starts (hfirst ▸ hbehind)).symm
      obtain rfl : sign' = sign := SignText.unique hsign' hsign (fun _ => hplain') hplain hunit
      exact ⟨_, rfl, hd, hne, (List.prefix_append_right_inj sign').mp hbehind⟩

/-- No exponent follows. -/
theorem LongestExponent.none {rest : List UChar} (h : orBit20 (codeUnit rest) ≠ chr 'e') :
    LongestExponent [] rest := by
  intro p hp hprefix
  cases p with
  | nil => exact le_rfl
  | cons c p =>
      rw [List.nil_append] at hprefix
      rw [codeUnit_of_starts hprefix] at h
      exact absurd (hp.head c rfl) h

/-- The `e` that follows does not begin an exponent. -/
theorem LongestExponent.malformed {e : UChar} {sign rest : List UChar} (hsign : SignText sign)
    (hplain : sign = [] → codeUnit rest ≠ chr '+' ∧ codeUnit rest ≠ chr '-')
    (hrest : isASCIIDigit (codeUnit rest) = false) : LongestExponent [] (e :: sign ++ rest) := by
  intro p hp hprefix
  rcases hp.digits hsign hplain hprefix with rfl | ⟨digits, rfl, hd, hne, hrun⟩
  · exact le_rfl
  · obtain ⟨d, digits, rfl⟩ := List.exists_cons_of_ne_nil hne
    rw [codeUnit_of_starts hrun, hd d (List.mem_cons_self ..)] at hrest
    cases hrest

/-- All digits of the exponent have been read. -/
theorem LongestExponent.some {e : UChar} {sign digits rest : List UChar} (hsign : SignText sign)
    (hd : Digits digits) (hne : digits ≠ []) (hrest : isASCIIDigit (codeUnit rest) = false) :
    LongestExponent (e :: sign ++ digits) rest := by
  intro p hp hprefix
  obtain ⟨d, digits, rfl⟩ := List.exists_cons_of_ne_nil hne
  have hdigit : isASCIIDigit d.toNat = true := hd d (List.mem_cons_self ..)
  have hplain : codeUnit (d :: digits ++ rest) ≠ chr '+' ∧
      codeUnit (d :: digits ++ rest) ≠ chr '-' := by
    constructor <;> intro heq <;> rw [show (d.toNat : Int) = _ from heq] at hdigit <;>
      exact absurd hdigit (by decide)
  rw [List.append_assoc] at hprefix
  rcases hp.digits hsign (fun _ => hplain) hprefix with rfl | ⟨digits', rfl, hd', -, hrun⟩
  · exact Nat.zero_le _
  · have hlen := run_length_le hd' hd hrest hrun
    simp only [List.length_append] at hlen ⊢
    omega

/-! ## Decimal literals -/

/-- The decimal number that the code goes on with is `text`, and not a longer one. -/
def LongestDecimal (text rest : List UChar) : Prop :=
  ∀ p, DecimalText p → p <+: text ++ rest → p.length ≤ text.length

/-- What begins with an `e` or is nothing does not begin with a digit. -/
theorem ExponentText.head_not_digit {exponent : List UChar} (h : ExponentText exponent) :
    ∀ c, exponent.head? = Option.some c → ¬ isASCIIDigit (UInt16.toNat c) = true := by
  intro c hc
  simp [(isASCIIDigit_e (h.head c hc)).1]

/-- An exponent does not begin with a point. -/
theorem ExponentText.of_point {exponent rest : List UChar} (h : ExponentText exponent)
    (hp : exponent <+: identifierOfChars ['.'] ++ rest) : exponent = [] := by
  cases exponent with
  | nil => rfl
  | cons c exponent =>
      have hc : chr '.' = c.toNat := codeUnit_of_starts hp
      exact absurd hc.symm (isASCIIDigit_e (h.head c rfl)).2.1

theorem point_not_digit {code : List UChar} :
    ∀ c, (identifierOfChars ['.'] ++ code).head? = some c →
      ¬ isASCIIDigit (UInt16.toNat c) = true := by
  intro c hc
  cases hc
  decide

/-- A whole number with its exponent: neither a digit nor a point follows the digits. -/
theorem LongestDecimal.whole {whole exponent rest : List UChar} (hw : Digits whole)
    (hdigit : isASCIIDigit (codeUnit (exponent ++ rest)) = false)
    (hpoint : codeUnit (exponent ++ rest) ≠ chr '.') (he : LongestExponent exponent rest) :
    LongestDecimal (whole ++ exponent) rest := by
  intro p hp hprefix
  rw [List.append_assoc] at hprefix
  cases hp with
  | whole hw' hne' he' =>
      rcases run_prefix hw' hw he'.head_not_digit (head_not hdigit) hprefix with
        ⟨rfl, hlen⟩ | ⟨rfl, hmore⟩
      · simp only [List.length_append, List.length_nil]
        omega
      · have := he _ he' hmore
        simp only [List.length_append]
        omega
  | @point whole' fraction' exponent' hw' hf' hne' he' =>
      simp only [List.append_assoc] at hprefix
      rcases run_prefix hw' hw point_not_digit (head_not hdigit) hprefix with
        ⟨hnil, -⟩ | ⟨rfl, hmore⟩
      · simp [identifierOfChars] at hnil
      · exact absurd (codeUnit_of_starts hmore) hpoint

/-- A number with a point: no digit follows the fraction. -/
theorem LongestDecimal.point {whole fraction exponent rest : List UChar} (hw : Digits whole)
    (hf : Digits fraction) (hdigit : isASCIIDigit (codeUnit (exponent ++ rest)) = false)
    (he : LongestExponent exponent rest) :
    LongestDecimal (whole ++ identifierOfChars ['.'] ++ fraction ++ exponent) rest := by
  intro p hp hprefix
  simp only [List.append_assoc] at hprefix
  simp only [List.length_append]
  cases hp with
  | whole hw' hne' he' =>
      rcases run_prefix hw' hw he'.head_not_digit point_not_digit hprefix with
        ⟨rfl, hlen⟩ | ⟨rfl, hmore⟩
      · simp only [List.length_append, List.length_nil]
        omega
      · rw [he'.of_point hmore]
        simp only [List.length_append, List.length_nil]
        omega
  | @point whole' fraction' exponent' hw' hf' hne' he' =>
      simp only [List.append_assoc] at hprefix
      rcases run_prefix hw' hw point_not_digit point_not_digit hprefix with
        ⟨hnil, -⟩ | ⟨rfl, hmore⟩
      · simp [identifierOfChars] at hnil
      rw [List.prefix_append_right_inj] at hmore
      -- the same digits before the point: the fractions are compared next
      simp only [List.length_append]
      rcases run_prefix hf' hf he'.head_not_digit (head_not hdigit) hmore with
        ⟨rfl, hlen⟩ | ⟨rfl, hexponent⟩
      · simp only [List.length_nil]
        omega
      · have := he _ he' hexponent
        omega

/-! ## All literals -/

theorem octalDigit_isDigit {c : Int} (h : isASCIIOctalDigit c = true) : isASCIIDigit c = true := by
  have h0 : chr '0' = 48 := rfl
  have h7 : chr '7' = 55 := rfl
  have h9 : chr '9' = 57 := rfl
  simp only [isASCIIOctalDigit, isASCIIDigit, Bool.and_eq_true, decide_eq_true_eq] at h ⊢
  omega

/-- A zero and octal digits. -/
theorem OctalDigits.zero {digits : List UChar} (h : OctalDigits digits) :
    Digits (identifierOfChars ['0'] ++ digits) := by
  intro d hmem
  rcases List.mem_append.mp hmem with hmem | hmem
  · rw [List.mem_singleton.mp hmem]
    decide
  · exact octalDigit_isDigit (h d hmem)

/-- The `x` of a hexadecimal literal is no part of another one. -/
theorem hexPrefix_not {x : UChar} (h : orBit20 x.toNat = chr 'x') :
    isASCIIDigit x.toNat = false ∧ (x.toNat : Int) ≠ chr '.' ∧ orBit20 x.toNat ≠ chr 'e' := by
  have hall : ∀ n < 128, orBit20 (n : Nat) = chr 'x' → isASCIIDigit (n : Nat) = false ∧
      ((n : Nat) : Int) ≠ chr '.' ∧ orBit20 (n : Nat) ≠ chr 'e' := by decide
  have hle : x.toNat ≤ x.toNat ||| 0x20 := Nat.left_le_or
  have hor : ((x.toNat ||| 0x20 : Nat) : Int) = 120 := by
    rw [orBit20, if_neg (by omega)] at h
    exact h
  exact hall x.toNat (by omega) h

/-- An `x` is no octal digit. -/
theorem octal_not_hex {x : UChar} {p digits rest : List UChar} (hx : orBit20 x.toNat = chr 'x')
    (hd : OctalDigits digits) (hne : digits ≠ []) : ¬ x :: p <+: digits ++ rest := by
  intro hp
  obtain ⟨d, digits, rfl⟩ := List.exists_cons_of_ne_nil hne
  obtain ⟨rfl, -⟩ := List.cons_prefix_cons.mp hp
  have hdigit := octalDigit_isDigit (hd x (List.mem_cons_self ..))
  rw [(hexPrefix_not hx).1] at hdigit
  cases hdigit

/-- A hexadecimal literal ends where no hexadecimal digit follows. -/
theorem LongestNumber.hex {x : UChar} {digits rest : List UChar} (hx : orBit20 x.toNat = chr 'x')
    (hd : HexDigits digits) (hne : digits ≠ [])
    (hrest : isASCIIHexDigit (codeUnit rest) = false) :
    LongestNumber (identifierOfChars ['0'] ++ x :: digits) rest := by
  refine ⟨.hex hx hd hne, fun p hp hprefix => ?_⟩
  rw [List.append_assoc] at hprefix
  obtain ⟨hdigit, hpoint, he⟩ := hexPrefix_not hx
  cases hp with
  | @hex x' digits' hx' hd' hne' =>
      rw [List.prefix_append_right_inj] at hprefix
      obtain ⟨rfl, hrun⟩ := List.cons_prefix_cons.mp hprefix
      have hlen := run_length_le hd' hd hrest hrun
      simp only [List.length_append, List.length_cons]
      omega
  | octal hd' hne' =>
      rw [List.prefix_append_right_inj] at hprefix
      obtain ⟨d, digits', rfl⟩ := List.exists_cons_of_ne_nil hne'
      obtain ⟨rfl, -⟩ := List.cons_prefix_cons.mp hprefix
      have := octalDigit_isDigit (hd' d (List.mem_cons_self ..))
      rw [hdigit] at this
      cases this
  | decimal h _ =>
      -- the zero alone is all that a decimal number can read here
      have hzero : Digits (identifierOfChars ['0']) := by simp [Digits, identifierOfChars]; decide
      have hlongest : LongestDecimal (identifierOfChars ['0'] ++ []) (x :: digits ++ rest) :=
        .whole hzero hdigit hpoint (.none he)
      have hlen := hlongest p h hprefix
      simp only [List.length_append, List.length_nil, List.length_cons] at hlen ⊢
      omega

/-- An octal literal ends where no digit follows. -/
theorem LongestNumber.octal {digits rest : List UChar} (hd : OctalDigits digits)
    (hne : digits ≠ []) (hrest : isASCIIDigit (codeUnit rest) = false) :
    LongestNumber (identifierOfChars ['0'] ++ digits) rest := by
  refine ⟨.octal hd hne, fun p hp hprefix => ?_⟩
  cases hp with
  | hex hx' hd' hne' =>
      rw [List.append_assoc, List.prefix_append_right_inj] at hprefix
      exact absurd hprefix (octal_not_hex hx' hd hne)
  | octal hd' hne' =>
      exact run_length_le hd'.zero hd.zero hrest hprefix
  | decimal h hoctal =>
      by_contra hlong
      rw [not_le] at hlong
      -- a longer number goes on behind all the digits, so its whole part is octal
      obtain ⟨more, rfl⟩ := List.prefix_of_prefix_length_le (List.prefix_append _ rest) hprefix
        hlong.le
      have hmore : more <+: rest := (List.prefix_append_right_inj _).mp hprefix
      refine hoctal ⟨digits, ?_, hd, hne⟩
      rw [List.takeWhile_append_of_pos hd.zero]
      cases more with
      | nil => simp
      | cons c more =>
          rw [codeUnit_of_starts hmore] at hrest
          rw [List.takeWhile_cons_of_neg (by simp [hrest]), List.append_nil]

/-- A decimal literal ends with its number, where that is not the zero of `0x`. -/
theorem LongestNumber.decimal {text rest : List UChar} (h : DecimalText text)
    (hoctal : ¬ OctalWhole text) (hlongest : LongestDecimal text rest)
    (hhex : ∀ x digits, orBit20 (UInt16.toNat x) = chr 'x' → HexDigits digits → digits ≠ [] →
      ¬ identifierOfChars ['0'] ++ x :: digits <+: text ++ rest) : LongestNumber text rest := by
  refine ⟨.decimal h hoctal, fun p hp hprefix => ?_⟩
  cases hp with
  | hex hx' hd' hne' => exact absurd hprefix (hhex _ _ hx' hd' hne')
  | @octal digits' hd' hne' =>
      have hwhole : DecimalText (identifierOfChars ['0'] ++ digits' ++ []) :=
        .whole hd'.zero (by simp [identifierOfChars]) .none
      rw [List.append_nil] at hwhole
      exact hlongest _ hwhole hprefix
  | decimal h' _ => exact hlongest p h' hprefix

/-! ## Values -/

/-- An accumulator of 32 bits holds the value of every part of the digits. -/
def Fits (radix : Nat) (digits : List UChar) : Prop :=
  ∀ p, p <+: digits → digitsValue radix (charsOf p) < 2 ^ 32

/-- Where the value of a literal comes from: the accumulator of its scanner, while it has
few digits, else the conversion, which gets all of them. -/
inductive NumberScan [Platform] : List UChar → Double → Prop
  | hexFast {x : UChar} {digits : List UChar} (hx : orBit20 x.toNat = chr 'x')
      (hd : HexDigits digits) (hne : digits ≠ []) (hlen : digits.length ≤ 7)
      (hfits : Fits 16 digits) :
      NumberScan (identifierOfChars ['0'] ++ x :: digits)
        (.finite (digitsValue 16 (charsOf digits)))
  | hexSlow {x : UChar} {digits : List UChar} {buffer : List Char}
      (hx : orBit20 x.toNat = chr 'x') (hd : HexDigits digits) (hlen : 7 < digits.length)
      (hbuffer : buffer.map Char.toLower = (charsOf digits).map Char.toLower) :
      NumberScan (identifierOfChars ['0'] ++ x :: digits) (Platform.parseIntOverflow buffer 16)
  | octalFast {digits : List UChar} (hd : OctalDigits digits) (hne : digits ≠ [])
      (hlen : digits.length ≤ 9) (hfits : Fits 8 digits) :
      NumberScan (identifierOfChars ['0'] ++ digits) (.finite (digitsValue 8 (charsOf digits)))
  | octalSlow {digits : List UChar} (hd : OctalDigits digits) (hlen : 9 < digits.length) :
      NumberScan (identifierOfChars ['0'] ++ digits)
        (Platform.parseIntOverflow ('0' :: charsOf digits) 8)
  | decimalFast {digits : List UChar} (hd : Digits digits) (hne : digits ≠ [])
      (hzero : codeUnit digits ≠ chr '0') (hlen : digits.length ≤ 9) (hfits : Fits 10 digits) :
      NumberScan digits (.finite (digitsValue 10 (charsOf digits)))
  | decimalSlow {text : List UChar} (h : DecimalText text) (hoctal : ¬ OctalWhole text)
      (hslow : Digits text → codeUnit text ≠ chr '0' → 9 < text.length) :
      NumberScan text (Platform.strtod (lowerExponent text))

end HammerJS
