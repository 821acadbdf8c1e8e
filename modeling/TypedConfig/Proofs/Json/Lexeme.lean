/-
# What a token looks like

The texts of single tokens, as the grammar of JSON has them and apart from any reader:
numbers by their parts (`NumberText`), strings with their escapes (`StringText`), and
words and marks, of which there are few (`Lexeme`). The readers of numbers and strings
take such a text off the start of what they are given, and nothing else.

Key definitions: `ExponentText`, `NumberText`, `UnitText`, `StringText`, `Lexeme`.
Key theorems: `JsonToken.readNumeral?_text`, `JsonToken.exists_of_readNumeral?`,
`JsonToken.readString?_text`, `JsonToken.exists_of_readString?`.
-/
import Mathlib
import TypedConfig.Proofs.Json.Numeral

namespace TypedConfig
namespace JsonToken

/-! ### Numbers -/

/-- An exponent as it is written. -/
structure ExponentText where
  mark : Char
  /-- Its sign, if there is one: whether it is a minus. -/
  minus? : Option Bool
  digits : List Char
  isMark : mark = 'e' ∨ mark = 'E'
  ne_nil : digits ≠ []
  isDigits : ∀ c ∈ digits, isDigit c = true

/-- A sign as it is written. -/
def signText : Option Bool → List Char
  | none => []
  | some minus => [if minus then '-' else '+']

namespace ExponentText

/-- Its characters. -/
def text (e : ExponentText) : List Char := e.mark :: (signText e.minus? ++ e.digits)

/-- The exponent that it stands for. -/
def value (e : ExponentText) : ℤ :=
  if e.minus? = some true then -(digitsValue e.digits : ℤ) else digitsValue e.digits

end ExponentText

/-- A number as it is written, by its parts. -/
structure NumberText where
  negative : Bool
  /-- The digits before the point. -/
  whole : List Char
  /-- The digits after it, if there is one. -/
  fraction? : Option (List Char)
  exponent? : Option ExponentText
  isWhole : IsWhole whole
  isFraction : ∀ ds ∈ fraction?, ds ≠ [] ∧ ∀ c ∈ ds, isDigit c = true

/-- A point with the digits after it, or nothing. -/
def fractionText : Option (List Char) → List Char
  | none => []
  | some ds => '.' :: ds

/-- An exponent, or nothing. -/
def exponentText : Option ExponentText → List Char
  | none => []
  | some e => e.text

namespace NumberText

/-- Its characters. -/
def text (n : NumberText) : List Char :=
  (if n.negative then ['-'] else []) ++
    (n.whole ++ (fractionText n.fraction? ++ exponentText n.exponent?))

/-- The number by its digits. -/
def numeral (n : NumberText) : Numeral :=
  ⟨n.negative, digitsValue (n.whole ++ trimZeros (n.fraction?.getD [])),
    scaleOf? n.fraction? (n.exponent?.map ExponentText.value)⟩

end NumberText

/-! ### Reading the parts of a number -/

theorem noDigit_exponentText (e? : Option ExponentText) {rest : List Char} (hrest : Stops rest) :
    NoDigit (exponentText e? ++ rest) := by
  cases e? with
  | none => exact hrest.noDigit
  | some e =>
    apply noDigit_cons
    rcases e.isMark with h | h <;> rw [h] <;> rfl

theorem readExponent?_text (e? : Option ExponentText) {rest : List Char} (hrest : Stops rest) :
    readExponent? (exponentText e? ++ rest) = some (e?.map ExponentText.value, rest) := by
  cases e? with
  | none => exact readExponent?_none hrest
  | some e =>
    obtain ⟨mark, minus?, digits, isMark, ne_nil, isDigits⟩ := e
    have hspan := spanDigits_append isDigits hrest.noDigit
    have hsign : readSign (signText minus? ++ (digits ++ rest)) =
        (decide (minus? = some true), digits ++ rest) := by
      rcases minus? with _ | _ | _
      · -- the first digit is no sign
        obtain ⟨c, ds, rfl⟩ := List.exists_cons_of_ne_nil ne_nil
        have hc : isDigit c = true := isDigits c List.mem_cons_self
        have hminus : c ≠ '-' := by
          rintro rfl
          cases hc
        have hplus : c ≠ '+' := by
          rintro rfl
          cases hc
        unfold readSign signText
        split
        · rename_i heq
          exact absurd (List.cons.inj heq).1 hminus
        · rename_i heq
          exact absurd (List.cons.inj heq).1 hplus
        · rfl
      · rfl
      · rfl
    obtain ⟨c, ds, rfl⟩ := List.exists_cons_of_ne_nil ne_nil
    simp only [exponentText, ExponentText.text, List.cons_append, List.append_assoc] at hsign hspan ⊢
    simp only [readExponent?, if_pos isMark, hsign, hspan, Option.map_some, ExponentText.value,
      decide_eq_true_eq]

theorem readFraction?_text {f? : Option (List Char)}
    (isFraction : ∀ ds ∈ f?, ds ≠ [] ∧ ∀ c ∈ ds, isDigit c = true) (e? : Option ExponentText)
    {rest : List Char} (hrest : Stops rest) :
    readFraction? (fractionText f? ++ (exponentText e? ++ rest)) =
      some (f?, exponentText e? ++ rest) := by
  cases f? with
  | none =>
    apply readFraction?_none
    cases e? with
    | none =>
      intro h
      exact (hrest '.' h).2.1 rfl
    | some e =>
      intro h
      have hmark : e.mark = '.' := Option.some.inj h
      rcases e.isMark with he | he <;> rw [he] at hmark <;> cases hmark
  | some ds =>
    obtain ⟨hne, hall⟩ := isFraction ds rfl
    exact readFraction?_append hne hall (noDigit_exponentText e? hrest)

/-- **A number that is followed by nothing that could go on with it is read to its end.** -/
theorem readNumeral?_text (n : NumberText) {rest : List Char} (hrest : Stops rest) :
    readNumeral? (n.text ++ rest) = some (n.numeral, rest) := by
  have hdigit : NoDigit (fractionText n.fraction? ++ (exponentText n.exponent? ++ rest)) := by
    cases n.fraction? with
    | none => exact noDigit_exponentText n.exponent? hrest
    | some ds => exact noDigit_cons rfl _
  have hread := readNumeral?_parts n.negative n.isWhole hdigit
    (readFraction?_text n.isFraction n.exponent? hrest) (readExponent?_text n.exponent? hrest)
  simp only [NumberText.text, List.append_assoc]
  exact hread

/-! ### What was read as a number -/

theorem isDigit_of_mem_spanDigits (cs : List Char) : ∀ c ∈ (spanDigits cs).1, isDigit c = true :=
  fun _ hc => List.mem_takeWhile_imp hc

theorem append_spanDigits (cs : List Char) : (spanDigits cs).1 ++ (spanDigits cs).2 = cs :=
  List.takeWhile_append_dropWhile

theorem append_of_readWhole? {cs whole rest : List Char} (h : readWhole? cs = some (whole, rest)) :
    cs = whole ++ rest ∧ IsWhole whole := by
  cases cs with
  | nil => cases h
  | cons c cs =>
    simp only [readWhole?] at h
    by_cases hzero : c = '0'
    · rw [if_pos hzero] at h
      cases h
      exact ⟨by rw [hzero]; rfl, .inl rfl⟩
    · rw [if_neg hzero] at h
      by_cases hdigit : isDigit c = true
      · rw [if_pos hdigit] at h
        have hspan : spanDigits (c :: cs) = (whole, rest) := Option.some.inj h
        have happend := append_spanDigits (c :: cs)
        have hall := isDigit_of_mem_spanDigits (c :: cs)
        have hhead : whole = c :: (spanDigits cs).1 := by
          have hwhole := congrArg Prod.fst hspan
          simp only [spanDigits, List.takeWhile_cons_of_pos hdigit] at hwhole
          exact hwhole.symm
        rw [hspan] at happend hall
        refine ⟨happend.symm, .inr ⟨?_, ?_, hall⟩⟩
        · rw [hhead]
          exact List.cons_ne_nil _ _
        · rw [hhead]
          intro h0
          exact hzero (Option.some.inj h0)
      · rw [if_neg hdigit] at h
        cases h

theorem append_of_readFraction? {cs rest : List Char} {f? : Option (List Char)}
    (h : readFraction? cs = some (f?, rest)) :
    cs = fractionText f? ++ rest ∧ ∀ ds ∈ f?, ds ≠ [] ∧ ∀ c ∈ ds, isDigit c = true := by
  unfold readFraction? at h
  split at h
  · rename_i cs
    have happend := append_spanDigits cs
    have hall := isDigit_of_mem_spanDigits cs
    split at h
    · cases h
    · rename_i digits rest' hne hspan
      cases h
      rw [hspan] at happend hall
      refine ⟨congrArg ('.' :: ·) happend.symm, fun ds hds => ?_⟩
      cases hds
      exact ⟨fun hnil => hne hnil, hall⟩
  · cases h
    exact ⟨rfl, fun ds hds => by cases hds⟩

theorem append_of_readSign (cs : List Char) :
    ∃ minus? : Option Bool, cs = signText minus? ++ (readSign cs).2 ∧
      (readSign cs).1 = decide (minus? = some true) := by
  unfold readSign
  split
  · exact ⟨some true, rfl, rfl⟩
  · exact ⟨some false, rfl, rfl⟩
  · exact ⟨none, rfl, rfl⟩

theorem exists_of_readExponent? {cs rest : List Char} {exponent? : Option ℤ}
    (h : readExponent? cs = some (exponent?, rest)) :
    ∃ e? : Option ExponentText, cs = exponentText e? ++ rest ∧
      exponent? = e?.map ExponentText.value := by
  cases cs with
  | nil =>
    cases h
    exact ⟨none, rfl, rfl⟩
  | cons c cs =>
    simp only [readExponent?] at h
    by_cases hmark : c = 'e' ∨ c = 'E'
    · rw [if_pos hmark] at h
      obtain ⟨minus?, hsign, hminus⟩ := append_of_readSign cs
      have happend := append_spanDigits (readSign cs).2
      have hall := isDigit_of_mem_spanDigits (readSign cs).2
      split at h
      · cases h
      · rename_i digits rest' hne hspan
        rw [hspan] at happend hall
        cases h
        refine ⟨some ⟨c, minus?, digits, hmark, fun hnil => hne hnil, hall⟩, ?_, ?_⟩
        · simp only [exponentText, ExponentText.text, List.cons_append, List.append_assoc]
          rw [happend]
          exact congrArg (c :: ·) hsign
        · simp only [hminus, Option.map_some, ExponentText.value, decide_eq_true_eq]
    · rw [if_neg hmark] at h
      cases h
      exact ⟨none, rfl, rfl⟩

/-- **What is read as a number is one.** -/
theorem exists_of_readNumeral? {cs rest : List Char} {n : Numeral}
    (h : readNumeral? cs = some (n, rest)) :
    ∃ text : NumberText, cs = text.text ++ rest ∧ text.numeral = n := by
  obtain ⟨negative, body, hsign, hbody⟩ : ∃ (negative : Bool) (body : List Char),
      cs = (if negative then ['-'] else []) ++ body ∧
      ((readWhole? body).bind fun whole => (readFraction? whole.2).bind fun fraction =>
        (readExponent? fraction.2).bind fun exponent =>
          some ((⟨negative, digitsValue (whole.1 ++ trimZeros (fraction.1.getD [])),
            scaleOf? fraction.1 exponent.1⟩ : Numeral), exponent.2)) = some (n, rest) := by
    unfold readNumeral? at h
    split at h
    rename_i negative body heq
    refine ⟨negative, body, ?_, h⟩
    split at heq
    · cases heq
      rfl
    · cases heq
      rfl
  simp only [Option.bind_eq_some_iff, Option.some.injEq, Prod.mk.injEq, Prod.exists] at hbody
  obtain ⟨whole, afterWhole, hwhole, fraction?, afterFraction, hfraction, exponent?, afterExponent,
    hexponent, hn, hrest⟩ := hbody
  obtain ⟨hcs, isWhole⟩ := append_of_readWhole? hwhole
  obtain ⟨hcs', isFraction⟩ := append_of_readFraction? hfraction
  obtain ⟨e?, hcs'', hvalue⟩ := exists_of_readExponent? hexponent
  subst hrest
  refine ⟨⟨negative, whole, fraction?, e?, isWhole, isFraction⟩, ?_, ?_⟩
  · simp only [NumberText.text, List.append_assoc]
    rw [hsign, hcs, hcs', hcs'']
  · rw [← hn, hvalue]
    rfl

/-! ### Strings -/

/-- Four hexadecimal digits that spell a 16-bit unit, in either case. -/
inductive UnitText : List Char → ℕ → Prop
  | mk {a b c d : Char} {i j k l : ℕ} (ha : hexValue? a = some i) (hb : hexValue? b = some j)
    (hc : hexValue? c = some k) (hd : hexValue? d = some l) :
    UnitText [a, b, c, d] (((i * 16 + j) * 16 + k) * 16 + l)

/-- The characters that may follow a backslash alone, with what they stand for. -/
def shortEscapes : List (Char × Char) :=
  [('"', '"'), ('\\', '\\'), ('/', '/'), ('b', '\x08'), ('f', '\x0c'), ('n', '\n'), ('r', '\r'),
    ('t', '\t')]

/-- What may stand between quotes, and the characters that it spells. A character outside the first
plane may be spelled by the two halves of a pair; a half stands for nothing alone. -/
inductive StringText : List Char → List Char → Prop
  | nil : StringText [] []
  | plain {c : Char} {text s : List Char} (hquote : c ≠ '"') (hback : c ≠ '\\')
    (hcontrol : 0x20 ≤ c.toNat) (more : StringText text s) : StringText (c :: text) (c :: s)
  | short {c d : Char} {text s : List Char} (h : (c, d) ∈ shortEscapes) (more : StringText text s) :
    StringText ('\\' :: c :: text) (d :: s)
  | coded {digits text s : List Char} {u : ℕ} (h : UnitText digits u) (low : isLowHalf u = false)
    (high : isHighHalf u = false) (more : StringText text s) :
    StringText ('\\' :: 'u' :: (digits ++ text)) (Char.ofNat u :: s)
  | pair {digits digits' text s : List Char} {u v : ℕ} (h : UnitText digits u)
    (h' : UnitText digits' v) (high : isHighHalf u = true) (low : isLowHalf v = true)
    (more : StringText text s) :
    StringText ('\\' :: 'u' :: (digits ++ '\\' :: 'u' :: (digits' ++ text)))
      (Char.ofNat (0x10000 + (u - 0xD800) * 0x400 + (v - 0xDC00)) :: s)

theorem readUnit?_text {digits : List Char} {u : ℕ} (h : UnitText digits u) (rest : List Char) :
    readUnit? (digits ++ rest) = some (u, rest) := by
  cases h with
  | mk ha hb hc hd => simp [readUnit?, ha, hb, hc, hd]

theorem exists_of_readUnit? {cs rest : List Char} {u : ℕ} (h : readUnit? cs = some (u, rest)) :
    ∃ digits, UnitText digits u ∧ cs = digits ++ rest := by
  unfold readUnit? at h
  split at h
  · rename_i a b c d rest'
    simp only [Option.bind_eq_bind, Option.bind_eq_some_iff, Option.pure_def, Option.some.injEq,
      Prod.mk.injEq] at h
    obtain ⟨i, ha, j, hb, k, hc, l, hd, rfl, rfl⟩ := h
    exact ⟨[a, b, c, d], .mk ha hb hc hd, rfl⟩
  · cases h

/-- No unit is the first half of a pair and the second as well. -/
theorem isLowHalf_of_isHighHalf {u : ℕ} (h : isHighHalf u = true) : isLowHalf u = false := by
  simp only [isHighHalf, isLowHalf, decide_eq_true_eq, decide_eq_false_iff_not] at h ⊢
  omega

theorem readEscape?_short {c d : Char} (h : (c, d) ∈ shortEscapes) (rest : List Char) :
    readEscape? (c :: rest) = some (d, rest) := by
  simp only [shortEscapes, List.mem_cons, Prod.mk.injEq, List.not_mem_nil, or_false] at h
  rcases h with ⟨rfl, rfl⟩ | ⟨rfl, rfl⟩ | ⟨rfl, rfl⟩ | ⟨rfl, rfl⟩ | ⟨rfl, rfl⟩ | ⟨rfl, rfl⟩ |
    ⟨rfl, rfl⟩ | ⟨rfl, rfl⟩ <;> rfl

/-- **What stands between quotes is read as what it spells.** -/
theorem readString?_text {text s : List Char} (h : StringText text s) (rest : List Char) :
    ∀ fuel : ℕ, text.length < fuel → readString? fuel (text ++ '"' :: rest) = some (s, rest) := by
  induction h with
  | nil =>
    intro fuel hfuel
    obtain ⟨fuel, rfl⟩ := Nat.exists_eq_add_of_lt hfuel
    simp [readString?]
  | plain hquote hback hcontrol more ih =>
    intro fuel hfuel
    obtain ⟨fuel, rfl⟩ : ∃ n, fuel = n + 1 := ⟨fuel - 1, by omega⟩
    have hrest := ih fuel (by simp only [List.length_cons] at hfuel; omega)
    have hcontrol' : ¬ _ < 0x20 := Nat.not_lt.mpr hcontrol
    simp [readString?, hquote, hback, hcontrol', hrest]
  | @short c d text s hshort more ih =>
    intro fuel hfuel
    obtain ⟨fuel, rfl⟩ : ∃ n, fuel = n + 1 := ⟨fuel - 1, by omega⟩
    have hrest := ih fuel (by simp only [List.length_cons] at hfuel; omega)
    have hescape := readEscape?_short hshort (text ++ '"' :: rest)
    simp [readString?, hescape, hrest]
  | @coded digits text s u hunit low high more ih =>
    intro fuel hfuel
    obtain ⟨fuel, rfl⟩ : ∃ n, fuel = n + 1 := ⟨fuel - 1, by omega⟩
    have hrest := ih fuel (by
      simp only [List.length_cons, List.length_append] at hfuel
      omega)
    have hread := readUnit?_text hunit (text ++ '"' :: rest)
    have hescape : readEscape? ('u' :: (digits ++ (text ++ '"' :: rest))) =
        some (Char.ofNat u, text ++ '"' :: rest) := by
      simp [readEscape?, readCoded?, hread, low, high]
    simp [readString?, hescape, hrest]
  | @pair digits digits' text s u v hunit hunit' high low more ih =>
    intro fuel hfuel
    obtain ⟨fuel, rfl⟩ : ∃ n, fuel = n + 1 := ⟨fuel - 1, by omega⟩
    have hrest := ih fuel (by
      simp only [List.length_cons, List.length_append] at hfuel
      omega)
    have hread := readUnit?_text hunit ('\\' :: 'u' :: (digits' ++ (text ++ '"' :: rest)))
    have hread' := readUnit?_text hunit' (text ++ '"' :: rest)
    have hlow := isLowHalf_of_isHighHalf high
    have hescape : readEscape? ('u' :: (digits ++ '\\' :: 'u' :: (digits' ++ (text ++ '"' :: rest)))) =
        some (Char.ofNat (0x10000 + (u - 0xD800) * 0x400 + (v - 0xDC00)), text ++ '"' :: rest) := by
      simp [readEscape?, readCoded?, hread, hread', hlow, high, low]
    simp [readString?, hescape, hrest]

/-- Characters after a backslash that, put before what may stand between quotes, spell `d` as
well. -/
def Escapes (before : List Char) (d : Char) : Prop :=
  ∀ {text s : List Char}, StringText text s → StringText ('\\' :: (before ++ text)) (d :: s)

theorem exists_of_readCoded? {cs rest : List Char} {d : Char}
    (h : readCoded? cs = some (d, rest)) :
    ∃ before, 'u' :: cs = before ++ rest ∧ Escapes before d := by
  simp only [readCoded?, Option.bind_eq_bind, Option.bind_eq_some_iff, Prod.exists] at h
  obtain ⟨u, after, hunit, h⟩ := h
  obtain ⟨digits, hdigits, rfl⟩ := exists_of_readUnit? hunit
  by_cases hlow : isLowHalf u = true
  · rw [if_pos hlow] at h
    cases h
  rw [if_neg hlow] at h
  by_cases hhigh : isHighHalf u = true
  · -- the other half has to follow
    rw [if_pos hhigh] at h
    split at h
    · rename_i after'
      simp only [Option.bind_eq_some_iff, Prod.exists] at h
      obtain ⟨v, after'', hunit', h⟩ := h
      obtain ⟨digits', hdigits', rfl⟩ := exists_of_readUnit? hunit'
      by_cases hlow' : isLowHalf v = true
      · rw [if_pos hlow'] at h
        obtain ⟨rfl, rfl⟩ := Prod.mk.inj (Option.some.inj h)
        refine ⟨'u' :: (digits ++ '\\' :: 'u' :: digits'), by simp, fun more => ?_⟩
        have hpair := StringText.pair hdigits hdigits' hhigh hlow' more
        simpa using hpair
      · rw [if_neg hlow'] at h
        cases h
    · cases h
  · rw [if_neg hhigh] at h
    obtain ⟨rfl, rfl⟩ := Prod.mk.inj (Option.some.inj h)
    refine ⟨'u' :: digits, rfl, fun more => ?_⟩
    exact .coded hdigits (Bool.eq_false_iff.mpr hlow) (Bool.eq_false_iff.mpr hhigh) more

/-- What was read as an escape is one. -/
theorem exists_of_readEscape? {cs rest : List Char} {d : Char}
    (h : readEscape? cs = some (d, rest)) :
    ∃ before, cs = before ++ rest ∧ Escapes before d := by
  have hshort : ∀ {c e : Char} {after : List Char}, (c, e) ∈ shortEscapes →
      some (e, after) = some (d, rest) →
      ∃ before, c :: after = before ++ rest ∧ Escapes before d := by
    intro c e after hmem he
    obtain ⟨rfl, rfl⟩ := Prod.mk.inj (Option.some.inj he)
    exact ⟨[c], rfl, fun more => .short hmem more⟩
  unfold readEscape? at h
  split at h
  case h_9 cs => exact exists_of_readCoded? h
  case h_10 => cases h
  all_goals exact hshort (by simp [shortEscapes]) h

/-- **What is read as a string stands between quotes.** -/
theorem exists_of_readString? : ∀ (fuel : ℕ) {cs s rest : List Char},
    readString? fuel cs = some (s, rest) → ∃ text, StringText text s ∧ cs = text ++ '"' :: rest
  | 0, _, _, _, h => by cases h
  | _ + 1, [], _, _, h => by cases h
  | fuel + 1, c :: cs, s, rest, h => by
    unfold readString? at h
    by_cases hquote : c = '"'
    · rw [if_pos hquote] at h
      cases h
      exact ⟨[], .nil, by rw [hquote]; rfl⟩
    rw [if_neg hquote] at h
    by_cases hback : c = '\\'
    · rw [if_pos hback] at h
      simp only [Option.bind_eq_bind, Option.bind_eq_some_iff, Option.pure_def, Option.some.injEq,
        Prod.mk.injEq, Prod.exists] at h
      obtain ⟨d, after, hescape, s', rest', hmore, rfl, rfl⟩ := h
      obtain ⟨before, rfl, hput⟩ := exists_of_readEscape? hescape
      obtain ⟨text, htext, rfl⟩ := exists_of_readString? fuel hmore
      exact ⟨'\\' :: (before ++ text), hput htext, by simp [hback]⟩
    rw [if_neg hback] at h
    by_cases hcontrol : c.toNat < 0x20
    · rw [if_pos hcontrol] at h
      cases h
    · rw [if_neg hcontrol] at h
      simp only [Option.bind_eq_bind, Option.bind_eq_some_iff, Option.pure_def, Option.some.injEq,
        Prod.mk.injEq, Prod.exists] at h
      obtain ⟨s', rest', hmore, rfl, rfl⟩ := h
      obtain ⟨text, htext, rfl⟩ := exists_of_readString? fuel hmore
      exact ⟨c :: text, .plain hquote hback (Nat.not_lt.mp hcontrol) htext, rfl⟩

/-! ### Tokens -/

/-- The tokens that are written in one way only. -/
def fixedLexemes : List (List Char × JsonToken) :=
  [(['n', 'u', 'l', 'l'], .null), (['t', 'r', 'u', 'e'], .bool true),
    (['f', 'a', 'l', 's', 'e'], .bool false), (['['], .openArray), ([']'], .closeArray),
    (['\x7b'], .openObject), (['\x7d'], .closeObject), ([','], .comma), ([':'], .colon)]

/-- The text of one token. -/
inductive Lexeme : List Char → JsonToken → Prop
  | fixed {text : List Char} {token : JsonToken} (h : (text, token) ∈ fixedLexemes) :
    Lexeme text token
  | string {text s : List Char} (h : StringText text s) :
    Lexeme ('"' :: (text ++ ['"'])) (.string (String.ofList s))
  | number (n : NumberText) : Lexeme n.text (.number n.numeral)

end JsonToken
end TypedConfig
