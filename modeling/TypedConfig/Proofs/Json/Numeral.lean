/-
# Numbers that are written read back

Where a number is followed by nothing that could go on with it (`Stops`), the reader
takes its text to the end, whatever comes then: the digits of an integer
(`readNumeral?_integerText`), and those of a decimal in any of its three layouts
(`readNumeral?_decimalText`). Of the latter the zeros at the end are not kept, which
leaves the value as it was.

Key definitions: `Stops`, `JsonToken.IsWhole`.
Key theorems: `JsonToken.readNumeral?_integerText`, `JsonToken.readNumeral?_decimalText`.
-/
import Mathlib
import TypedConfig.Binary.Style
import TypedConfig.Json.Token
import TypedConfig.Proofs.Binary.Shortest

namespace TypedConfig

namespace JsonToken

/-! ### Digits -/

theorem isDigit_eq (c : Char) : isDigit c = c.isDigit := by
  unfold isDigit Char.isDigit
  simp [Char.le_def]

theorem digitsValue_eq (ds : List Char) : digitsValue ds = Nat.ofDigitChars 10 ds 0 := rfl

theorem isDigit_toDigits {n : ℕ} : ∀ c ∈ Nat.toDigits 10 n, isDigit c = true := fun c hc => by
  rw [isDigit_eq]
  exact Nat.isDigit_of_mem_toDigits (by norm_num) (by norm_num) hc

theorem digitsValue_toDigits (n : ℕ) : digitsValue (Nat.toDigits 10 n) = n :=
  Nat.ofDigitChars_ten_toDigits

theorem digitsValue_zeros_append (k : ℕ) (ds : List Char) :
    digitsValue (List.replicate k '0' ++ ds) = digitsValue ds := by
  simp [digitsValue_eq, Nat.ofDigitChars_append]

theorem digitsValue_append_zeros (ds : List Char) (k : ℕ) :
    digitsValue (ds ++ List.replicate k '0') = 10 ^ k * digitsValue ds := by
  simp [digitsValue_eq, Nat.ofDigitChars_append]

theorem head_toDigits_ne_zero {n : ℕ} (hn : n ≠ 0) : (Nat.toDigits 10 n).head? ≠ some '0' := by
  induction n using Nat.strong_induction_on with
  | _ n ih =>
    rw [Nat.toDigits_eq_if (by norm_num)]
    split
    · simpa using hn
    · rename_i h
      rw [List.head?_append_of_ne_nil _ Nat.toDigits_ne_nil]
      exact ih (n / 10) (by omega) (by omega)

/-- Zeros at the end of digits, put back. -/
theorem trimZeros_append (ds : List Char) : ∃ k,
    ds = trimZeros ds ++ List.replicate k '0' ∧ ds.length = (trimZeros ds).length + k := by
  have hsplit := List.takeWhile_append_dropWhile (p := (· = '0')) (l := ds.reverse)
  obtain ⟨k, hk⟩ : ∃ k, ds.reverse.takeWhile (· = '0') = List.replicate k '0' :=
    ⟨_, List.eq_replicate_of_mem fun c hc => by simpa using List.mem_takeWhile_imp hc⟩
  rw [hk] at hsplit
  have h := congrArg List.reverse hsplit
  rw [List.reverse_append, List.reverse_reverse, List.reverse_replicate] at h
  refine ⟨k, h.symm, ?_⟩
  have := congrArg List.length h
  rw [List.length_append, List.length_replicate] at this
  exact this.symm

/-- The zeros at the end of a fraction do not matter. -/
theorem value_trimZeros (whole fraction : List Char) (exponent : ℤ) :
    (⟨digitsValue (whole ++ trimZeros fraction), exponent - (trimZeros fraction).length⟩ :
      Decimal).value =
      (⟨digitsValue (whole ++ fraction), exponent - fraction.length⟩ : Decimal).value := by
  obtain ⟨k, happ, hlen⟩ := trimZeros_append fraction
  have hv : digitsValue (whole ++ fraction) = 10 ^ k * digitsValue (whole ++ trimZeros fraction) := by
    rw [happ, ← List.append_assoc, digitsValue_append_zeros, ← happ]
  unfold Decimal.value
  rw [hv, hlen]
  have he : exponent - ((trimZeros fraction).length : ℤ) =
      exponent - (((trimZeros fraction).length + k : ℕ) : ℤ) + k := by push_cast; ring
  rw [he, zpow_add₀ (by norm_num), zpow_natCast]
  push_cast
  ring

theorem digitsValue_trimZeros_le (whole fraction : List Char) :
    digitsValue (whole ++ trimZeros fraction) ≤ digitsValue (whole ++ fraction) := by
  obtain ⟨k, happ, -⟩ := trimZeros_append fraction
  conv_rhs => rw [happ]
  rw [← List.append_assoc, digitsValue_append_zeros]
  exact Nat.le_mul_of_pos_left _ (by positivity)

/-! ### What may follow a number -/

/-- A text that does not start like the rest of a number. -/
def Stops (rest : List Char) : Prop :=
  ∀ c, rest.head? = some c → isDigit c = false ∧ c ≠ '.' ∧ c ≠ 'e' ∧ c ≠ 'E'

theorem stops_nil : Stops [] := fun c h => by cases h

/-- A text that does not start with a digit. -/
def NoDigit (rest : List Char) : Prop := ∀ c, rest.head? = some c → isDigit c = false

theorem Stops.noDigit {rest : List Char} (h : Stops rest) : NoDigit rest := fun c hc => (h c hc).1

theorem noDigit_cons {c : Char} (h : isDigit c = false) (rest : List Char) : NoDigit (c :: rest) :=
  fun d hd => by cases hd; exact h

theorem spanDigits_append {ds rest : List Char} (hds : ∀ c ∈ ds, isDigit c = true)
    (hrest : NoDigit rest) : spanDigits (ds ++ rest) = (ds, rest) := by
  unfold spanDigits
  rw [List.takeWhile_append_of_pos hds, List.dropWhile_append_of_pos hds]
  cases rest with
  | nil => simp
  | cons c rest => simp [hrest c rfl]

/-! ### The parts of a number -/

/-- Digits as they may stand before a point. -/
def IsWhole (ds : List Char) : Prop :=
  ds = ['0'] ∨ ds ≠ [] ∧ ds.head? ≠ some '0' ∧ ∀ c ∈ ds, isDigit c = true

theorem isWhole_toDigits (n : ℕ) : IsWhole (Nat.toDigits 10 n) := by
  by_cases hn : n = 0
  · exact .inl (by rw [hn]; rfl)
  · exact .inr ⟨Nat.toDigits_ne_nil, head_toDigits_ne_zero hn, isDigit_toDigits⟩

theorem readWhole?_append {ds rest : List Char} (hds : IsWhole ds) (hrest : NoDigit rest) :
    readWhole? (ds ++ rest) = some (ds, rest) := by
  rcases hds with rfl | ⟨hne, hhead, hall⟩
  · rfl
  · cases ds with
    | nil => exact absurd rfl hne
    | cons c ds =>
      have hc : c ≠ '0' := fun h => hhead (by rw [h]; rfl)
      have hd : isDigit c = true := hall c List.mem_cons_self
      have hspan := spanDigits_append hall hrest
      simp only [List.cons_append] at hspan ⊢
      simp only [readWhole?, hc, if_false, hd, if_true, hspan]

theorem readFraction?_append {ds rest : List Char} (hne : ds ≠ [])
    (hds : ∀ c ∈ ds, isDigit c = true) (hrest : NoDigit rest) :
    readFraction? ('.' :: (ds ++ rest)) = some (some ds, rest) := by
  simp only [readFraction?, spanDigits_append hds hrest]

theorem readFraction?_none {rest : List Char} (h : rest.head? ≠ some '.') :
    readFraction? rest = some (none, rest) := by
  unfold readFraction?
  split
  · exact absurd rfl h
  · rfl

theorem readExponent?_none {rest : List Char} (h : Stops rest) :
    readExponent? rest = some (none, rest) := by
  cases rest with
  | nil => rfl
  | cons c rest =>
    obtain ⟨-, -, he, hE⟩ := h c rfl
    simp [readExponent?, he, hE]

/-- An exponent as it is written: its mark, a sign in any case, and the digits. -/
theorem readExponent?_integer (e : ℤ) {rest : List Char} (hrest : NoDigit rest) :
    readExponent? ('e' :: ((if e < 0 then "" else "+").toList ++
      (NumberStyle.integerText e).toList ++ rest)) = some (some e, rest) := by
  obtain ⟨c, ds, hds⟩ := List.exists_cons_of_ne_nil (Nat.toDigits_ne_nil (n := e.natAbs) (b := 10))
  have hspan := spanDigits_append (isDigit_toDigits (n := e.natAbs)) hrest
  have hvalue := digitsValue_toDigits e.natAbs
  rw [hds] at hspan hvalue
  rw [List.cons_append] at hspan
  by_cases he : e < 0
  · simp only [NumberStyle.integerText, NumberStyle.naturalText, he, if_true, hds]
    simp [readExponent?, readSign, hspan, hvalue, abs_of_neg he]
  · simp only [NumberStyle.integerText, NumberStyle.naturalText, he, if_false, hds]
    simpa [readExponent?, readSign, hspan, hvalue] using not_lt.mp he

/-- The scale of a number with these parts. -/
def scaleOf? (fraction? : Option (List Char)) (exponent? : Option ℤ) : Option ℤ :=
  match fraction?, exponent? with
  | none, none => none
  | _, exponent? => some (exponent?.getD 0 - (trimZeros (fraction?.getD [])).length)

/-- A number is read part by part. -/
theorem readNumeral?_parts (negative : Bool) {whole text text' rest : List Char}
    {fraction? : Option (List Char)} {exponent? : Option ℤ} (hwhole : IsWhole whole)
    (htext : NoDigit text) (hfraction : readFraction? text = some (fraction?, text'))
    (hexponent : readExponent? text' = some (exponent?, rest)) :
    readNumeral? ((if negative then ['-'] else []) ++ (whole ++ text)) =
      some (⟨negative, digitsValue (whole ++ trimZeros (fraction?.getD [])),
        scaleOf? fraction? exponent?⟩, rest) := by
  have hread := readWhole?_append hwhole htext
  have hsign : ∀ cs : List Char, whole ++ text = '-' :: cs → False := by
    rcases hwhole with rfl | ⟨hne, -, hall⟩
    · intro cs h
      simp at h
    · intro cs h
      obtain ⟨c, ds, rfl⟩ := List.exists_cons_of_ne_nil hne
      have hc := hall c List.mem_cons_self
      simp only [List.cons_append, List.cons.injEq] at h
      rw [h.1] at hc
      exact absurd hc (by decide)
  cases negative with
  | true =>
    simp [readNumeral?, hread, hfraction, hexponent]
    rfl
  | false =>
    simp [readNumeral?, hread, hfraction, hexponent]
    rfl

/-! ### Whole texts -/

/-- **The text of an integer reads as its digits, without a scale.** -/
theorem readNumeral?_integerText (n : ℤ) {rest : List Char} (hrest : Stops rest) :
    readNumeral? ((NumberStyle.integerText n).toList ++ rest) =
      some (⟨decide (n < 0), n.natAbs, none⟩, rest) := by
  have hdot : rest.head? ≠ some '.' := fun h => (hrest '.' h).2.1 rfl
  have h := readNumeral?_parts (decide (n < 0)) (isWhole_toDigits n.natAbs) hrest.noDigit
    (readFraction?_none hdot) (readExponent?_none hrest)
  have htext : (NumberStyle.integerText n).toList =
      (if decide (n < 0) = true then ['-'] else []) ++ Nat.toDigits 10 n.natAbs := by
    by_cases hn : n < 0 <;> simp [NumberStyle.integerText, NumberStyle.naturalText, hn]
  rw [htext, List.append_assoc, h]
  simp [trimZeros, digitsValue_toDigits, scaleOf?]

/-- How a text reads as a number of a given value. -/
def ReadsDecimal (text : List Char) (d : Decimal) (most : ℕ) : Prop :=
  ∃ read : Decimal, read.value = d.value ∧ read.digits ≤ most ∧
    ∀ (negative : Bool) (rest : List Char), Stops rest →
      readNumeral? ((if negative then ['-'] else []) ++ (text ++ rest)) =
        some (⟨negative, read.digits, some read.exponent⟩, rest)

/-- A text made of a whole part, a fraction and an exponent reads as their value. -/
theorem readsDecimal_of_parts {whole text : List Char} (fraction? : Option (List Char))
    (exponent? : Option ℤ) {d : Decimal} (hwhole : IsWhole whole)
    (hsome : fraction?.isSome ∨ exponent?.isSome)
    (hread : ∀ rest, Stops rest → NoDigit (text ++ rest) ∧ ∃ text',
      readFraction? (text ++ rest) = some (fraction?, text') ∧
        readExponent? text' = some (exponent?, rest))
    (hvalue : (⟨digitsValue (whole ++ fraction?.getD []),
      exponent?.getD 0 - (fraction?.getD []).length⟩ : Decimal).value = d.value) :
    ReadsDecimal (whole ++ text) d (digitsValue (whole ++ fraction?.getD [])) := by
  refine ⟨⟨_, _⟩, (value_trimZeros whole (fraction?.getD []) (exponent?.getD 0)).trans hvalue,
    digitsValue_trimZeros_le _ _, fun negative rest hrest => ?_⟩
  obtain ⟨hno, text', hfraction, hexponent⟩ := hread rest hrest
  rw [List.append_assoc, readNumeral?_parts negative hwhole hno hfraction hexponent]
  rcases fraction? with _ | fraction <;> rcases exponent? with _ | exponent
  · simp at hsome
  · rfl
  · rfl
  · rfl

theorem ReadsDecimal.mono {text : List Char} {d : Decimal} {few most : ℕ}
    (h : ReadsDecimal text d few) (hle : few ≤ most) : ReadsDecimal text d most := by
  obtain ⟨read, hvalue, hfew, hread⟩ := h
  exact ⟨read, hvalue, le_trans hfew hle, hread⟩

/-- An integral decimal, spelled out with zeros and a point at the end. -/
theorem readsDecimal_integral {d : Decimal} (hexp : 0 ≤ d.exponent)
    (hzero : d.digits = 0 → d.exponent ≤ 0) :
    ReadsDecimal (NumberStyle.document.positionalText d).toList d
      (10 * (10 ^ d.exponent.toNat * d.digits)) := by
  obtain ⟨digits, exponent⟩ := d
  obtain ⟨e, rfl⟩ := Int.eq_ofNat_of_zero_le hexp
  simp only [Int.toNat_natCast] at hzero ⊢
  have hwhole : IsWhole (Nat.toDigits 10 digits ++ List.replicate e '0') := by
    by_cases hd : digits = 0
    · have he : e = 0 := by
        have := hzero hd
        omega
      rw [hd, he]
      exact .inl rfl
    · refine .inr ⟨by simp, ?_, fun c hc => ?_⟩
      · rw [List.head?_append_of_ne_nil _ Nat.toDigits_ne_nil]
        exact head_toDigits_ne_zero hd
      · rcases List.mem_append.mp hc with hc | hc
        · exact isDigit_toDigits c hc
        · rw [List.eq_of_mem_replicate hc]
          rfl
  have htext : (NumberStyle.document.positionalText ⟨digits, e⟩).toList =
      (Nat.toDigits 10 digits ++ List.replicate e '0') ++ ['.', '0'] := by
    simp [NumberStyle.positionalText, NumberStyle.document, NumberStyle.naturalText,
      NumberStyle.zeros]
  have hdigits : digitsValue (Nat.toDigits 10 digits ++ List.replicate e '0' ++ ['0']) =
      10 * (10 ^ e * digits) := by
    rw [show ['0'] = List.replicate 1 '0' from rfl, digitsValue_append_zeros,
      digitsValue_append_zeros, digitsValue_toDigits, pow_one]
  rw [htext, ← hdigits]
  refine readsDecimal_of_parts (some ['0']) none hwhole (.inl rfl)
    (fun rest hrest => ⟨noDigit_cons (by decide) _, rest, ?_, readExponent?_none hrest⟩) ?_
  · exact readFraction?_append (by simp) (by simp [isDigit]) hrest.noDigit
  · simp only [Option.getD_some, Option.getD_none, hdigits, Decimal.value]
    push_cast
    rw [zpow_natCast]
    norm_num
    ring

/-- A decimal with digits behind the point, zeros before it if need be. -/
theorem readsDecimal_fraction {d : Decimal} (hexp : d.exponent < 0) :
    ReadsDecimal (NumberStyle.document.positionalText d).toList d d.digits := by
  obtain ⟨digits, exponent⟩ := d
  obtain ⟨places, hplaces, hpos⟩ : ∃ places : ℕ, exponent = -(places : ℤ) ∧ 0 < places :=
    ⟨(-exponent).toNat, by simp only at hexp; omega, by simp only at hexp; omega⟩
  subst hplaces
  set len := (Nat.toDigits 10 digits).length with hlen
  set padded := List.replicate (places + 1 - len) '0' ++ Nat.toDigits 10 digits with hpadded
  set front := padded.length - places with hfront
  have hlong : padded.length = places + 1 - len + len := by
    rw [hpadded, List.length_append, List.length_replicate]
  have hall : ∀ c ∈ padded, isDigit c = true := fun c hc => by
    rcases List.mem_append.mp hc with hc | hc
    · rw [List.eq_of_mem_replicate hc]
      rfl
    · exact isDigit_toDigits c hc
  have hback : (padded.drop front).length = places := by
    rw [List.length_drop]
    omega
  have hwhole : IsWhole (padded.take front) := by
    rcases Nat.lt_or_ge places len with hlt | hge
    · -- digits stand before the point
      have hnil : padded = Nat.toDigits 10 digits := by
        rw [hpadded, Nat.sub_eq_zero_of_le (by omega)]
        rfl
      have hdigits : digits ≠ 0 := fun h => by
        rw [h] at hlen
        simp at hlen
        omega
      refine .inr ⟨?_, ?_, fun c hc => hall c (List.mem_of_mem_take hc)⟩
      · intro h
        have := congrArg List.length h
        rw [List.length_take, List.length_nil] at this
        omega
      · obtain ⟨k, hk⟩ : ∃ k, front = k + 1 := ⟨front - 1, by omega⟩
        have hhead := head_toDigits_ne_zero hdigits
        rw [hk, hnil]
        cases hcons : Nat.toDigits 10 digits with
        | nil => exact absurd hcons Nat.toDigits_ne_nil
        | cons c ds =>
          rw [hcons] at hhead
          simpa using hhead
    · -- a zero stands before the point
      have hone : front = 1 := by omega
      obtain ⟨k, hk⟩ : ∃ k, places + 1 - len = k + 1 := ⟨places - len, by omega⟩
      rw [hone, hpadded, hk]
      exact .inl rfl
  have htext : (NumberStyle.document.positionalText ⟨digits, -(places : ℤ)⟩).toList =
      padded.take front ++ ('.' :: padded.drop front) := by
    have hneg : ¬ (0 : ℤ) ≤ -(places : ℤ) := by omega
    simp only [NumberStyle.positionalText, NumberStyle.naturalText, NumberStyle.zeros, hneg,
      if_false, neg_neg, Int.toNat_natCast]
    simp [← hlen, hpadded, hfront, Nat.add_comm]
  have hdigits : digitsValue (padded.take front ++ padded.drop front) = digits := by
    rw [List.take_append_drop, hpadded, digitsValue_zeros_append, digitsValue_toDigits]
  rw [htext]
  conv => arg 3; rw [← hdigits]
  refine readsDecimal_of_parts (some (padded.drop front)) none hwhole (.inl rfl)
    (fun rest hrest => ⟨noDigit_cons (by decide) _, rest, ?_, readExponent?_none hrest⟩) ?_
  · refine readFraction?_append (fun h => ?_) (fun c hc => hall c (List.mem_of_mem_drop hc))
      hrest.noDigit
    rw [h, List.length_nil] at hback
    omega
  · simp only [Option.getD_some, Option.getD_none, hdigits, hback]
    simp

/-- A decimal with one digit before the point and an exponent. -/
theorem readsDecimal_exponent (d : Decimal) :
    ReadsDecimal (NumberStyle.document.exponentText d).toList d d.digits := by
  obtain ⟨c, ds, hds⟩ :=
    List.exists_cons_of_ne_nil (Nat.toDigits_ne_nil (n := d.digits) (b := 10))
  have hall : ∀ b ∈ c :: ds, isDigit b = true := hds ▸ isDigit_toDigits
  have hwhole : IsWhole [c] := by
    by_cases hc : c = '0'
    · exact .inl (by rw [hc])
    · exact .inr ⟨by simp, by simpa using hc, by simpa using hall c List.mem_cons_self⟩
  have hlen : ((ds.length : ℕ) : ℤ) = Binary.decimalLength d.digits - 1 := by
    rw [Binary.decimalLength, hds, List.length_cons]
    push_cast
    ring
  set exponent := NumberStyle.leading d with hexponent
  have hdigits : digitsValue ([c] ++ ds) = d.digits := by
    rw [List.singleton_append, ← hds, digitsValue_toDigits]
  have hvalue : (⟨digitsValue ([c] ++ ds), exponent - (ds.length : ℕ)⟩ : Decimal).value = d.value := by
    rw [hdigits, hexponent, NumberStyle.leading, hlen]
    congr 2
    ring
  have hscale (rest : List Char) (hrest : Stops rest) :=
    readExponent?_integer exponent hrest.noDigit
  have hmark : ∀ rest, NoDigit ('e' :: rest) := noDigit_cons (by decide)
  rw [← hdigits]
  cases ds with
  | nil =>
    have htext : (NumberStyle.document.exponentText d).toList = [c] ++
        'e' :: ((if exponent < 0 then "" else "+").toList ++
          (NumberStyle.integerText exponent).toList) := by
      simp [NumberStyle.exponentText, hds, NumberStyle.document, ← hexponent]
    rw [htext]
    refine readsDecimal_of_parts none (some exponent) hwhole (.inr rfl)
      (fun rest hrest => ⟨hmark _, _, readFraction?_none (by simp), ?_⟩) hvalue
    simpa using hscale rest hrest
  | cons b bs =>
    have htext : (NumberStyle.document.exponentText d).toList = [c] ++
        '.' :: ((b :: bs) ++ 'e' :: ((if exponent < 0 then "" else "+").toList ++
          (NumberStyle.integerText exponent).toList)) := by
      simp [NumberStyle.exponentText, hds, NumberStyle.document, ← hexponent, String.ofList_eq_empty_iff]
    rw [htext]
    refine readsDecimal_of_parts (some (b :: bs)) (some exponent) hwhole (.inl rfl)
      (fun rest hrest => ⟨noDigit_cons (by decide) _,
        'e' :: ((if exponent < 0 then "" else "+").toList ++
          (NumberStyle.integerText exponent).toList ++ rest), ?_, hscale rest hrest⟩) hvalue
    have hbs : b :: bs ≠ [] := by simp
    have h := readFraction?_append hbs (fun x hx => hall x (List.mem_cons_of_mem c hx))
      (hmark ((if exponent < 0 then "" else "+").toList ++
          (NumberStyle.integerText exponent).toList ++ rest))
    simpa using h

/-- **The text of a decimal reads as its value**, and with few digits unless it has many. -/
theorem readsDecimal_decimalText {d : Decimal} (hzero : d.digits = 0 → d.exponent ≤ 0) :
    ReadsDecimal (NumberStyle.document.decimalText d).toList d (max d.digits (10 ^ 17)) := by
  unfold NumberStyle.decimalText
  by_cases hpos : NumberStyle.document.isPositional d = true
  · rw [if_pos hpos]
    rcases lt_or_ge d.exponent 0 with hneg | hexp
    · exact (readsDecimal_fraction hneg).mono (le_max_left _ _)
    · refine (readsDecimal_integral hexp hzero).mono (le_trans ?_ (le_max_right _ _))
      by_cases hd : d.digits = 0
      · simp [hd]
      · -- the leading digit stands below 10¹⁶
        have hlead : NumberStyle.leading d < 16 := by
          simp only [NumberStyle.isPositional, NumberStyle.document, hd, decide_false,
            Bool.false_or, Bool.and_eq_true, decide_eq_true_eq] at hpos
          exact hpos.2
        have hlt := Binary.lt_pow_decimalLength d.digits
        unfold NumberStyle.leading at hlead
        have hsum : d.exponent.toNat + Binary.decimalLength d.digits ≤ 16 := by omega
        calc 10 * (10 ^ d.exponent.toNat * d.digits)
            ≤ 10 * (10 ^ d.exponent.toNat * 10 ^ Binary.decimalLength d.digits) := by gcongr
          _ = 10 * 10 ^ (d.exponent.toNat + Binary.decimalLength d.digits) := by rw [pow_add]
          _ ≤ 10 * 10 ^ 16 := by gcongr; norm_num
          _ = 10 ^ 17 := by norm_num
  · rw [if_neg hpos]
    exact (readsDecimal_exponent d).mono (le_max_left _ _)

end JsonToken
end TypedConfig
