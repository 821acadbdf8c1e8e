/-
# Decimals that read back

Reading a decimal sees only its value (`ofDecimal_eq_of_value_eq`), so zeros at its
end may come and go, and a decimal with the exact value of a finite number reads as
that number (`ofDecimal_of_value_eq`). Whatever decimal is chosen to write a finite
number with therefore reads back (`ofDecimal_shortest`): a neighbour on a grid because
it was tried, and the exact value, which is taken if none does, always.

No decimal that is chosen has more than 767 digits (`shortest_digits_lt`).

Key definitions: `Decimal.value`.
Key theorems: `Binary.ofDecimal_eq_of_value_eq`, `Binary.ofDecimal_shortest`,
`Binary.shortest_digits_lt`.
-/
import Mathlib
import TypedConfig.Binary.Shortest
import TypedConfig.Proofs.Binary.Rounding

namespace TypedConfig

/-- The number that a decimal stands for. -/
def Decimal.value (d : Decimal) : ℚ := d.digits * 10 ^ d.exponent

namespace Binary

/-! ### The leading digit -/

theorem decimalLength_pos (n : ℕ) : 0 < decimalLength n := Nat.length_toDigits_pos

theorem decimalLength_le_iff {n k : ℕ} (hk : 0 < k) : decimalLength n ≤ k ↔ n < 10 ^ k :=
  Nat.length_toDigits_le_iff (by norm_num) hk

theorem lt_pow_decimalLength (n : ℕ) : n < 10 ^ decimalLength n :=
  (decimalLength_le_iff (decimalLength_pos n)).mp le_rfl

theorem pow_decimalLength_le {n : ℕ} (hn : n ≠ 0) : 10 ^ (decimalLength n - 1) ≤ n := by
  by_contra hlt
  rcases Nat.eq_zero_or_pos (decimalLength n - 1) with hzero | hpos
  · rw [hzero] at hlt
    omega
  · have hle := (decimalLength_le_iff hpos).mpr (not_le.mp hlt)
    have := decimalLength_pos n
    omega

/-- The value of a decimal lies between the powers of ten around its leading digit. -/
theorem value_bounds {d : Decimal} (hd : d.digits ≠ 0) :
    (10 : ℚ) ^ ((decimalLength d.digits : ℤ) + d.exponent - 1) ≤ d.value ∧
      d.value < 10 ^ ((decimalLength d.digits : ℤ) + d.exponent) := by
  have hlow : (10 : ℚ) ^ (decimalLength d.digits - 1) ≤ d.digits := by
    exact_mod_cast pow_decimalLength_le hd
  have hhigh : (d.digits : ℚ) < 10 ^ decimalLength d.digits := by
    exact_mod_cast lt_pow_decimalLength d.digits
  have hpos := decimalLength_pos d.digits
  have ten : (10 : ℚ) ≠ 0 := by norm_num
  unfold Decimal.value
  constructor
  · calc (10 : ℚ) ^ ((decimalLength d.digits : ℤ) + d.exponent - 1)
        = 10 ^ (decimalLength d.digits - 1) * 10 ^ d.exponent := by
          rw [← zpow_natCast, ← zpow_add₀ ten]
          congr 1
          omega
      _ ≤ d.digits * 10 ^ d.exponent := by gcongr
  · calc (d.digits : ℚ) * 10 ^ d.exponent
        < 10 ^ decimalLength d.digits * 10 ^ d.exponent := by gcongr
      _ = 10 ^ ((decimalLength d.digits : ℤ) + d.exponent) := by
          rw [← zpow_natCast, ← zpow_add₀ ten]

theorem value_eq_zero_iff {d : Decimal} : d.value = 0 ↔ d.digits = 0 := by
  simp [Decimal.value, zpow_ne_zero]

/-- Decimals of one value have their leading digit at one place. -/
theorem leading_le_of_value_eq {d d' : Decimal} (h : d.value = d'.value) (hd : d.digits ≠ 0)
    (hd' : d'.digits ≠ 0) :
    (decimalLength d.digits : ℤ) + d.exponent ≤ decimalLength d'.digits + d'.exponent := by
  obtain ⟨hlow, -⟩ := value_bounds hd
  obtain ⟨-, hhigh⟩ := value_bounds hd'
  have hlt := lt_of_le_of_lt (h ▸ hlow) hhigh
  have := (zpow_lt_zpow_iff_right₀ (by norm_num : (1 : ℚ) < 10)).mp hlt
  omega

/-! ### Reading sees the value -/

variable {f : BinaryFormat}

theorem decimal_ratio (digits : ℕ) (exponent : ℤ) :
    ((scaleDown 10 digits 1 (-exponent)).1 : ℚ) / (scaleDown 10 digits 1 (-exponent)).2 =
      (⟨digits, exponent⟩ : Decimal).value := by
  rw [scaleDown_ratio (by norm_num)]
  simp [Decimal.value, zpow_neg]

/-- **Decimals of one value read as one number.** -/
theorem ofDecimal_eq_of_value_eq (negative : Bool) {d d' : Decimal} (h : d.value = d'.value) :
    (ofDecimal negative d.digits d.exponent : Binary f) =
      ofDecimal negative d'.digits d'.exponent := by
  have hzero : d.digits = 0 ↔ d'.digits = 0 := by
    rw [← value_eq_zero_iff, ← value_eq_zero_iff, h]
  by_cases hd : d.digits = 0
  · simp only [ofDecimal, hd, hzero.mp hd, if_true]
  · have hd' := mt hzero.mpr hd
    have htop : (decimalLength d.digits : ℤ) + d.exponent = decimalLength d'.digits + d'.exponent :=
      le_antisymm (leading_le_of_value_eq h hd hd') (leading_le_of_value_eq h.symm hd' hd)
    have hword : f.nearestWord (scaleDown 10 d.digits 1 (-d.exponent)).1
        (scaleDown 10 d.digits 1 (-d.exponent)).2 =
        f.nearestWord (scaleDown 10 d'.digits 1 (-d'.exponent)).1
        (scaleDown 10 d'.digits 1 (-d'.exponent)).2 := by
      refine BinaryFormat.nearestWord_eq_of_ratio_eq
        (scaleDown_snd_pos (by norm_num) Nat.one_pos _ _)
        (scaleDown_snd_pos (by norm_num) Nat.one_pos _ _) ?_
      rw [decimal_ratio, decimal_ratio]
      exact h
    simp only [ofDecimal, hd, hd', if_false, htop, ofRatio, hword]

/-- **A decimal of a finite number's value reads as that number.** -/
theorem ofDecimal_of_value_eq (hf : 2 ≤ f.exponentBits) {x : Binary f} (hx : x.isFinite = true)
    {d : Decimal} (h : d.value = x.absValue) (hzero : x.isZero = false) :
    ofDecimal x.isNegative d.digits d.exponent = x := by
  have hle := le_absValue hzero
  have hlt := absValue_lt hf hx
  have hd : d.digits ≠ 0 := fun hd => by
    rw [← h, value_eq_zero_iff.mpr hd] at hle
    exact absurd hle (not_le.mpr (by positivity))
  obtain ⟨hlow, hhigh⟩ := value_bounds hd
  -- the value lies within the range in which the power is computed
  have htop : (decimalLength d.digits : ℤ) + d.exponent ≤ f.topExponent := by
    have hpow : (10 : ℚ) ^ ((decimalLength d.digits : ℤ) + d.exponent - 1) <
        10 ^ (f.topExponent : ℤ) := by
      rw [zpow_natCast]
      calc _ ≤ d.value := hlow
        _ < 2 ^ f.topExponent := h ▸ hlt
        _ ≤ 10 ^ f.topExponent := by gcongr; norm_num
    have := (zpow_lt_zpow_iff_right₀ (by norm_num : (1 : ℚ) < 10)).mp hpow
    omega
  have hbottom : f.lowExponent ≤ (decimalLength d.digits : ℤ) + d.exponent := by
    by_contra hneg
    have hlow0 : f.lowExponent ≤ 0 := by
      have := BinaryFormat.two_le_topExponent hf
      unfold BinaryFormat.lowExponent
      omega
    have hpow : (10 : ℚ) ^ ((decimalLength d.digits : ℤ) + d.exponent) ≤ 2 ^ f.lowExponent := by
      calc (10 : ℚ) ^ ((decimalLength d.digits : ℤ) + d.exponent)
          ≤ 10 ^ f.lowExponent := zpow_le_zpow_right₀ (by norm_num) (by omega)
        _ ≤ 2 ^ f.lowExponent := by
          obtain ⟨n, hn⟩ := Int.exists_eq_neg_ofNat hlow0
          rw [hn, zpow_neg, zpow_neg, zpow_natCast, zpow_natCast]
          gcongr
          norm_num
    have : d.value < x.absValue := lt_of_lt_of_le hhigh (le_trans hpow hle)
    exact absurd h this.ne
  simp only [ofDecimal, hd, if_false, not_lt.mpr htop, not_lt.mpr hbottom]
  refine ofRatio_absValue hx (scaleDown_snd_pos (by norm_num) Nat.one_pos _ _) ?_
  rw [decimal_ratio, ← h]

/-! ### The decimal that is written -/

variable {x : Binary f}

theorem value_exactDecimal (x : Binary f) : x.exactDecimal.value = x.absValue := by
  unfold exactDecimal Decimal.value absValue
  split
  · rename_i h
    obtain ⟨n, hn⟩ := Int.eq_ofNat_of_zero_le h
    simp [hn, Nat.pow_eq]
  · rename_i h
    obtain ⟨n, hn⟩ : ∃ n : ℕ, x.exponent = -(n : ℤ) := ⟨(-x.exponent).toNat, by omega⟩
    have hten : (10 : ℚ) ^ n = 2 ^ n * 5 ^ n := by rw [← mul_pow]; norm_num
    simp only [hn, neg_neg, Int.toNat_natCast, Nat.pow_eq, zpow_neg, zpow_natCast, hten]
    push_cast
    field_simp

/-- A neighbour on a grid is taken only if it reads back. -/
theorem readsBack_of_neighbour? {tie : Tie} {power : ℤ} {d : Decimal}
    (h : x.neighbour? tie power = some d) : x.readsBack d = true := by
  unfold neighbour? at h
  dsimp only at h
  split at h
  · rename_i hbelow habove
    cases h
    repeat' split
    all_goals assumption
  · cases h
    assumption
  · cases h
    assumption
  · cases h

theorem readsBack_searchGrids (hexact : x.readsBack x.exactDecimal = true) (tie : Tie) :
    ∀ (fuel : ℕ) (power : ℤ), x.readsBack (x.searchGrids tie fuel power) = true
  | 0, _ => hexact
  | fuel + 1, power => by
    unfold searchGrids
    cases h : x.neighbour? tie power with
    | none => exact readsBack_searchGrids hexact tie fuel (power - 1)
    | some d => exact readsBack_of_neighbour? h

end Binary

namespace Decimal

theorem value_dropZeros : ∀ (fuel : ℕ) (d : Decimal), (d.dropZeros fuel).value = d.value
  | 0, _ => rfl
  | fuel + 1, d => by
    unfold dropZeros
    split
    · rename_i h
      rw [value_dropZeros fuel]
      have hten : d.digits = 10 * (d.digits / 10) := by omega
      unfold value
      rw [hten, zpow_add_one₀ (by norm_num)]
      have : (10 * (d.digits / 10)) / 10 = d.digits / 10 := by omega
      rw [this]
      push_cast
      ring
    · rfl

theorem digits_dropZeros_le : ∀ (fuel : ℕ) (d : Decimal), (d.dropZeros fuel).digits ≤ d.digits
  | 0, _ => le_rfl
  | fuel + 1, d => by
    unfold dropZeros
    split
    · exact le_trans (digits_dropZeros_le fuel _) (Nat.div_le_self _ _)
    · exact le_rfl

/-- Zeros at the end do not change what a decimal stands for. -/
@[simp] theorem value_trim (d : Decimal) : d.trim.value = d.value := value_dropZeros _ d

end Decimal

namespace Binary

variable {f : BinaryFormat} {x : Binary f}

theorem zero_of_isZero (hzero : x.isZero = true) : zero x.isNegative = x := by
  have hmag : x.magnitude = 0 := by simpa [isZero] using hzero
  rw [zero, ← hmag, ofParts_magnitude]

/-- **The decimal that a finite number is written with reads back as the number.** -/
theorem ofDecimal_shortest (hf : 2 ≤ f.exponentBits) (hx : x.isFinite = true) (tie : Tie) :
    ofDecimal x.isNegative (x.shortest tie).digits (x.shortest tie).exponent = x := by
  unfold shortest
  cases hzero : x.isZero with
  | true => exact zero_of_isZero hzero
  | false =>
    have hexact : x.readsBack x.exactDecimal = true := by
      simpa [readsBack] using ofDecimal_of_value_eq hf hx (value_exactDecimal x) hzero
    have hfound := readsBack_searchGrids hexact tie (f.fractionBits + 2)
      (leadingPower x.ratio.1 x.ratio.2)
    simp only [readsBack, decide_eq_true_eq] at hfound
    rw [if_neg (by simp), ofDecimal_eq_of_value_eq _ (Decimal.value_trim _)]
    exact hfound

theorem isZero_of_shortest_digits (hf : 2 ≤ f.exponentBits) (hx : x.isFinite = true) {tie : Tie}
    (h : (x.shortest tie).digits = 0) : x.isZero = true := by
  have hback := ofDecimal_shortest hf hx tie
  rw [h] at hback
  rw [← hback]
  exact isZero_zero x.isNegative

/-! ### How many digits are written -/

theorem ratio_snd_pos (x : Binary f) : 0 < x.ratio.2 :=
  scaleDown_snd_pos Nat.two_pos Nat.one_pos _ _

theorem lt_leadingPower (num : ℕ) {den : ℕ} (hden : 0 < den) :
    (num : ℚ) / den < 10 ^ (leadingPower num den + 1) := by
  have hpos : (0 : ℚ) < den := by exact_mod_cast hden
  have hnum : (num : ℚ) < 10 ^ decimalLength num := by exact_mod_cast lt_pow_decimalLength num
  have hlow : (10 : ℚ) ^ (decimalLength den - 1) ≤ den := by
    exact_mod_cast pow_decimalLength_le hden.ne'
  have hlen := decimalLength_pos den
  unfold leadingPower
  dsimp only
  split
  · rw [div_lt_iff₀ hpos]
    calc (num : ℚ) < 10 ^ decimalLength num := hnum
      _ = 10 ^ ((decimalLength num : ℤ) - decimalLength den + 1) * 10 ^ (decimalLength den - 1) := by
        rw [← zpow_natCast, ← zpow_natCast, ← zpow_add₀ (by norm_num)]
        congr 1
        omega
      _ ≤ 10 ^ ((decimalLength num : ℤ) - decimalLength den + 1) * den := by gcongr
  · rename_i h
    set guess : ℤ := (decimalLength num : ℤ) - decimalLength den
    have hscaled := scaleDown_ratio (by norm_num : 0 < 10) num den guess
    have hb : (0 : ℚ) < (scaleDown 10 num den guess).2 := by
      exact_mod_cast scaleDown_snd_pos (by norm_num) hden num guess
    have hlt : ((scaleDown 10 num den guess).1 : ℚ) / (scaleDown 10 num den guess).2 < 1 := by
      rw [div_lt_one hb]
      exact_mod_cast not_le.mp h
    rw [hscaled, div_lt_one (by positivity)] at hlt
    simpa using hlt

/-- On a grid `fine` powers of ten below the leading digit, a neighbour has one digit more. -/
theorem digits_le_of_neighbour? {tie : Tie} {power : ℤ} {d : Decimal} {fine : ℕ}
    (h : x.neighbour? tie power = some d)
    (hfine : leadingPower x.ratio.1 x.ratio.2 ≤ power + fine) : d.digits ≤ 10 ^ (fine + 1) := by
  set scaled := scaleDown 10 x.ratio.1 x.ratio.2 power with hscaled
  have hpos := scaleDown_snd_pos (by norm_num : 0 < 10) x.ratio_snd_pos x.ratio.1 power
  have hb : (0 : ℚ) < scaled.2 := by exact_mod_cast hpos
  have hlt : (scaled.1 : ℚ) / scaled.2 < 10 ^ (fine + 1) := by
    rw [hscaled, scaleDown_ratio (by norm_num), div_lt_iff₀ (by positivity)]
    calc _ < (10 : ℚ) ^ (leadingPower x.ratio.1 x.ratio.2 + 1) :=
          lt_leadingPower _ x.ratio_snd_pos
      _ ≤ 10 ^ (((fine + 1 : ℕ) : ℤ) + power) :=
          zpow_le_zpow_right₀ (by norm_num) (by push_cast; omega)
      _ = 10 ^ (fine + 1) * ((10 : ℕ) : ℚ) ^ power := by
          rw [zpow_add₀ (by norm_num), zpow_natCast]
          norm_num
  have hdiv : scaled.1 / scaled.2 < 10 ^ (fine + 1) := by
    rw [div_lt_iff₀ hb] at hlt
    rw [Nat.div_lt_iff_lt_mul hpos]
    exact_mod_cast hlt
  have hd : d.digits ≤ scaled.1 / scaled.2 + 1 := by
    unfold neighbour? at h
    dsimp only at h
    split at h
    · cases h
      repeat' split
      all_goals simp [hscaled]
    · cases h
      simp [hscaled]
    · cases h
      simp [hscaled]
    · cases h
  omega

theorem digits_searchGrids_le {bound : ℕ} (hexact : x.exactDecimal.digits ≤ bound) (tie : Tie)
    {most : ℕ} (hmost : 10 ^ most ≤ bound) :
    ∀ (fuel fine : ℕ) (power : ℤ), fuel + fine ≤ most →
      leadingPower x.ratio.1 x.ratio.2 ≤ power + fine →
      (x.searchGrids tie fuel power).digits ≤ bound
  | 0, _, _, _, _ => hexact
  | fuel + 1, fine, power, hfuel, hfine => by
    unfold searchGrids
    cases h : x.neighbour? tie power with
    | none =>
      exact digits_searchGrids_le hexact tie hmost fuel (fine + 1) (power - 1) (by omega)
        (by push_cast; omega)
    | some d =>
      have hd := digits_le_of_neighbour? h hfine
      have hpow : 10 ^ (fine + 1) ≤ 10 ^ most := Nat.pow_le_pow_right (by norm_num) (by omega)
      exact le_trans hd (le_trans hpow hmost)

/-- The exact value of a finite 64-bit number has at most 767 digits. -/
theorem exactDecimal_digits_lt (x : Binary64) (hx : x.isFinite = true) :
    x.exactDecimal.digits < 10 ^ 767 := by
  have hsig : x.significand < 2 ^ 53 := x.significand_lt
  have hlow : (-1074 : ℤ) ≤ x.exponent := x.lowExponent_le_exponent
  have hhigh : x.exponent + 53 ≤ 1024 := exponent_le (by decide) hx
  unfold exactDecimal
  split
  · calc x.significand * Nat.pow 2 x.exponent.toNat
        ≤ 2 ^ 53 * 2 ^ 971 :=
          Nat.mul_le_mul hsig.le (Nat.pow_le_pow_right (by norm_num) (by omega))
      _ < 10 ^ 767 := by decide +kernel
  · calc x.significand * Nat.pow 5 (-x.exponent).toNat
        ≤ 2 ^ 53 * 5 ^ 1074 :=
          Nat.mul_le_mul hsig.le (Nat.pow_le_pow_right (by norm_num) (by omega))
      _ < 10 ^ 767 := by decide +kernel

/-- **No 64-bit number is written with more than 767 digits.** -/
theorem shortest_digits_lt (x : Binary64) (hx : x.isFinite = true) (tie : Tie) :
    (x.shortest tie).digits < 10 ^ 767 := by
  unfold shortest
  split
  · positivity
  · have hexact := exactDecimal_digits_lt x hx
    have hgrid := digits_searchGrids_le (by omega : x.exactDecimal.digits ≤ 10 ^ 767 - 1) tie
      (by decide +kernel : 10 ^ 54 ≤ 10 ^ 767 - 1) (BinaryFormat.double.fractionBits + 2) 0
      (leadingPower x.ratio.1 x.ratio.2) (by decide) (by simp)
    have htrim := Decimal.digits_dropZeros_le (decimalLength (x.searchGrids tie
      (BinaryFormat.double.fractionBits + 2) (leadingPower x.ratio.1 x.ratio.2)).digits)
      (x.searchGrids tie (BinaryFormat.double.fractionBits + 2)
        (leadingPower x.ratio.1 x.ratio.2))
    unfold Decimal.trim
    omega

end Binary
end TypedConfig
