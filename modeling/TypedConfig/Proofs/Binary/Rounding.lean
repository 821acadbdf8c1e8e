/-
# What rounding depends on

Rounding sees a ratio only as the number it is: equal ratios have the same last
place, the same nearest integer and so the same word (`nearestWord_eq_of_ratio_eq`).
The last place is the one for which the significand fits and could not be finer
(`BinaryFormat.IsLastPlace`), which determines it.

A finite number that is rounded is that number again (`Binary.ofRatio_absValue`).

Key definitions: `BinaryFormat.IsLastPlace`, `Binary.absValue`.
Key theorems: `BinaryFormat.lastPlace_isLastPlace`, `BinaryFormat.nearestWord_eq_of_ratio_eq`,
`Binary.ofRatio_absValue`.
-/
import Mathlib
import TypedConfig.Binary.Rounding

namespace TypedConfig

/-! ### Ratios -/

theorem scaleDown_snd_pos {base den : ℕ} (hbase : 0 < base) (hden : 0 < den) (num : ℕ)
    (power : ℤ) : 0 < (scaleDown base num den power).2 := by
  unfold scaleDown
  split
  · exact Nat.mul_pos hden (Nat.pow_pos hbase)
  · exact hden

/-- Scaling a ratio down divides it by the power. -/
theorem scaleDown_ratio {base : ℕ} (hbase : 0 < base) (num den : ℕ) (power : ℤ) :
    ((scaleDown base num den power).1 : ℚ) / (scaleDown base num den power).2 =
      num / den / (base : ℚ) ^ power := by
  have hb : (base : ℚ) ≠ 0 := by exact_mod_cast hbase.ne'
  unfold scaleDown
  split
  · rename_i h
    lift power to ℕ using h
    simp only [Int.toNat_natCast, Nat.pow_eq]
    push_cast
    rw [zpow_natCast, div_div]
  · rename_i h
    obtain ⟨n, hn⟩ : ∃ n : ℕ, power = -(n : ℤ) := ⟨(-power).toNat, by omega⟩
    subst hn
    simp only [neg_neg, Int.toNat_natCast, Nat.pow_eq]
    push_cast
    rw [zpow_neg, zpow_natCast, div_inv_eq_mul, mul_div_right_comm]

/-! ### The nearest integer -/

theorem nearestEven_mul {c : ℕ} (hc : 0 < c) (num den : ℕ) :
    nearestEven (c * num) (c * den) = nearestEven num den := by
  have hlt : ∀ a b : ℕ, 2 * (c * a) < c * b ↔ 2 * a < b := fun a b => by
    rw [Nat.mul_left_comm]
    exact Nat.mul_lt_mul_left hc
  have hgt : ∀ a b : ℕ, c * b < 2 * (c * a) ↔ b < 2 * a := fun a b => by
    rw [Nat.mul_left_comm]
    exact Nat.mul_lt_mul_left hc
  simp only [nearestEven, Nat.mul_div_mul_left _ _ hc, Nat.mul_mod_mul_left, hlt, hgt]

theorem nearestEven_eq_of_ratio_eq {num den num' den' : ℕ} (hden : 0 < den) (hden' : 0 < den')
    (h : (num : ℚ) / den = num' / den') : nearestEven num den = nearestEven num' den' := by
  have hd : (den : ℚ) ≠ 0 := by exact_mod_cast hden.ne'
  have hd' : (den' : ℚ) ≠ 0 := by exact_mod_cast hden'.ne'
  have hcross : den' * num = den * num' := by
    rw [div_eq_div_iff hd hd'] at h
    have h : num * den' = num' * den := by exact_mod_cast h
    rw [Nat.mul_comm, h, Nat.mul_comm]
  calc nearestEven num den = nearestEven (den' * num) (den' * den) := (nearestEven_mul hden' ..).symm
    _ = nearestEven (den * num') (den * den') := by rw [hcross, Nat.mul_comm den' den]
    _ = nearestEven num' den' := nearestEven_mul hden ..

/-- An integer is nearest to itself. -/
theorem nearestEven_of_ratio_eq {num den n : ℕ} (hden : 0 < den) (h : (num : ℚ) / den = n) :
    nearestEven num den = n := by
  rw [nearestEven_eq_of_ratio_eq hden Nat.one_pos (by rw [h]; simp : (num : ℚ) / den = n / (1 : ℕ))]
  simp [nearestEven, Nat.mod_one]

/-! ### The last place -/

namespace BinaryFormat

variable {f : BinaryFormat}

/-- The place that the last bit of the significand has in the number nearest to `q`: with it the
significand fits, and it does not with a finer one that the format has. -/
structure IsLastPlace (f : BinaryFormat) (q : ℚ) (place : ℤ) : Prop where
  low_le : f.lowExponent ≤ place
  fits : q < 2 ^ (f.fractionBits + 1) * 2 ^ place
  tight : place = f.lowExponent ∨ 2 ^ f.fractionBits * 2 ^ place ≤ q

theorem two_zpow_succ (place : ℤ) (n : ℕ) :
    (2 : ℚ) ^ (n + 1) * 2 ^ place = 2 ^ n * 2 ^ (place + 1) := by
  rw [zpow_add_one₀ (by norm_num), pow_succ]
  ring

theorem IsLastPlace.le {q : ℚ} {place place' : ℤ} (h : f.IsLastPlace q place)
    (h' : f.IsLastPlace q place') : place' ≤ place := by
  by_contra hlt
  rcases h'.tight with hlow | hle
  · have := h.low_le
    omega
  · have hfits := h.fits
    rw [two_zpow_succ] at hfits
    have hmono : (2 : ℚ) ^ (place + 1) ≤ 2 ^ place' :=
      zpow_le_zpow_right₀ (by norm_num) (by omega)
    have hpos : (0 : ℚ) < 2 ^ f.fractionBits := by positivity
    nlinarith

theorem IsLastPlace.unique {q : ℚ} {place place' : ℤ} (h : f.IsLastPlace q place)
    (h' : f.IsLastPlace q place') : place = place' :=
  le_antisymm (h'.le h) (h.le h')

/-- A positive ratio lies within a factor of two of the ratio of its leading bits. -/
theorem ratio_bounds {num den : ℕ} (hnum : num ≠ 0) (hden : den ≠ 0) :
    (2 : ℚ) ^ ((Nat.log2 num : ℤ) - Nat.log2 den - 1) < (num : ℚ) / den ∧
      (num : ℚ) / den < 2 ^ ((Nat.log2 num : ℤ) - Nat.log2 den + 1) := by
  have hn : (2 : ℚ) ^ Nat.log2 num ≤ num := by exact_mod_cast Nat.log2_self_le hnum
  have hn' : (num : ℚ) < 2 ^ (Nat.log2 num + 1) := by exact_mod_cast Nat.lt_log2_self
  have hd : (2 : ℚ) ^ Nat.log2 den ≤ den := by exact_mod_cast Nat.log2_self_le hden
  have hd' : (den : ℚ) < 2 ^ (Nat.log2 den + 1) := by exact_mod_cast Nat.lt_log2_self
  have hpos : (0 : ℚ) < den := by exact_mod_cast Nat.pos_of_ne_zero hden
  have two : (2 : ℚ) ≠ 0 := by norm_num
  constructor
  · rw [lt_div_iff₀ hpos]
    calc (2 : ℚ) ^ ((Nat.log2 num : ℤ) - Nat.log2 den - 1) * den
        < 2 ^ ((Nat.log2 num : ℤ) - Nat.log2 den - 1) * 2 ^ (Nat.log2 den + 1) := by gcongr
      _ = 2 ^ Nat.log2 num := by
        rw [← zpow_natCast, ← zpow_natCast, ← zpow_add₀ two]
        congr 1
        push_cast
        ring
      _ ≤ num := hn
  · rw [div_lt_iff₀ hpos]
    calc (num : ℚ) < 2 ^ (Nat.log2 num + 1) := hn'
      _ = 2 ^ ((Nat.log2 num : ℤ) - Nat.log2 den + 1) * 2 ^ Nat.log2 den := by
        rw [← zpow_natCast, ← zpow_natCast, ← zpow_add₀ two]
        congr 1
        push_cast
        ring
      _ ≤ 2 ^ ((Nat.log2 num : ℤ) - Nat.log2 den + 1) * den := by gcongr

theorem lastPlace_isLastPlace (num : ℕ) {den : ℕ} (hden : 0 < den) :
    f.IsLastPlace ((num : ℚ) / den) (f.lastPlace num den) := by
  unfold lastPlace
  split
  · rename_i h
    subst h
    exact ⟨le_rfl, by simp; positivity, .inl rfl⟩
  rename_i hnum
  obtain ⟨hlow, hhigh⟩ := ratio_bounds hnum hden.ne'
  set leading : ℤ := (Nat.log2 num : ℤ) - Nat.log2 den with hleading
  set low : ℤ := max f.lowExponent (leading - (f.fractionBits + 1)) with hlowdef
  have hpos := scaleDown_snd_pos Nat.two_pos hden num low
  have hscaled := scaleDown_ratio Nat.two_pos num den low
  -- the significand fits, or has one bit too many
  have hfits : (scaleDown 2 num den low).1 / (scaleDown 2 num den low).2 < 2 * f.fractionWeight ↔
      (num : ℚ) / den < 2 ^ (f.fractionBits + 1) * 2 ^ low := by
    have hposq : (0 : ℚ) < (scaleDown 2 num den low).2 := by exact_mod_cast hpos
    have htwo : (0 : ℚ) < 2 ^ low := by positivity
    rw [Nat.div_lt_iff_lt_mul hpos, ← div_lt_iff₀ htwo, ← Nat.cast_two (R := ℚ), ← hscaled,
      div_lt_iff₀ hposq]
    simp only [fractionWeight, Nat.pow_eq]
    rw [← pow_succ']
    norm_cast
  dsimp only
  split
  · rename_i h
    refine ⟨le_max_left _ _, hfits.mp h, ?_⟩
    rcases max_choice f.lowExponent (leading - (f.fractionBits + 1)) with hmax | hmax
    · exact .inl hmax
    · right
      rw [hmax, ← zpow_natCast, ← zpow_add₀ (by norm_num)]
      have he : ((f.fractionBits : ℕ) : ℤ) + (leading - (f.fractionBits + 1)) = leading - 1 := by ring
      rw [he]
      exact hlow.le
  · rename_i h
    have hge := not_lt.mp (mt hfits.mpr h)
    rw [two_zpow_succ] at hge
    refine ⟨le_trans (le_max_left _ _) (Int.le_add_one le_rfl), ?_, .inr hge⟩
    calc (num : ℚ) / den < 2 ^ (leading + 1) := hhigh
      _ ≤ 2 ^ (((f.fractionBits + 1 : ℕ) : ℤ) + (low + 1)) := by
        refine zpow_le_zpow_right₀ (by norm_num) ?_
        have := le_max_right f.lowExponent (leading - (f.fractionBits + 1))
        push_cast
        omega
      _ = 2 ^ (f.fractionBits + 1) * 2 ^ (low + 1) := by
        rw [zpow_add₀ (by norm_num), zpow_natCast]

theorem lastPlace_eq {num den : ℕ} (hden : 0 < den) {place : ℤ}
    (h : f.IsLastPlace ((num : ℚ) / den) place) : f.lastPlace num den = place :=
  (lastPlace_isLastPlace num hden).unique h

/-! ### The nearest word -/

/-- **Equal ratios are nearest to the same number.** -/
theorem nearestWord_eq_of_ratio_eq {num den num' den' : ℕ} (hden : 0 < den) (hden' : 0 < den')
    (h : (num : ℚ) / den = num' / den') : f.nearestWord num den = f.nearestWord num' den' := by
  have hplace : f.lastPlace num den = f.lastPlace num' den' :=
    lastPlace_eq hden (h ▸ lastPlace_isLastPlace num' hden')
  simp only [nearestWord, hplace]
  rw [nearestEven_eq_of_ratio_eq (scaleDown_snd_pos Nat.two_pos hden num _)
    (scaleDown_snd_pos Nat.two_pos hden' num' _)]
  rw [scaleDown_ratio Nat.two_pos, scaleDown_ratio Nat.two_pos, h]

/-- A significand that fits its place is its own rounding. -/
theorem nearestWord_of_exact {num den significand : ℕ} {place : ℤ} (hden : 0 < den)
    (h : (num : ℚ) / den = significand * 2 ^ place) (hlow : f.lowExponent ≤ place)
    (hfits : significand < 2 * f.fractionWeight)
    (htight : place = f.lowExponent ∨ f.fractionWeight ≤ significand) :
    f.nearestWord num den =
      min f.infinityWord ((place - f.lowExponent).toNat * f.fractionWeight + significand) := by
  have htwo : (0 : ℚ) < 2 ^ place := by positivity
  have hplace : f.lastPlace num den = place := by
    refine lastPlace_eq hden ⟨hlow, ?_, htight.imp_right fun hle => ?_⟩
    · rw [h, mul_lt_mul_iff_left₀ htwo, pow_succ']
      exact_mod_cast hfits
    · rw [h, mul_le_mul_iff_left₀ htwo]
      exact_mod_cast hle
  simp only [nearestWord, hplace]
  rw [nearestEven_of_ratio_eq (scaleDown_snd_pos Nat.two_pos hden num place)]
  rw [scaleDown_ratio Nat.two_pos, h]
  push_cast
  field_simp

/-! ### The fields of a format -/

theorem two_le_topExponent (hf : 2 ≤ f.exponentBits) : 2 ≤ f.topExponent :=
  Nat.pow_le_pow_right Nat.two_pos (by omega : 1 ≤ f.exponentBits - 1)

theorem signWeight_eq (hf : 2 ≤ f.exponentBits) :
    f.signWeight = 2 * f.topExponent * f.fractionWeight := by
  simp only [signWeight, topExponent, fractionWeight, Nat.pow_eq, ← pow_succ', ← pow_add]
  congr 1
  omega

theorem infinityWord_eq (hf : 2 ≤ f.exponentBits) :
    f.infinityWord = (2 * f.topExponent - 1) * f.fractionWeight := by
  rw [infinityWord, signWeight_eq hf, Nat.sub_mul, Nat.one_mul]

theorem cast_fractionWeight (f : BinaryFormat) : (f.fractionWeight : ℚ) = 2 ^ f.fractionBits := by
  simp [fractionWeight]

end BinaryFormat

/-! ### Finite numbers -/

namespace Binary

variable {f : BinaryFormat} {x : Binary f}

/-- The value of a finite number without its sign. -/
def absValue (x : Binary f) : ℚ := x.significand * 2 ^ x.exponent

theorem fractionWeight_pos : 0 < f.fractionWeight := Nat.pow_pos Nat.two_pos

theorem significand_lt (x : Binary f) : x.significand < 2 * f.fractionWeight := by
  have hpos := fractionWeight_pos (f := f)
  have hmod := Nat.mod_lt x.magnitude hpos
  unfold significand
  split <;> omega

theorem lowExponent_le_exponent (x : Binary f) : f.lowExponent ≤ x.exponent := by
  unfold exponent
  split <;> omega

theorem exponent_tight (x : Binary f) :
    x.exponent = f.lowExponent ∨ f.fractionWeight ≤ x.significand := by
  unfold exponent significand
  split
  · exact .inl rfl
  · exact .inr (Nat.le_add_right _ _)

/-- The two fields of a word, put together again. -/
theorem fields_eq (x : Binary f) :
    (x.exponent - f.lowExponent).toNat * f.fractionWeight + x.significand = x.magnitude := by
  unfold exponent significand
  split
  · simp
  · rename_i h
    have hpos := fractionWeight_pos (f := f)
    have hdiv : 1 ≤ x.magnitude / f.fractionWeight := (Nat.one_le_div_iff hpos).mpr (by omega)
    have hsplit := Nat.div_add_mod x.magnitude f.fractionWeight
    rw [add_sub_cancel_left, Int.toNat_natCast, Nat.sub_mul, Nat.one_mul]
    have hle : f.fractionWeight ≤ x.magnitude / f.fractionWeight * f.fractionWeight :=
      Nat.le_mul_of_pos_left _ hdiv
    rw [Nat.mul_comm] at hsplit
    omega

theorem width_pow (f : BinaryFormat) : 2 ^ f.width = 2 * f.signWeight := by
  simp only [BinaryFormat.width, BinaryFormat.signWeight, Nat.pow_eq, pow_add, pow_one]

/-- A word is its sign and the rest. -/
theorem ofParts_magnitude (x : Binary f) : ofParts x.isNegative x.magnitude = x := by
  have hlt : x.bits.toNat < 2 * f.signWeight := width_pow f ▸ x.bits.isLt
  obtain ⟨bits⟩ := x
  unfold ofParts magnitude isNegative
  congr 1
  apply BitVec.eq_of_toNat_eq
  rw [BitVec.toNat_ofNat, width_pow]
  by_cases hneg : f.signWeight ≤ bits.toNat
  · have hmod : bits.toNat % f.signWeight = bits.toNat - f.signWeight := by
      rw [Nat.mod_eq_sub_mod hneg, Nat.mod_eq_of_lt (by simp only at hlt; omega)]
    simp only [hneg, decide_true, if_true, hmod]
    rw [Nat.mod_eq_of_lt] <;> simp only at hlt <;> omega
  · have hmod : bits.toNat % f.signWeight = bits.toNat := Nat.mod_eq_of_lt (by omega)
    simp only [hneg, decide_false, hmod]
    rw [Nat.mod_eq_of_lt]
    · simp
    · simp only [Bool.false_eq_true, if_false]
      omega

theorem magnitude_ofParts (negative : Bool) {magnitude : ℕ} (h : magnitude < f.signWeight) :
    (ofParts negative magnitude : Binary f).magnitude = magnitude := by
  unfold ofParts Binary.magnitude
  rw [BitVec.toNat_ofNat, width_pow, Nat.mod_mul_left_mod]
  cases negative with
  | true => rw [if_pos rfl, Nat.add_mod_left, Nat.mod_eq_of_lt h]
  | false => simp [Nat.mod_eq_of_lt h]

@[simp] theorem isZero_zero (negative : Bool) : (zero negative : Binary f).isZero = true := by
  have h := magnitude_ofParts (f := f) negative (Nat.pow_pos Nat.two_pos : 0 < f.signWeight)
  simp [isZero, zero, h]

/-- **A finite number that is rounded is that number.** -/
theorem ofRatio_absValue (hx : x.isFinite = true) {num den : ℕ} (hden : 0 < den)
    (h : (num : ℚ) / den = x.absValue) : ofRatio x.isNegative num den = x := by
  have hfin : x.magnitude < f.infinityWord := by simpa [isFinite] using hx
  have hword : f.nearestWord num den = x.magnitude := by
    rw [BinaryFormat.nearestWord_of_exact hden h x.lowExponent_le_exponent x.significand_lt
      x.exponent_tight, fields_eq]
    omega
  rw [ofRatio, hword, ofParts_magnitude]

/-! ### How large and small a finite number is -/

theorem exponent_le (hf : 2 ≤ f.exponentBits) (hx : x.isFinite = true) :
    x.exponent + (f.fractionBits + 1) ≤ f.topExponent := by
  have hfin : x.magnitude < f.infinityWord := by simpa [isFinite] using hx
  have htop := BinaryFormat.two_le_topExponent hf
  have hdouble := BinaryFormat.signWeight_eq hf
  have hdiv : x.magnitude / f.fractionWeight < 2 * f.topExponent - 1 := by
    rw [Nat.div_lt_iff_lt_mul fractionWeight_pos, Nat.sub_mul, Nat.one_mul, ← hdouble]
    exact hfin
  unfold exponent BinaryFormat.lowExponent
  split <;> omega

theorem absValue_lt (hf : 2 ≤ f.exponentBits) (hx : x.isFinite = true) :
    x.absValue < 2 ^ f.topExponent := by
  have hexp := exponent_le hf hx
  have hsig : (x.significand : ℚ) < 2 ^ (f.fractionBits + 1) := by
    have h := x.significand_lt
    simp only [BinaryFormat.fractionWeight, Nat.pow_eq, ← pow_succ'] at h
    exact_mod_cast h
  have htwo : (0 : ℚ) < 2 ^ x.exponent := by positivity
  calc x.absValue < 2 ^ (f.fractionBits + 1) * 2 ^ x.exponent := by
        unfold absValue
        gcongr
    _ = 2 ^ (x.exponent + (f.fractionBits + 1)) := by
        rw [zpow_add₀ (by norm_num), mul_comm]
        norm_cast
    _ ≤ 2 ^ (f.topExponent : ℤ) := zpow_le_zpow_right₀ (by norm_num) hexp
    _ = 2 ^ f.topExponent := zpow_natCast _ _

theorem significand_pos (hx : x.isZero = false) : 0 < x.significand := by
  have hmag : x.magnitude ≠ 0 := by simpa [isZero] using hx
  have hpos := fractionWeight_pos (f := f)
  unfold significand
  split <;> omega

theorem le_absValue (hx : x.isZero = false) : (2 : ℚ) ^ f.lowExponent ≤ x.absValue := by
  have hsig : (1 : ℚ) ≤ x.significand := by exact_mod_cast significand_pos hx
  calc (2 : ℚ) ^ f.lowExponent ≤ 2 ^ x.exponent :=
        zpow_le_zpow_right₀ (by norm_num) x.lowExponent_le_exponent
    _ = 1 * 2 ^ x.exponent := (one_mul _).symm
    _ ≤ x.absValue := by
        unfold absValue
        gcongr

end Binary
end TypedConfig
