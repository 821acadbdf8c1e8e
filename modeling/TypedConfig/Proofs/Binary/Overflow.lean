/-
# Which numbers are too large for a format

Rounding goes past the finite numbers from half a last place above the largest of them
on (`BinaryFormat.overflow`): what lies just there is a tie, and of the two words the
even one is infinity. So a decimal is read as a finite number exactly if its value is
below that (`Binary.isFinite_ofDecimal_iff`). Looking at the leading digits only does
not change on which side it is, as the bound is an integer of fewer digits
(`Numeral.exists_float?_iff`).

Key definitions: `BinaryFormat.topPlace`, `BinaryFormat.overflow`, `Numeral.absValue`.
Key theorems: `BinaryFormat.nearestWord_lt_iff`, `Binary.isFinite_convert_iff`,
`Binary.isFinite_ofDecimal_iff`, `Numeral.exists_float?_iff`.
-/
import Mathlib
import TypedConfig.Document.Basic
import TypedConfig.Proofs.Binary.Shortest
import TypedConfig.Proofs.Binary.Widening

namespace TypedConfig

/-! ### Rounding to an integer -/

/-- What is half a unit below an even integer is rounded to it. -/
theorem nearestEven_lt_iff {num den bound : ℕ} (hden : 0 < den) (heven : 2 ∣ bound) :
    nearestEven num den < bound ↔ (num : ℚ) / den < bound - 1 / 2 := by
  have hden' : (0 : ℚ) < den := by exact_mod_cast hden
  have hcast : (num : ℚ) / den < bound - 1 / 2 ↔ 2 * num + den < 2 * (den * bound) := by
    rw [div_lt_iff₀ hden', sub_mul, lt_sub_iff_add_lt]
    have htwice : (num : ℚ) + 1 / 2 * den < bound * den ↔
        (2 * num + den : ℚ) < 2 * (den * bound) := by
      constructor <;> intro h <;> linarith
    rw [htwice]
    exact_mod_cast Iff.rfl
  rw [hcast]
  have hnum := Nat.div_add_mod num den
  have hmod := Nat.mod_lt num hden
  -- the bound in units of the quotient
  have hle : ∀ {m n : ℕ}, m ≤ n → den * m ≤ den * n := fun h => Nat.mul_le_mul_left den h
  unfold nearestEven
  dsimp only
  split_ifs with hbelow habove
  · constructor
    · intro h
      have := hle (Nat.succ_le_of_lt h)
      rw [Nat.mul_succ] at this
      omega
    · intro h
      by_contra hge
      have := hle (not_lt.mp hge)
      omega
  · constructor
    · intro h
      have := hle (Nat.succ_le_of_lt h)
      rw [Nat.mul_succ, Nat.mul_succ] at this
      omega
    · intro h
      by_contra hge
      have := hle (not_lt.mp hge)
      rw [Nat.mul_succ] at this
      omega
  · constructor
    · intro h
      have := hle (by omega : num / den + 1 + 1 ≤ bound)
      rw [Nat.mul_succ, Nat.mul_succ] at this
      omega
    · intro h
      by_contra hge
      have := hle (by omega : bound ≤ num / den + 1)
      rw [Nat.mul_succ] at this
      omega

theorem le_nearestEven {num den n : ℕ} (hden : 0 < den) (h : (n : ℚ) ≤ num / den) :
    n ≤ nearestEven num den := by
  have hquotient : n ≤ num / den := by
    rw [le_div_iff₀ (by exact_mod_cast hden)] at h
    exact (Nat.le_div_iff_mul_le hden).mpr (by exact_mod_cast h)
  unfold nearestEven
  dsimp only
  split_ifs <;> omega

theorem nearestEven_le {num den n : ℕ} (hden : 0 < den) (h : (num : ℚ) / den < n) :
    nearestEven num den ≤ n := by
  have hquotient : num / den < n := by
    rw [div_lt_iff₀ (by exact_mod_cast hden)] at h
    exact (Nat.div_lt_iff_lt_mul hden).mpr (by exact_mod_cast h)
  unfold nearestEven
  dsimp only
  split_ifs <;> omega

namespace BinaryFormat

variable (f : BinaryFormat)

/-- The power of two that the last place of the largest finite numbers counts. -/
def topPlace : ℤ := f.topExponent - 1 - f.fractionBits

/-- The least number that is rounded past the finite ones. -/
def overflow : ℚ := (2 ^ (f.fractionBits + 1) - 1 / 2) * 2 ^ f.topPlace

variable {f}

theorem two_pow_topExponent : (2 : ℚ) ^ f.topExponent = 2 ^ (f.fractionBits + 1) * 2 ^ f.topPlace := by
  rw [← zpow_natCast, ← zpow_natCast, ← zpow_add₀ (by norm_num)]
  congr 1
  unfold topPlace
  push_cast
  ring

theorem overflow_lt : f.overflow < 2 ^ f.topExponent := by
  have htwo : (0 : ℚ) < 2 ^ f.topPlace := by positivity
  rw [two_pow_topExponent, overflow, mul_lt_mul_iff_left₀ htwo]
  linarith

/-- Numbers with a finer last place are well below. -/
theorem le_overflow : 2 ^ f.fractionBits * 2 ^ f.topPlace ≤ f.overflow := by
  have htwo : (0 : ℚ) < 2 ^ f.topPlace := by positivity
  have hone : (1 : ℚ) ≤ 2 ^ f.fractionBits := one_le_pow₀ (by norm_num)
  rw [overflow, mul_le_mul_iff_left₀ htwo, pow_succ]
  linarith

/-- The word after those of the numbers with the top place. -/
theorem infinityWord_eq_top (hf : 2 ≤ f.exponentBits) :
    f.infinityWord = (f.topPlace - f.lowExponent).toNat * f.fractionWeight +
      2 * f.fractionWeight := by
  have htop := two_le_topExponent hf
  have hplaces : (f.topPlace - f.lowExponent).toNat + 2 = 2 * f.topExponent - 1 := by
    unfold topPlace lowExponent
    omega
  rw [infinityWord_eq hf, ← Nat.add_mul, hplaces]

/-- **A ratio is rounded to a finite number exactly below the bound.** -/
theorem nearestWord_lt_iff (hf : 2 ≤ f.exponentBits) (num : ℕ) {den : ℕ} (hden : 0 < den) :
    f.nearestWord num den < f.infinityWord ↔ (num : ℚ) / den < f.overflow := by
  obtain ⟨low_le, fits, tight⟩ := lastPlace_isLastPlace (f := f) num hden
  set place := f.lastPlace num den with hplace
  have htwo : (0 : ℚ) < 2 ^ place := by positivity
  have hpos := scaleDown_snd_pos Nat.two_pos hden num place
  have hscaled := scaleDown_ratio Nat.two_pos num den place
  set a := (scaleDown 2 num den place).1
  set b := (scaleDown 2 num den place).2
  have hweight := f.cast_fractionWeight
  have hword : f.nearestWord num den = min f.infinityWord
      ((place - f.lowExponent).toNat * f.fractionWeight + nearestEven a b) := rfl
  have hfull := infinityWord_eq_top hf
  have hlow : f.lowExponent ≤ f.topPlace := by
    have htop := two_le_topExponent hf
    unfold topPlace lowExponent
    omega
  rw [hword, min_lt_iff]
  simp only [lt_irrefl, false_or]
  rcases lt_trichotomy place f.topPlace with hlt | heq | hgt
  · -- a finer last place: the significand is not rounded past the next power of two
    have hceiling : nearestEven a b ≤ 2 * f.fractionWeight := by
      apply nearestEven_le hpos
      rw [hscaled]
      push_cast
      rw [hweight, div_lt_iff₀ htwo, ← pow_succ']
      exact fits
    have hfinite : (place - f.lowExponent).toNat * f.fractionWeight + nearestEven a b <
        f.infinityWord := by
      have hplaces : (place - f.lowExponent).toNat + 1 ≤ (f.topPlace - f.lowExponent).toNat := by
        omega
      have hmul := Nat.mul_le_mul_right f.fractionWeight hplaces
      rw [Nat.add_mul, Nat.one_mul] at hmul
      have := Binary.fractionWeight_pos (f := f)
      omega
    have hbelow : (num : ℚ) / den < f.overflow := by
      calc (num : ℚ) / den < 2 ^ (f.fractionBits + 1) * 2 ^ place := fits
        _ = 2 ^ f.fractionBits * 2 ^ (place + 1) := two_zpow_succ place f.fractionBits
        _ ≤ 2 ^ f.fractionBits * 2 ^ f.topPlace := by
          gcongr
          · norm_num
          · omega
        _ ≤ f.overflow := le_overflow
    simp only [hfinite, hbelow]
  · -- the last place of the largest numbers: the significand is rounded past them or not
    have hcarry : nearestEven a b < 2 * f.fractionWeight ↔ (num : ℚ) / den < f.overflow := by
      rw [nearestEven_lt_iff hpos (Dvd.intro _ rfl), hscaled]
      push_cast
      rw [hweight, div_lt_iff₀ htwo, ← pow_succ', heq, overflow]
    rw [← hcarry, heq, hfull]
    omega
  · -- a coarser one: all of them are larger
    have hlarge : 2 ^ f.fractionBits * 2 ^ place ≤ (num : ℚ) / den := by
      rcases tight with h | h
      · omega
      · exact h
    have hfloor : f.fractionWeight ≤ nearestEven a b := by
      apply le_nearestEven hpos
      rw [hscaled]
      push_cast
      rw [hweight, le_div_iff₀ htwo]
      exact hlarge
    have hinfinite : ¬ (place - f.lowExponent).toNat * f.fractionWeight + nearestEven a b <
        f.infinityWord := by
      have hplaces : (f.topPlace - f.lowExponent).toNat + 1 ≤ (place - f.lowExponent).toNat := by
        omega
      have hmul := Nat.mul_le_mul_right f.fractionWeight hplaces
      rw [Nat.add_mul, Nat.one_mul] at hmul
      omega
    have habove : ¬ (num : ℚ) / den < f.overflow := by
      rw [not_lt]
      calc f.overflow ≤ 2 ^ f.topExponent := overflow_lt.le
        _ = 2 ^ f.fractionBits * 2 ^ (f.topPlace + 1) := by
          rw [two_pow_topExponent, two_zpow_succ]
        _ ≤ 2 ^ f.fractionBits * 2 ^ place := by
          gcongr
          · norm_num
          · omega
        _ ≤ (num : ℚ) / den := hlarge
    simp only [hinfinite, habove]

theorem one_le_overflow (hf : 2 ≤ f.exponentBits) : 1 ≤ f.overflow := by
  have htop := two_le_topExponent hf
  calc (1 : ℚ) ≤ 2 ^ ((f.fractionBits : ℤ) + f.topPlace) := by
        apply one_le_zpow₀ (by norm_num)
        unfold topPlace
        omega
    _ = 2 ^ f.fractionBits * 2 ^ f.topPlace := by
        rw [zpow_add₀ (by norm_num), zpow_natCast]
    _ ≤ f.overflow := le_overflow

end BinaryFormat

/-! ### Decimals -/

namespace Binary

variable {f : BinaryFormat}

theorem isFinite_ofParts_iff (negative : Bool) {word : ℕ} (h : word < f.signWeight) :
    (ofParts negative word : Binary f).isFinite = true ↔ word < f.infinityWord := by
  rw [isFinite, magnitude_ofParts negative h, decide_eq_true_iff]

theorem isFinite_ofRatio_iff (hf : 2 ≤ f.exponentBits) (negative : Bool) (num : ℕ) {den : ℕ}
    (hden : 0 < den) :
    (ofRatio negative num den : Binary f).isFinite = true ↔ (num : ℚ) / den < f.overflow := by
  have hle : f.nearestWord num den ≤ f.infinityWord := Nat.min_le_left _ _
  rw [ofRatio, isFinite_ofParts_iff negative (hle.trans_lt infinityWord_lt),
    BinaryFormat.nearestWord_lt_iff hf num hden]

/-- **A finite number stays finite in another format exactly if its value is below the bound.** -/
theorem isFinite_convert_iff {g : BinaryFormat} (hg : 2 ≤ g.exponentBits) {x : Binary f}
    (hx : x.isFinite = true) : (x.convert g).isFinite = true ↔ x.absValue < g.overflow := by
  obtain ⟨num, den, hden, hratio, hconvert⟩ := convert_of_isFinite hx g
  rw [hconvert, isFinite_ofRatio_iff hg _ num hden, hratio]

/-- **A decimal is read as a finite number exactly if its value is below the bound.** -/
theorem isFinite_ofDecimal_iff (hf : 2 ≤ f.exponentBits) (negative : Bool) (d : Decimal) :
    (ofDecimal negative d.digits d.exponent : Binary f).isFinite = true ↔
      d.value < f.overflow := by
  have hone := BinaryFormat.one_le_overflow hf
  have hzeroWord : (zero negative : Binary f).isFinite = true := by
    rw [zero, isFinite_ofParts_iff negative (Nat.pow_pos Nat.two_pos), BinaryFormat.infinityWord_eq hf]
    have htop := BinaryFormat.two_le_topExponent hf
    exact Nat.mul_pos (by omega) fractionWeight_pos
  unfold ofDecimal
  dsimp only
  split_ifs with hdigits hlarge hsmall
  · have hvalue : d.value < f.overflow := by
      rw [value_eq_zero_iff.mpr hdigits]
      linarith
    simp only [hzeroWord, hvalue]
  · have hvalue : ¬ d.value < f.overflow := by
      rw [not_lt]
      calc f.overflow ≤ 2 ^ f.topExponent := BinaryFormat.overflow_lt.le
        _ ≤ 10 ^ f.topExponent := by
          gcongr
          norm_num
        _ = 10 ^ (f.topExponent : ℤ) := (zpow_natCast _ _).symm
        _ ≤ 10 ^ ((decimalLength d.digits : ℤ) + d.exponent - 1) :=
          zpow_le_zpow_right₀ (by norm_num) (by omega)
        _ ≤ d.value := (value_bounds hdigits).1
    rw [isFinite_ofParts_iff negative infinityWord_lt]
    simp only [lt_irrefl, hvalue]
  · have hvalue : d.value < f.overflow := by
      have htop := BinaryFormat.two_le_topExponent hf
      calc d.value < 10 ^ ((decimalLength d.digits : ℤ) + d.exponent) := (value_bounds hdigits).2
        _ ≤ 10 ^ (0 : ℤ) := by
          apply zpow_le_zpow_right₀ (by norm_num)
          unfold BinaryFormat.lowExponent at hsmall
          omega
        _ = 1 := zpow_zero _
        _ ≤ f.overflow := hone
    simp only [hzeroWord, hvalue]
  · rw [isFinite_ofRatio_iff hf negative _ (scaleDown_snd_pos (by norm_num) Nat.one_pos _ _),
      decimal_ratio]

end Binary

theorem overflow_single : BinaryFormat.single.overflow = 2 ^ 128 - 2 ^ 103 := by
  have hplace : BinaryFormat.single.topPlace = (104 : ℕ) := by decide
  rw [BinaryFormat.overflow, hplace, zpow_natCast]
  norm_num [BinaryFormat.single]

/-! ### Numerals -/

/-- The double format's bound is an integer. -/
theorem overflow_double : BinaryFormat.double.overflow = ((2 ^ 54 - 1) * 2 ^ 970 : ℕ) := by
  have hplace : BinaryFormat.double.topPlace = (970 : ℕ) + 1 := by decide
  rw [BinaryFormat.overflow, hplace, zpow_add_one₀ (by norm_num), zpow_natCast, Nat.cast_mul,
    Nat.cast_pow, Nat.cast_ofNat]
  generalize (2 : ℚ) ^ 970 = unit
  simp only [BinaryFormat.double]
  norm_num
  ring

/-- Behind 768 digits, whatever follows them does not count. -/
theorem add_mul_lt_overflow_iff {m : ℕ} (hm : 10 ^ 767 ≤ m) (place : ℤ) {more : ℚ}
    (hnonneg : 0 ≤ more) (hless : more < 1) :
    (m + more) * 10 ^ place < BinaryFormat.double.overflow ↔
      (m : ℚ) * 10 ^ place < BinaryFormat.double.overflow := by
  rcases le_or_gt 0 place with hplace | hplace
  · -- digits before the point only: too many of them
    have hlarge : BinaryFormat.double.overflow ≤ (m : ℚ) * 10 ^ place := by
      have hbound : (2 ^ 54 - 1) * 2 ^ 970 ≤ 10 ^ 767 := by decide +kernel
      calc BinaryFormat.double.overflow = ((2 ^ 54 - 1) * 2 ^ 970 : ℕ) := overflow_double
        _ ≤ (m : ℚ) := by exact_mod_cast hbound.trans hm
        _ ≤ (m : ℚ) * 10 ^ place :=
          le_mul_of_one_le_right (Nat.cast_nonneg m) (one_le_zpow₀ (by norm_num) hplace)
    have hlarger : BinaryFormat.double.overflow ≤ (m + more) * 10 ^ place := by
      calc BinaryFormat.double.overflow ≤ (m : ℚ) * 10 ^ place := hlarge
        _ ≤ (m + more) * 10 ^ place := by
          gcongr
          linarith
    simp only [not_lt.mpr hlarge, not_lt.mpr hlarger]
  · -- in units of the last of them the bound is an integer
    obtain ⟨k, rfl⟩ : ∃ k : ℕ, place = -(k : ℤ) := ⟨place.natAbs, by omega⟩
    have hten : (0 : ℚ) < 10 ^ k := by positivity
    rw [zpow_neg, zpow_natCast, ← div_eq_mul_inv, ← div_eq_mul_inv, div_lt_iff₀ hten,
      div_lt_iff₀ hten, overflow_double]
    generalize (2 ^ 54 - 1) * 2 ^ 970 = bound
    have hunits : ((bound : ℕ) : ℚ) * 10 ^ k = ((bound * 10 ^ k : ℕ) : ℚ) := by push_cast; rfl
    rw [hunits]
    constructor
    · intro h
      linarith
    · intro h
      have hsucc : (m : ℚ) + 1 ≤ ((bound * 10 ^ k : ℕ) : ℚ) := by exact_mod_cast h
      linarith

/-- **Looking at the leading digits only, a decimal is too large exactly if it is.** -/
theorem leading_lt_overflow_iff (digits : ℕ) (scale : ℤ) :
    (⟨(leading digits scale).1, (leading digits scale).2⟩ : Decimal).value <
        BinaryFormat.double.overflow ↔
      (⟨digits, scale⟩ : Decimal).value < BinaryFormat.double.overflow := by
  unfold leading
  dsimp only
  generalize hleftdef : Binary.decimalLength digits - mostDigits = left
  split_ifs with hleft
  · rfl
  have hten : (0 : ℚ) < 10 ^ left := by positivity
  have hplaces : (10 : ℚ) ^ (scale + left) = 10 ^ left * 10 ^ scale := by
    rw [zpow_add₀ (by norm_num), zpow_natCast, mul_comm]
  have hdigits : digits ≠ 0 := by
    rintro rfl
    have hone : Binary.decimalLength 0 ≤ 1 := (Binary.decimalLength_le_iff Nat.one_pos).mpr (by norm_num)
    unfold mostDigits at hleftdef
    omega
  -- 768 digits are looked at
  have hmany : 10 ^ 767 ≤ digits / 10 ^ left := by
    rw [Nat.le_div_iff_mul_le (by positivity), ← pow_add]
    calc 10 ^ (767 + left) ≤ 10 ^ (Binary.decimalLength digits - 1) := by
          apply Nat.pow_le_pow_right (by norm_num)
          unfold mostDigits at hleftdef
          omega
      _ ≤ digits := Binary.pow_decimalLength_le hdigits
  have hrest : (digits % 10 ^ left : ℕ) / (10 : ℚ) ^ left < 1 := by
    rw [div_lt_one hten]
    exact_mod_cast Nat.mod_lt digits (by positivity)
  have hexact : (⟨digits, scale⟩ : Decimal).value =
      ((digits / 10 ^ left : ℕ) + (digits % 10 ^ left : ℕ) / (10 : ℚ) ^ left) *
        10 ^ (scale + left) := by
    have hsplit : (digits : ℚ) =
        10 ^ left * (digits / 10 ^ left : ℕ) + (digits % 10 ^ left : ℕ) := by
      exact_mod_cast (Nat.div_add_mod digits (10 ^ left)).symm
    rw [Decimal.value, hplaces, hsplit]
    push_cast
    field_simp
  have hlooked : (⟨digits / Nat.pow 10 left * 10 + 1, scale + left - 1⟩ : Decimal).value =
      ((digits / 10 ^ left : ℕ) + 1 / 10) * 10 ^ (scale + left) := by
    rw [Decimal.value, zpow_sub_one₀ (by norm_num), Nat.pow_eq]
    push_cast
    ring
  rw [hlooked, hexact]
  calc _ ↔ ((digits / 10 ^ left : ℕ) : ℚ) * 10 ^ (scale + left) < BinaryFormat.double.overflow :=
        add_mul_lt_overflow_iff hmany _ (by norm_num) (by norm_num)
    _ ↔ _ := (add_mul_lt_overflow_iff hmany _ (div_nonneg (Nat.cast_nonneg _) hten.le) hrest).symm

namespace Numeral

/-- The value of a numeral without its sign. -/
def absValue (n : Numeral) : ℚ := (⟨n.digits, n.scale?.getD 0⟩ : Decimal).value

/-- **A numeral spells a float exactly if it is not too large.** -/
theorem exists_float?_iff (n : Numeral) (scale : ℤ) :
    (∃ x : Binary64, n.float? scale = some (.float x)) ↔
      (⟨n.digits, scale⟩ : Decimal).value < BinaryFormat.double.overflow := by
  have hfinite := Binary.isFinite_ofDecimal_iff (f := .double) (by decide) n.negative
    ⟨(leading n.digits scale).1, (leading n.digits scale).2⟩
  rw [leading_lt_overflow_iff] at hfinite
  rw [← hfinite]
  unfold float?
  dsimp only
  split_ifs with h
  · exact ⟨fun _ => h, fun _ => ⟨_, rfl⟩⟩
  · constructor
    · rintro ⟨x, hx⟩
      cases hx
    · intro hx
      exact absurd hx h

end Numeral
end TypedConfig
