/-
# Widening loses nothing

A finite number of a narrow format is a number of every format that embeds it
(`BinaryFormat.Embeds`): with the finest place that the wide format has for it, its
significand fits (`Binary.exists_exact`). So converting it there keeps its value, and
converting back gives the same word (`Binary.convert_convert`).

Key definitions: `BinaryFormat.Embeds`.
Key theorems: `Binary.ofRatio_of_exact`, `Binary.convert_convert`, `Binary32.narrow_widen`.
-/
import Mathlib
import TypedConfig.Proofs.Binary.Rounding

namespace TypedConfig

/-- Every finite number of a format is one of another: that has at least as many fraction bits,
and its exponents reach as far on both sides. -/
structure BinaryFormat.Embeds (f g : BinaryFormat) : Prop where
  exponentBits : 2 ≤ f.exponentBits
  exponentBits' : 2 ≤ g.exponentBits
  fraction_pos : 0 < g.fractionBits
  fraction_le : f.fractionBits ≤ g.fractionBits
  low_le : g.lowExponent ≤ f.lowExponent
  top_le : f.topExponent ≤ g.topExponent

theorem BinaryFormat.single_embeds_double : BinaryFormat.single.Embeds .double :=
  ⟨by decide, by decide, by decide, by decide, by decide, by decide⟩

namespace Binary

variable {f g : BinaryFormat}

/-! ### Words from their fields -/

theorem isNegative_ofParts (negative : Bool) {magnitude : ℕ} (h : magnitude < f.signWeight) :
    (ofParts negative magnitude : Binary f).isNegative = negative := by
  unfold ofParts isNegative
  rw [BitVec.toNat_ofNat, width_pow]
  cases negative with
  | true =>
    rw [if_pos rfl, Nat.mod_eq_of_lt (by omega)]
    simp
  | false =>
    rw [if_neg Bool.false_ne_true, Nat.zero_add, Nat.mod_eq_of_lt (by omega)]
    simpa using h

theorem infinityWord_lt : f.infinityWord < f.signWeight := by
  have hsign : 0 < f.signWeight := Nat.pow_pos Nat.two_pos
  have hfraction := fractionWeight_pos (f := f)
  unfold BinaryFormat.infinityWord
  omega

/-- The magnitude of a significand at a place has just these two for its fields. -/
theorem fields_of_magnitude {x : Binary f} {place : ℤ} {significand : ℕ}
    (h : x.magnitude = (place - f.lowExponent).toNat * f.fractionWeight + significand)
    (hlow : f.lowExponent ≤ place) (hfits : significand < 2 * f.fractionWeight)
    (htight : place = f.lowExponent ∨ f.fractionWeight ≤ significand) :
    x.significand = significand ∧ x.exponent = place := by
  have hpos := fractionWeight_pos (f := f)
  unfold Binary.significand Binary.exponent
  rw [h]
  by_cases hnormal : f.fractionWeight ≤ significand
  · obtain ⟨rest, rfl⟩ := Nat.exists_eq_add_of_le hnormal
    have hrest : rest < f.fractionWeight := by omega
    have hsum : (place - f.lowExponent).toNat * f.fractionWeight + (f.fractionWeight + rest) =
        rest + f.fractionWeight * ((place - f.lowExponent).toNat + 1) := by ring
    have hlarge : ¬ rest + f.fractionWeight * ((place - f.lowExponent).toNat + 1) <
        f.fractionWeight := by
      rw [Nat.mul_succ]
      omega
    rw [hsum, if_neg hlarge, if_neg hlarge, Nat.add_mul_mod_self_left, Nat.mod_eq_of_lt hrest,
      Nat.add_mul_div_left _ _ hpos, Nat.div_eq_of_lt hrest]
    omega
  · have hplace : place = f.lowExponent := htight.resolve_right hnormal
    subst hplace
    have hsmall : significand < f.fractionWeight := not_le.mp hnormal
    simp [hsmall]

/-- A significand at a place lies below the infinities if its value lies below the top power. -/
theorem magnitude_lt_infinityWord (hf : 2 ≤ f.exponentBits) {place : ℤ} {significand : ℕ}
    (hlow : f.lowExponent ≤ place) (hfits : significand < 2 * f.fractionWeight)
    (htight : place = f.lowExponent ∨ f.fractionWeight ≤ significand)
    (hsmall : (significand : ℚ) * 2 ^ place < 2 ^ f.topExponent) :
    (place - f.lowExponent).toNat * f.fractionWeight + significand < f.infinityWord := by
  have hpos := fractionWeight_pos (f := f)
  have htop := BinaryFormat.two_le_topExponent hf
  rw [BinaryFormat.infinityWord_eq hf]
  by_cases hnormal : f.fractionWeight ≤ significand
  · -- the place is below that of the top power
    have hplace : place + f.fractionBits < f.topExponent := by
      by_contra hge
      have hweight := f.cast_fractionWeight
      have hle : (2 : ℚ) ^ f.topExponent ≤ significand * 2 ^ place :=
        calc (2 : ℚ) ^ f.topExponent = 2 ^ (f.topExponent : ℤ) := (zpow_natCast _ _).symm
          _ ≤ 2 ^ ((f.fractionBits : ℤ) + place) :=
            zpow_le_zpow_right₀ (by norm_num) (by omega)
          _ = f.fractionWeight * 2 ^ place := by
            rw [zpow_add₀ (by norm_num), zpow_natCast, hweight]
          _ ≤ significand * 2 ^ place := by gcongr
      exact absurd hsmall (not_lt.mpr hle)
    have hk : (place - f.lowExponent).toNat + 2 ≤ 2 * f.topExponent - 1 := by
      unfold BinaryFormat.lowExponent at hlow ⊢
      omega
    calc (place - f.lowExponent).toNat * f.fractionWeight + significand
        < (place - f.lowExponent).toNat * f.fractionWeight + 2 * f.fractionWeight := by omega
      _ = ((place - f.lowExponent).toNat + 2) * f.fractionWeight := (Nat.add_mul _ _ _).symm
      _ ≤ (2 * f.topExponent - 1) * f.fractionWeight := Nat.mul_le_mul_right _ hk
  · have hplace : place = f.lowExponent := htight.resolve_right hnormal
    subst hplace
    calc (f.lowExponent - f.lowExponent).toNat * f.fractionWeight + significand
        < 1 * f.fractionWeight := by simpa using not_le.mp hnormal
      _ ≤ (2 * f.topExponent - 1) * f.fractionWeight := Nat.mul_le_mul_right _ (by omega)

/-! ### Values that fit -/

/-- **A value that fits a format is kept by rounding to it.** -/
theorem ofRatio_of_exact (hf : 2 ≤ f.exponentBits) (negative : Bool) {num den significand : ℕ}
    {place : ℤ} (hden : 0 < den) (h : (num : ℚ) / den = significand * 2 ^ place)
    (hlow : f.lowExponent ≤ place) (hfits : significand < 2 * f.fractionWeight)
    (htight : place = f.lowExponent ∨ f.fractionWeight ≤ significand)
    (hsmall : (num : ℚ) / den < 2 ^ f.topExponent) :
    (ofRatio negative num den : Binary f).isFinite = true ∧
      (ofRatio negative num den : Binary f).isNegative = negative ∧
      (ofRatio negative num den : Binary f).absValue = num / den := by
  have hfinite := magnitude_lt_infinityWord hf hlow hfits htight (h ▸ hsmall)
  have hword : f.nearestWord num den =
      (place - f.lowExponent).toNat * f.fractionWeight + significand := by
    rw [BinaryFormat.nearestWord_of_exact hden h hlow hfits htight]
    omega
  have hsign := hfinite.trans infinityWord_lt
  rw [ofRatio, hword]
  have hmagnitude := magnitude_ofParts (f := f) negative hsign
  obtain ⟨hsignificand, hexponent⟩ := fields_of_magnitude hmagnitude hlow hfits htight
  refine ⟨?_, isNegative_ofParts negative hsign, ?_⟩
  · rw [isFinite, hmagnitude]
    exact decide_eq_true hfinite
  · rw [absValue, hsignificand, hexponent, h]

/-- The value of a finite number has a significand that fits a format which embeds the number's
own. -/
theorem exists_exact (embeds : f.Embeds g) (x : Binary f) {num den : ℕ} (hden : 0 < den)
    (h : (num : ℚ) / den = x.absValue) :
    ∃ (significand : ℕ) (place : ℤ), (num : ℚ) / den = significand * 2 ^ place ∧
      g.lowExponent ≤ place ∧ significand < 2 * g.fractionWeight ∧
      (place = g.lowExponent ∨ g.fractionWeight ≤ significand) := by
  have hlast := BinaryFormat.lastPlace_isLastPlace (f := g) num hden
  set place := g.lastPlace num den
  have hplace : place ≤ x.exponent := by
    rcases hlast.tight with hlow | hle
    · exact hlow ▸ embeds.low_le.trans x.lowExponent_le_exponent
    · have hsignificand : (x.significand : ℚ) < 2 ^ (g.fractionBits + 1) := by
        have hlt := x.significand_lt
        simp only [BinaryFormat.fractionWeight, Nat.pow_eq, ← pow_succ'] at hlt
        exact_mod_cast hlt.trans_le
          (Nat.pow_le_pow_right Nat.two_pos (Nat.succ_le_succ embeds.fraction_le))
      have hlt : (2 : ℚ) ^ g.fractionBits * 2 ^ place <
          2 ^ g.fractionBits * 2 ^ (x.exponent + 1) := by
        calc (2 : ℚ) ^ g.fractionBits * 2 ^ place ≤ num / den := hle
          _ = x.significand * 2 ^ x.exponent := h
          _ < 2 ^ (g.fractionBits + 1) * 2 ^ x.exponent := by gcongr
          _ = 2 ^ g.fractionBits * 2 ^ (x.exponent + 1) := BinaryFormat.two_zpow_succ _ _
      have hpow : (2 : ℚ) ^ place < 2 ^ (x.exponent + 1) :=
        lt_of_mul_lt_mul_left hlt (by positivity)
      have := (zpow_lt_zpow_iff_right₀ (by norm_num : (1 : ℚ) < 2)).mp hpow
      omega
  obtain ⟨shift, hshift⟩ : ∃ shift : ℕ, x.exponent = place + shift :=
    ⟨(x.exponent - place).toNat, by omega⟩
  have hvalue : (num : ℚ) / den = (x.significand * 2 ^ shift : ℕ) * 2 ^ place := by
    rw [h, absValue, hshift, zpow_add₀ (by norm_num), zpow_natCast]
    push_cast
    ring
  have hweight : (g.fractionWeight : ℚ) = 2 ^ g.fractionBits := by
    simp [BinaryFormat.fractionWeight]
  have htwo : (0 : ℚ) < 2 ^ place := by positivity
  refine ⟨x.significand * 2 ^ shift, place, hvalue, hlast.low_le, ?_, hlast.tight.imp_right ?_⟩
  · have hfits := hlast.fits
    rw [hvalue, pow_succ', ← hweight, mul_lt_mul_iff_left₀ htwo] at hfits
    exact_mod_cast hfits
  · intro hle
    rw [hvalue, ← hweight, mul_le_mul_iff_left₀ htwo] at hle
    exact_mod_cast hle

/-! ### Conversion -/

theorem isNaN_of_isFinite {x : Binary f} (hx : x.isFinite = true) : x.isNaN = false := by
  have h : x.magnitude < f.infinityWord := by simpa [isFinite] using hx
  simpa [isNaN] using h.le

/-- A finite number is converted by rounding its value. -/
theorem convert_of_isFinite {x : Binary f} (hx : x.isFinite = true) (g : BinaryFormat) :
    ∃ num den : ℕ, 0 < den ∧ (num : ℚ) / den = x.absValue ∧
      x.convert g = ofRatio x.isNegative num den := by
  have hinfinite : x.isInfinite = false := by
    have h : x.magnitude < f.infinityWord := by simpa [isFinite] using hx
    simpa [isInfinite] using h.ne
  refine ⟨(scaleDown 2 x.significand 1 (-x.exponent)).1,
    (scaleDown 2 x.significand 1 (-x.exponent)).2, scaleDown_snd_pos Nat.two_pos Nat.one_pos _ _,
    ?_, ?_⟩
  · rw [scaleDown_ratio Nat.two_pos, absValue, zpow_neg]
    simp
  · simp only [convert, isNaN_of_isFinite hx, hinfinite, ofScaled, Bool.false_eq_true, if_false]

/-- **A finite number that is converted to a wider format is finite and has the same value.** -/
theorem convert_exact (embeds : f.Embeds g) {x : Binary f} (hx : x.isFinite = true) :
    (x.convert g).isFinite = true ∧ (x.convert g).isNegative = x.isNegative ∧
      (x.convert g).absValue = x.absValue := by
  obtain ⟨num, den, hden, hratio, hconvert⟩ := convert_of_isFinite hx g
  obtain ⟨significand, place, hvalue, hlow, hfits, htight⟩ := exists_exact embeds x hden hratio
  have hsmall : (num : ℚ) / den < 2 ^ g.topExponent := by
    calc (num : ℚ) / den = x.absValue := hratio
      _ < 2 ^ f.topExponent := absValue_lt embeds.exponentBits hx
      _ ≤ 2 ^ g.topExponent := pow_le_pow_right₀ (by norm_num) embeds.top_le
  rw [hconvert, ← hratio]
  exact ofRatio_of_exact embeds.exponentBits' x.isNegative hden hvalue hlow hfits htight hsmall

/-- A fraction field moved to a format with more fraction bits fits there. -/
theorem payload_lt (h : f.fractionBits ≤ g.fractionBits) {payload : ℕ}
    (hpayload : payload < f.fractionWeight) :
    (scaleDown 2 payload 1 ((f.fractionBits : ℤ) - g.fractionBits)).1 /
      (scaleDown 2 payload 1 ((f.fractionBits : ℤ) - g.fractionBits)).2 < g.fractionWeight := by
  obtain ⟨more, hmore⟩ := Nat.exists_eq_add_of_le h
  rw [Nat.div_lt_iff_lt_mul (scaleDown_snd_pos Nat.two_pos Nat.one_pos _ _)]
  simp only [BinaryFormat.fractionWeight, Nat.pow_eq] at hpayload ⊢
  unfold scaleDown
  split
  · rename_i hzero
    have hmore : g.fractionBits = f.fractionBits := by omega
    have hpower : ((f.fractionBits : ℤ) - g.fractionBits).toNat = 0 := by omega
    simpa [hmore] using hpayload
  · have hpower : (-((f.fractionBits : ℤ) - g.fractionBits)).toNat = more := by omega
    rw [hpower, hmore, pow_add]
    simpa using hpayload

/-- A word that is no number keeps its fraction field, with the first bit of it set. -/
theorem convert_of_isNaN (embeds : f.Embeds g) {x : Binary f} (hx : x.isNaN = true) :
    ∃ word, g.infinityWord < word ∧ word < g.signWeight ∧
      x.convert g = ofParts x.isNegative word := by
  have hsum : g.infinityWord + g.fractionWeight = g.signWeight := by
    have hle : g.fractionWeight ≤ g.signWeight :=
      Nat.pow_le_pow_right Nat.two_pos (Nat.le_add_left _ _)
    unfold BinaryFormat.infinityWord
    omega
  have hpayload := payload_lt embeds.fraction_le (Nat.mod_lt x.magnitude fractionWeight_pos)
  have hquiet : g.quietWeight < g.fractionWeight :=
    Nat.pow_lt_pow_right Nat.one_lt_two (Nat.sub_lt embeds.fraction_pos Nat.one_pos)
  have hfield := Nat.or_lt_two_pow hpayload hquiet
  refine ⟨_, Nat.lt_add_of_pos_right ?_, ?_, by simp only [convert, hx, if_true]; rfl⟩
  · exact (Nat.pow_pos Nat.two_pos : 0 < g.quietWeight).trans_le Nat.right_le_or
  · rw [← hsum]
    exact Nat.add_lt_add_left hfield _

/-- What is not finite is not so in a wider format. -/
theorem isFinite_of_convert (embeds : f.Embeds g) {x : Binary f}
    (h : (x.convert g).isFinite = true) : x.isFinite = true := by
  by_contra hx
  by_cases hnan : x.isNaN = true
  · obtain ⟨word, hlow, hhigh, hconvert⟩ := convert_of_isNaN embeds hnan
    rw [isFinite, hconvert, magnitude_ofParts _ hhigh, decide_eq_true_eq] at h
    omega
  · have hinfinite : x.isInfinite = true := by
      simp only [isFinite, isNaN, isInfinite, decide_eq_true_eq] at hx hnan ⊢
      omega
    simp [convert, hnan, hinfinite, isFinite, magnitude_ofParts _ infinityWord_lt] at h

/-- **Converting to a wider format and back gives the same word.** -/
theorem convert_convert (embeds : f.Embeds g) {x : Binary f} (hx : x.isFinite = true) :
    (x.convert g).convert f = x := by
  obtain ⟨hfinite, hnegative, hvalue⟩ := convert_exact embeds hx
  obtain ⟨num, den, hden, hratio, hback⟩ := convert_of_isFinite hfinite f
  rw [hback, hnegative]
  exact ofRatio_absValue hx hden (hratio.trans hvalue)

end Binary

theorem Binary32.narrow_widen {x : Binary32} (hx : x.isFinite = true) : x.widen.narrow = x :=
  Binary.convert_convert BinaryFormat.single_embeds_double hx

end TypedConfig
