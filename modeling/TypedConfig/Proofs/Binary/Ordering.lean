/-
# The order of floats is that of their values

A word that stands for a number stands for a rational one or for an infinity
(`Binary.number?`). Among finite numbers the value grows with the magnitude, so comparing
words compares what they stand for (`Binary.isLess_iff`): the two zeros are one number, the
infinities lie beyond all others, and a word that is no number is not below or above
anything. A wider format has the same numbers (`Binary.number?_convert`).

Key definitions: `ExtendedRat`, `Binary.ratValue`, `Binary.number?`.
Key theorems: `Binary.isLess_iff`, `Binary.number?_convert`.
-/
import Mathlib
import TypedConfig.Proofs.Binary.Widening

namespace TypedConfig

/-- A rational number, or one of the infinities. -/
abbrev ExtendedRat : Type := WithBot (WithTop ℚ)

namespace ExtendedRat

/-- A rational number as it is. -/
def ofRat (q : ℚ) : ExtendedRat := ((q : WithTop ℚ) : WithBot (WithTop ℚ))

@[simp] theorem ofRat_lt_ofRat {p q : ℚ} : ofRat p < ofRat q ↔ p < q := by
  rw [ofRat, ofRat, WithBot.coe_lt_coe, WithTop.coe_lt_coe]

@[simp] theorem ofRat_le_ofRat {p q : ℚ} : ofRat p ≤ ofRat q ↔ p ≤ q := by
  rw [ofRat, ofRat, WithBot.coe_le_coe, WithTop.coe_le_coe]

@[simp] theorem ofRat_lt_top (q : ℚ) : ofRat q < ⊤ := WithBot.coe_lt_coe.mpr (WithTop.coe_lt_top q)

@[simp] theorem bot_lt_ofRat (q : ℚ) : ⊥ < ofRat q := WithBot.bot_lt_coe _

end ExtendedRat

namespace Binary

open ExtendedRat

variable {f g : BinaryFormat} {x y : Binary f}

/-! ### Finite numbers -/

/-- The value of a finite number. -/
def ratValue (x : Binary f) : ℚ := if x.isNegative then -x.absValue else x.absValue

theorem exponent_mono (h : x.magnitude ≤ y.magnitude) : x.exponent ≤ y.exponent := by
  have hdiv := Nat.div_le_div_right (c := f.fractionWeight) h
  unfold exponent
  split_ifs <;> omega

/-- Without its sign the value grows with the magnitude. -/
theorem absValue_strictMono (h : x.magnitude < y.magnitude) : x.absValue < y.absValue := by
  have htwo : (0 : ℚ) < 2 ^ x.exponent := by positivity
  rcases (exponent_mono h.le).lt_or_eq with hlt | heq
  · -- a larger exponent outweighs every significand
    have hy : f.fractionWeight ≤ y.significand := by
      refine y.exponent_tight.resolve_left fun hlow => ?_
      have hx := x.lowExponent_le_exponent
      omega
    have hsignificand : (x.significand : ℚ) < 2 * f.fractionWeight := by
      exact_mod_cast x.significand_lt
    calc x.absValue < 2 * f.fractionWeight * 2 ^ x.exponent :=
          mul_lt_mul_of_pos_right hsignificand htwo
      _ = f.fractionWeight * 2 ^ (x.exponent + 1) := by
          rw [zpow_add_one₀ (by norm_num)]
          ring
      _ ≤ f.fractionWeight * 2 ^ y.exponent := by
          gcongr
          · norm_num
          · omega
      _ ≤ y.absValue := by
          unfold absValue
          gcongr
  · have hx := x.fields_eq
    have hy := y.fields_eq
    rw [← heq] at hy
    have hsignificand : (x.significand : ℚ) < y.significand := by
      exact_mod_cast (show x.significand < y.significand by omega)
    unfold absValue
    rw [← heq]
    exact mul_lt_mul_of_pos_right hsignificand htwo

theorem absValue_congr (h : x.magnitude = y.magnitude) : x.absValue = y.absValue := by
  simp only [absValue, significand, exponent, h]

theorem absValue_lt_iff : x.absValue < y.absValue ↔ x.magnitude < y.magnitude := by
  refine ⟨fun h => ?_, absValue_strictMono⟩
  by_contra hle
  rcases (not_lt.mp hle).lt_or_eq with hlt | heq
  · exact lt_asymm h (absValue_strictMono hlt)
  · exact absurd h (absValue_congr heq).le.not_gt

theorem absValue_nonneg (x : Binary f) : 0 ≤ x.absValue := by
  unfold absValue
  positivity

theorem absValue_pos_iff : 0 < x.absValue ↔ 0 < x.magnitude := by
  rcases Nat.eq_zero_or_pos x.magnitude with hzero | hpos
  · have hvalue : x.absValue = 0 := by
      have hweight := fractionWeight_pos (f := f)
      simp [absValue, significand, hzero, hweight]
    rw [hvalue, hzero]
    simp
  · have hx : x.isZero = false := decide_eq_false hpos.ne'
    have hlow : (0 : ℚ) < 2 ^ f.lowExponent := by positivity
    exact iff_of_true (hlow.trans_le (le_absValue hx)) hpos

/-- **Finite values are in the order of their words.** -/
theorem ratValue_lt_iff : x.ratValue < y.ratValue ↔ x.rank < y.rank := by
  have hx := x.absValue_nonneg
  have hy := y.absValue_nonneg
  unfold ratValue rank
  cases x.isNegative <;> cases y.isNegative <;>
    simp only [Bool.false_eq_true, if_false, if_true]
  · rw [absValue_lt_iff]
    omega
  · exact iff_of_false (by linarith) (by omega)
  · -- below zero or above it, unless both are zeros
    have hzero : -x.absValue < y.absValue ↔ 0 < x.absValue ∨ 0 < y.absValue := by
      constructor
      · intro h
        by_contra hnone
        push Not at hnone
        linarith
      · rintro (h | h) <;> linarith
    rw [hzero, absValue_pos_iff, absValue_pos_iff]
    omega
  · rw [neg_lt_neg_iff, absValue_lt_iff]
    omega

/-! ### All numbers -/

/-- The number that a word stands for, if it stands for one. -/
def number? (x : Binary f) : Option ExtendedRat :=
  if x.isNaN then none
  else if x.isFinite then some (ofRat x.ratValue)
  else some (if x.isNegative then ⊥ else ⊤)

theorem number?_of_isNaN (h : x.isNaN = true) : x.number? = none := if_pos h

theorem number?_of_isFinite (h : x.isFinite = true) : x.number? = some (ofRat x.ratValue) := by
  simp [number?, isNaN_of_isFinite h, h]

theorem number?_of_isInfinite (h : x.isInfinite = true) :
    x.number? = some (if x.isNegative then ⊥ else ⊤) := by
  have hmagnitude : x.magnitude = f.infinityWord := of_decide_eq_true h
  simp [number?, isNaN, isFinite, hmagnitude]

/-- A word is no number, a finite one, or an infinity. -/
theorem sort_cases (x : Binary f) :
    x.isNaN = true ∨ x.isFinite = true ∨ x.isInfinite = true := by
  simp only [isNaN, isFinite, isInfinite, decide_eq_true_eq]
  omega

theorem number?_eq_none_iff : x.number? = none ↔ x.isNaN = true := by
  unfold number?
  split_ifs <;> simp_all

/-- Beyond every finite number lie the infinities, on both sides. -/
theorem rank_bounds (h : x.isFinite = true) :
    -(f.infinityWord : ℤ) < x.rank ∧ x.rank < f.infinityWord := by
  have hmagnitude : x.magnitude < f.infinityWord := of_decide_eq_true h
  unfold rank
  split <;> omega

theorem rank_of_isInfinite (h : x.isInfinite = true) :
    x.rank = if x.isNegative then -(f.infinityWord : ℤ) else f.infinityWord := by
  have hmagnitude : x.magnitude = f.infinityWord := of_decide_eq_true h
  rw [rank, hmagnitude]

theorem isNaN_of_isInfinite (h : x.isInfinite = true) : x.isNaN = false := by
  have hmagnitude : x.magnitude = f.infinityWord := of_decide_eq_true h
  simp [isNaN, hmagnitude]

theorem infinityWord_pos (hf : 2 ≤ f.exponentBits) : 0 < f.infinityWord := by
  have htop := BinaryFormat.two_le_topExponent hf
  rw [BinaryFormat.infinityWord_eq hf]
  exact Nat.mul_pos (by omega) fractionWeight_pos

/-- **Comparing words compares the numbers that they stand for.** -/
theorem isLess_iff (hf : 2 ≤ f.exponentBits) : x.isLess y = true ↔
    ∃ a b, x.number? = some a ∧ y.number? = some b ∧ a < b := by
  have hword := infinityWord_pos hf
  rcases x.sort_cases with hx | hx | hx
  · simp [isLess, hx, number?_of_isNaN hx]
  all_goals rcases y.sort_cases with hy | hy | hy
  · simp [isLess, hy, number?_of_isNaN hy]
  · simp [isLess, isNaN_of_isFinite hx, isNaN_of_isFinite hy, number?_of_isFinite hx,
      number?_of_isFinite hy, ratValue_lt_iff]
  · have hrank := rank_bounds hx
    cases hsign : y.isNegative <;>
      simp [isLess, isNaN_of_isFinite hx, isNaN_of_isInfinite hy, number?_of_isFinite hx,
        number?_of_isInfinite hy, rank_of_isInfinite hy, hsign] <;> omega
  · simp [isLess, hy, number?_of_isNaN hy]
  · have hrank := rank_bounds hy
    cases hsign : x.isNegative <;>
      simp [isLess, isNaN_of_isInfinite hx, isNaN_of_isFinite hy, number?_of_isInfinite hx,
        number?_of_isFinite hy, rank_of_isInfinite hx, hsign] <;> omega
  · cases hsign : x.isNegative <;> cases hsign' : y.isNegative <;>
      simp [isLess, isNaN_of_isInfinite hx, isNaN_of_isInfinite hy, number?_of_isInfinite hx,
        number?_of_isInfinite hy, rank_of_isInfinite hx, rank_of_isInfinite hy, hsign, hsign', hword]

/-! ### Wider formats -/

/-- What is no number is none in a wider format. -/
theorem isNaN_convert (embeds : f.Embeds g) (h : x.isNaN = true) : (x.convert g).isNaN = true := by
  obtain ⟨field, hlow, hhigh, hconvert⟩ := convert_of_isNaN embeds h
  rw [isNaN, hconvert, magnitude_ofParts _ hhigh]
  exact decide_eq_true (by omega)

/-- An infinity is the infinity of its side in every format. -/
theorem convert_of_isInfinite (h : x.isInfinite = true) (g : BinaryFormat) :
    (x.convert g).isInfinite = true ∧ (x.convert g).isNegative = x.isNegative := by
  simp only [convert, isNaN_of_isInfinite h, h, Bool.false_eq_true, if_false, if_true]
  exact ⟨decide_eq_true (magnitude_ofParts _ infinityWord_lt),
    isNegative_ofParts _ infinityWord_lt⟩

/-- **A word stands for the same number in a wider format.** -/
theorem number?_convert (embeds : f.Embeds g) (x : Binary f) :
    (x.convert g).number? = x.number? := by
  rcases x.sort_cases with hx | hx | hx
  · rw [number?_of_isNaN hx, number?_of_isNaN (isNaN_convert embeds hx)]
  · obtain ⟨hfinite, hnegative, hvalue⟩ := convert_exact embeds hx
    rw [number?_of_isFinite hx, number?_of_isFinite hfinite]
    simp only [ratValue, hnegative, hvalue]
  · obtain ⟨hinfinite, hnegative⟩ := convert_of_isInfinite hx g
    rw [number?_of_isInfinite hx, number?_of_isInfinite hinfinite, hnegative]

end Binary
end TypedConfig
