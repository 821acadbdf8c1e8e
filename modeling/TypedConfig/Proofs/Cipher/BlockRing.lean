/-
# Products of blocks are products of polynomials

A block of sixteen bytes stands for a polynomial over bits, and two polynomials count as the
same if they differ by a multiple of the modulus. The exclusive or of two blocks is then their
sum, moving a block by one bit is multiplication by the variable (`Block.element_doubleBlock`),
and the product that is computed bit by bit is the product (`Block.element_mulBlock`). Different
blocks stand for different elements (`Block.element_injective`), so what holds of elements holds
of blocks. The hash of a list of blocks is a polynomial in the hash key, with the blocks for its
coefficients (`Envelope.element_hashBlocks`).

Key definitions: `bitPolynomial`, `blockModulus`, `BlockRing`, `Block.element`.
Key theorems: `Block.element_injective`, `Block.element_mulBlock`,
`Envelope.element_hashBlocks`.
-/
import Mathlib
import TypedConfig.Cipher.Envelope

namespace TypedConfig

open Polynomial

/-! ### Bits as coefficients -/

/-- The polynomial of some bits: the most significant one is the coefficient of the lowest
power. -/
noncomputable def bitPolynomial {w : ℕ} (b : BitVec w) : (ZMod 2)[X] :=
  ∑ i ∈ Finset.range w, if b.getMsbD i then X ^ i else 0

section Bits

variable {w : ℕ} (a b : BitVec w)

theorem coeff_bitPolynomial (i : ℕ) : (bitPolynomial b).coeff i = if b.getMsbD i then 1 else 0 := by
  have hterm : ∀ j, (if b.getMsbD j then (X : (ZMod 2)[X]) ^ j else 0).coeff i =
      if i = j then (if b.getMsbD j then 1 else 0) else 0 := by
    intro j
    split_ifs <;> simp_all [coeff_X_pow]
  rw [bitPolynomial, finsetSum_coeff, Finset.sum_congr rfl fun j _ => hterm j, Finset.sum_ite_eq]
  split_ifs with hi hbit hbit
  · rfl
  · rfl
  · rw [Finset.mem_range, not_lt] at hi
    rw [BitVec.getMsbD_of_ge _ _ hi] at hbit
    cases hbit
  · rfl

theorem degree_bitPolynomial_lt : (bitPolynomial b).degree < w := by
  refine (degree_lt_iff_coeff_zero _ w).mpr fun i hi => ?_
  rw [coeff_bitPolynomial, BitVec.getMsbD_of_ge _ _ hi, if_neg Bool.false_ne_true]

@[simp]
theorem bitPolynomial_zero : bitPolynomial 0#w = 0 := by
  simp [bitPolynomial]

theorem bitPolynomial_xor : bitPolynomial (a ^^^ b) = bitPolynomial a + bitPolynomial b := by
  ext i
  rw [coeff_add, coeff_bitPolynomial, coeff_bitPolynomial, coeff_bitPolynomial, BitVec.getMsbD_xor]
  cases a.getMsbD i <;> cases b.getMsbD i <;> decide

/-- No two lists of as many bits differ by a multiple of a modulus of their length. -/
theorem eq_of_dvd_bitPolynomial {modulus : (ZMod 2)[X]} (hdegree : modulus.degree = w)
    (h : modulus ∣ bitPolynomial a - bitPolynomial b) : a = b := by
  have hlt : (bitPolynomial a - bitPolynomial b).degree < modulus.degree := by
    rw [hdegree]
    exact (degree_sub_le _ _).trans_lt
      (max_lt (degree_bitPolynomial_lt a) (degree_bitPolynomial_lt b))
  have heq : bitPolynomial a = bitPolynomial b :=
    sub_eq_zero.mp (eq_zero_of_dvd_of_degree_lt h hlt)
  refine BitVec.eq_of_getMsbD_eq fun i _ => ?_
  have hbit := congrArg (fun p => p.coeff i) heq
  simp only [coeff_bitPolynomial] at hbit
  cases ha : a.getMsbD i <;> cases hb : b.getMsbD i <;> simp [ha, hb] at hbit ⊢

/-- Moving bits by one place is multiplication by the variable, but for the last bit. -/
theorem bitPolynomial_shift (v : BitVec (w + 1)) :
    bitPolynomial (v >>> 1) + (if v.getLsbD 0 then X ^ (w + 1) else 0) = X * bitPolynomial v := by
  have hlast : v.getLsbD 0 = v.getMsbD w := by
    rw [BitVec.getMsbD_eq_getLsbD]
    simp
  ext i
  rw [coeff_add, coeff_bitPolynomial, BitVec.getMsbD_ushiftRight, hlast]
  cases i with
  | zero =>
    rw [coeff_X_mul_zero]
    split_ifs <;> simp_all [coeff_X_pow]
  | succ i =>
    rw [coeff_X_mul, coeff_bitPolynomial]
    rcases Nat.lt_trichotomy i w with hi | rfl | hi
    · have hne : i ≠ w := hi.ne
      split_ifs <;> simp_all [coeff_X_pow]
    · split_ifs <;> simp_all [coeff_X_pow]
    · have hbit := BitVec.getMsbD_of_ge v i (by omega)
      have hne : i ≠ w := hi.ne'
      split_ifs <;> simp_all [coeff_X_pow]

end Bits

/-- A sum of polynomials over bits divides their difference. -/
theorem dvd_sub_of_eq_add {modulus p q : (ZMod 2)[X]} (h : modulus = p + q) : modulus ∣ p - q := by
  rw [CharTwo.sub_eq_add, h]

/-- Where the highest power is a sum of others, moving bits by one place and adding that sum for
the last bit is multiplication by the variable. -/
theorem reduce_shift {R : Type} [CommRing R] (reduce : (ZMod 2)[X] →+* R) {w : ℕ}
    {reduction : BitVec (w + 1)} (h : reduce (X ^ (w + 1)) = reduce (bitPolynomial reduction))
    (v : BitVec (w + 1)) :
    reduce (bitPolynomial (if v.getLsbD 0 then (v >>> 1) ^^^ reduction else v >>> 1)) =
      reduce X * reduce (bitPolynomial v) := by
  have hshift := congrArg reduce (bitPolynomial_shift v)
  rw [map_add, map_mul] at hshift
  cases hbit : v.getLsbD 0 with
  | false =>
    rw [hbit, if_neg Bool.false_ne_true, map_zero, add_zero] at hshift
    rw [if_neg Bool.false_ne_true, hshift]
  | true =>
    rw [hbit, if_pos rfl, h, ← map_add, ← bitPolynomial_xor] at hshift
    rw [if_pos rfl, hshift]

/-! ### Elements -/

/-- The polynomial by which products of blocks are reduced. -/
noncomputable def blockModulus : (ZMod 2)[X] := X ^ 128 + (X ^ 7 + X ^ 2 + X + 1)

theorem degree_blockModulus : blockModulus.degree = (128 : ℕ) := by
  unfold blockModulus
  compute_degree!

/-- Polynomials over bits, reduced. -/
def BlockRing : Type := AdjoinRoot blockModulus

noncomputable instance : CommRing BlockRing := inferInstanceAs (CommRing (AdjoinRoot blockModulus))

/-- What a polynomial is when it is reduced. -/
noncomputable def BlockRing.reduce : (ZMod 2)[X] →+* BlockRing := AdjoinRoot.mk blockModulus

theorem BlockRing.reduce_eq_reduce (p q : (ZMod 2)[X]) :
    reduce p = reduce q ↔ blockModulus ∣ p - q := by
  -- for any modulus, so that the powers in this one are not looked at
  have h : ∀ modulus : (ZMod 2)[X],
      AdjoinRoot.mk modulus p = AdjoinRoot.mk modulus q ↔ modulus ∣ p - q :=
    fun _ => AdjoinRoot.mk_eq_mk
  exact h blockModulus

/-- The highest power is the sum of the others in the modulus. -/
theorem BlockRing.reduce_pow : reduce (X ^ 128) = reduce (X ^ 7 + X ^ 2 + X + 1) := by
  refine (reduce_eq_reduce _ _).mpr (dvd_sub_of_eq_add ?_)
  unfold blockModulus
  rfl

namespace Block

/-- What a block stands for. -/
noncomputable def element (b : Block) : BlockRing := BlockRing.reduce (bitPolynomial b)

@[simp]
theorem element_zero : element 0#128 = 0 := by
  rw [element, bitPolynomial_zero, map_zero]

@[simp]
theorem element_xor (a b : Block) : element (a ^^^ b) = element a + element b := by
  rw [element, element, element, bitPolynomial_xor, map_add]

/-- **Different blocks stand for different elements.** -/
theorem element_injective : Function.Injective element := fun a b h =>
  eq_of_dvd_bitPolynomial a b degree_blockModulus ((BlockRing.reduce_eq_reduce _ _).mp h)

/-- The bits that are added for the highest power. -/
theorem bitPolynomial_reduction :
    bitPolynomial (0xe1#128 <<< 120) = X ^ 7 + X ^ 2 + X + 1 := by
  have hbits :
      (Finset.range 128).filter (fun i => (0xe1#128 <<< 120).getMsbD i) = {7, 2, 1, 0} := by
    decide
  rw [bitPolynomial, ← Finset.sum_filter, hbits]
  simp [add_assoc]

/-- **Moving a block by one bit is multiplication by the variable.** -/
theorem element_doubleBlock (v : Block) :
    element (doubleBlock v) = BlockRing.reduce X * element v := by
  have hpow : BlockRing.reduce (X ^ 128) =
      BlockRing.reduce (bitPolynomial (0xe1#128 <<< 120)) := by
    rw [BlockRing.reduce_pow, bitPolynomial_reduction]
  exact reduce_shift BlockRing.reduce hpow v

/-- What `count` steps add to a sum. -/
theorem element_mulBlockFrom (a : Block) : ∀ (count : ℕ) (b sum : Block),
    element (mulBlockFrom a count b sum) = element sum +
      (∑ i ∈ Finset.range count,
        if a.getLsbD (count - 1 - i) then BlockRing.reduce X ^ i else 0) * element b
  | 0, b, sum => by simp [mulBlockFrom]
  | count + 1, b, sum => by
    have hfirst : element (if a.getLsbD count then sum ^^^ b else sum) =
        element sum + (if a.getLsbD count then 1 else 0) * element b := by
      split_ifs <;> simp
    have hrest : (∑ i ∈ Finset.range count, if a.getLsbD (count + 1 - 1 - (i + 1)) then
          BlockRing.reduce X ^ (i + 1) else 0) =
        (∑ i ∈ Finset.range count,
          if a.getLsbD (count - 1 - i) then BlockRing.reduce X ^ i else 0) *
          BlockRing.reduce X := by
      rw [Finset.sum_mul]
      refine Finset.sum_congr rfl fun i _ => ?_
      rw [show count + 1 - 1 - (i + 1) = count - 1 - i by omega, ite_mul, zero_mul, pow_succ]
    rw [mulBlockFrom, element_mulBlockFrom a count, element_doubleBlock, Finset.sum_range_succ',
      hrest, hfirst]
    simp only [pow_zero, Nat.add_sub_cancel, Nat.sub_zero]
    ring

/-- **The product of blocks is the product of what they stand for.** -/
theorem element_mulBlock (a b : Block) : element (mulBlock a b) = element a * element b := by
  have hbits : BlockRing.reduce (bitPolynomial a) =
      ∑ i ∈ Finset.range 128,
        if a.getLsbD (128 - 1 - i) then BlockRing.reduce X ^ i else 0 := by
    rw [bitPolynomial, map_sum]
    refine Finset.sum_congr rfl fun i hi => ?_
    rw [BitVec.getMsbD_eq_getLsbD, decide_eq_true (Finset.mem_range.mp hi), Bool.true_and]
    split_ifs
    · rw [map_pow]
    · rw [map_zero]
  rw [mulBlock, element_mulBlockFrom, ← hbits, ← element]
  exact add_eq_right.mpr element_zero

end Block

/-! ### The hash -/

/-- **The hash is a polynomial in the key**: the last block is multiplied by the key once, and
each block before it once more. -/
theorem Envelope.element_hashBlocks (hashKey : Block) (bs : List Block) :
    Block.element (hashBlocks hashKey bs) =
      ∑ i ∈ Finset.range bs.length,
        Block.element (bs.getD i 0) * Block.element hashKey ^ (bs.length - i) := by
  induction bs using List.reverseRecOn with
  | nil =>
    rw [List.length_nil, Finset.sum_range_zero]
    exact Block.element_zero
  | append_singleton bs b ih =>
    have hstep : hashBlocks hashKey (bs ++ [b]) =
        mulBlock (hashBlocks hashKey bs ^^^ b) hashKey := by
      unfold hashBlocks
      rw [List.foldl_append, List.foldl_cons, List.foldl_nil]
    have hbefore : ∀ i ∈ Finset.range bs.length,
        Block.element ((bs ++ [b]).getD i 0) * Block.element hashKey ^ (bs.length + 1 - i) =
          Block.element (bs.getD i 0) * Block.element hashKey ^ (bs.length - i) *
            Block.element hashKey := by
      intro i hi
      rw [Finset.mem_range] at hi
      rw [List.getD_append _ _ _ _ hi, Nat.succ_sub hi.le, pow_succ, mul_assoc]
    rw [hstep, Block.element_mulBlock, Block.element_xor, ih, List.length_append,
      List.length_singleton, Finset.sum_range_succ, Finset.sum_congr rfl hbefore,
      ← Finset.sum_mul, List.getD_append_right _ _ _ _ le_rfl, Nat.sub_self, add_mul]
    simp

end TypedConfig
