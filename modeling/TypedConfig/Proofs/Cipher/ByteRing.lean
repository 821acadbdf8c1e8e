/-
# Bytes of the cipher are polynomials

A byte stands for a polynomial over bits, its lowest bit for the lowest power, and two polynomials
count as the same if they differ by a multiple of the modulus of the cipher. The exclusive or is
then the sum, and the product that is computed bit by bit is the product
(`Byte.element_mulByte`). Different bytes stand for different elements, and every byte but zero is
a power of three, so the byte that is computed as an inverse is one
(`Byte.element_mul_invertByte`). The substitution of a byte is thereby known by what it is, an
inverse and a sum of bits (`Byte.isSubstitution_iff`).

Key definitions: `ByteRing`, `Byte.element`, `Byte.IsSubstitution`.
Key theorems: `Byte.element_injective`, `Byte.element_mulByte`, `Byte.element_mul_invertByte`,
`Byte.isSubstitution_iff`.
-/
import Mathlib
import TypedConfig.Proofs.Cipher.BlockRing

namespace TypedConfig

open Polynomial

/-! ### Elements -/

/-- The polynomial by which products of bytes are reduced. -/
noncomputable def byteModulus : (ZMod 2)[X] := X ^ 8 + (X ^ 4 + X ^ 3 + X + 1)

theorem degree_byteModulus : byteModulus.degree = (8 : ℕ) := by
  unfold byteModulus
  compute_degree!

/-- Polynomials over bits, reduced. -/
def ByteRing : Type := AdjoinRoot byteModulus

noncomputable instance : CommRing ByteRing := inferInstanceAs (CommRing (AdjoinRoot byteModulus))

/-- What a polynomial is when it is reduced. -/
noncomputable def ByteRing.reduce : (ZMod 2)[X] →+* ByteRing := AdjoinRoot.mk byteModulus

theorem ByteRing.reduce_eq_reduce (p q : (ZMod 2)[X]) :
    reduce p = reduce q ↔ byteModulus ∣ p - q :=
  AdjoinRoot.mk_eq_mk

/-- The highest power is the sum of the others in the modulus. -/
theorem ByteRing.reduce_pow : reduce (X ^ 8) = reduce (X ^ 4 + X ^ 3 + X + 1) :=
  (reduce_eq_reduce _ _).mpr (dvd_sub_of_eq_add rfl)

namespace Byte

/-- What a byte stands for. -/
noncomputable def element (a : UInt8) : ByteRing :=
  ByteRing.reduce (bitPolynomial a.toBitVec.reverse)

theorem element_eq_sum (a : UInt8) :
    element a =
      ∑ i ∈ Finset.range 8, if a.toBitVec.getLsbD i then ByteRing.reduce X ^ i else 0 := by
  rw [element, bitPolynomial, map_sum]
  refine Finset.sum_congr rfl fun i _ => ?_
  rw [BitVec.getMsbD_reverse]
  split_ifs
  · rw [map_pow]
  · rw [map_zero]

@[simp]
theorem element_zero : element 0 = 0 := by
  rw [element_eq_sum]
  exact Finset.sum_eq_zero fun i _ => if_neg (by simp)

@[simp]
theorem element_one : element 1 = 1 := by
  rw [element_eq_sum, Finset.sum_eq_single_of_mem 0 (by simp)]
  · exact pow_zero _
  · intro i hi hne
    exact if_neg (by simpa [BitVec.getLsbD_one] using hne)

@[simp]
theorem element_xor (a b : UInt8) : element (a ^^^ b) = element a + element b := by
  have hreverse : (a ^^^ b).toBitVec.reverse = a.toBitVec.reverse ^^^ b.toBitVec.reverse := by
    refine BitVec.eq_of_getMsbD_eq fun i _ => ?_
    simp [BitVec.getMsbD_xor, BitVec.getMsbD_reverse]
  rw [element, element, element, hreverse, bitPolynomial_xor, map_add]

/-- **Different bytes stand for different elements.** -/
theorem element_injective : Function.Injective element := by
  intro a b h
  have hreverse := eq_of_dvd_bitPolynomial _ _ degree_byteModulus
    ((ByteRing.reduce_eq_reduce _ _).mp h)
  refine UInt8.toBitVec_inj.mp (BitVec.eq_of_getLsbD_eq fun i _ => ?_)
  rw [← BitVec.getMsbD_reverse, ← BitVec.getMsbD_reverse, hreverse]

/-! ### Products -/

/-- The bits that are added for the highest power. -/
theorem bitPolynomial_reduction : bitPolynomial 0xd8#8 = X ^ 4 + X ^ 3 + X + 1 := by
  have hbits : (Finset.range 8).filter (fun i => (0xd8#8).getMsbD i) = {4, 3, 1, 0} := by
    decide
  rw [bitPolynomial, ← Finset.sum_filter, hbits]
  simp [add_assoc]

theorem element_doubleByte (a : UInt8) :
    element (doubleByte a) = ByteRing.reduce X * element a := by
  have hreverse : ∀ a : UInt8, (doubleByte a).toBitVec.reverse =
      if a.toBitVec.reverse.getLsbD 0 then (a.toBitVec.reverse >>> 1) ^^^ 0xd8#8
      else a.toBitVec.reverse >>> 1 := by
    decide +kernel
  have hpow : ByteRing.reduce (X ^ 8) = ByteRing.reduce (bitPolynomial 0xd8#8) := by
    rw [ByteRing.reduce_pow, bitPolynomial_reduction]
  rw [element, hreverse]
  exact reduce_shift ByteRing.reduce hpow _

/-- The bits of the second byte that are taken are the powers that the first one is multiplied
by. -/
theorem element_mulByteFrom : ∀ (fuel : ℕ) (a b : UInt8),
    element (mulByteFrom fuel a b) = element a *
      ∑ i ∈ Finset.range fuel, if b.toBitVec.getLsbD i then ByteRing.reduce X ^ i else 0
  | 0, a, b => by simp [mulByteFrom]
  | fuel + 1, a, b => by
    have hlow : ∀ b : UInt8, b.toNat % 2 = 0 ↔ ¬ b.toBitVec.getLsbD 0 := by decide +kernel
    have hfirst : element (if b.toNat % 2 = 0 then 0 else a) =
        element a * if b.toBitVec.getLsbD 0 then 1 else 0 := by
      rw [if_congr (hlow b) rfl rfl, ite_not]
      split_ifs <;> simp
    have hrest : ∀ i, (b >>> 1).toBitVec.getLsbD i = b.toBitVec.getLsbD (i + 1) := by
      intro i
      simp [Nat.add_comm]
    have hsum : (∑ i ∈ Finset.range fuel,
          if b.toBitVec.getLsbD (i + 1) then ByteRing.reduce X ^ (i + 1) else 0) =
        ByteRing.reduce X * ∑ i ∈ Finset.range fuel,
          if b.toBitVec.getLsbD (i + 1) then ByteRing.reduce X ^ i else 0 := by
      rw [Finset.mul_sum]
      refine Finset.sum_congr rfl fun i _ => ?_
      split_ifs
      · rw [pow_succ']
      · rw [mul_zero]
    rw [mulByteFrom, element_xor, hfirst, element_mulByteFrom fuel, element_doubleByte,
      Finset.sum_range_succ', hsum]
    simp only [hrest, pow_zero]
    ring

/-- **The product of bytes is the product of what they stand for.** -/
theorem element_mulByte (a b : UInt8) : element (mulByte a b) = element a * element b := by
  rw [mulByte, element_mulByteFrom, element_eq_sum b]

theorem element_mulSquares : ∀ (count : ℕ) (a : UInt8),
    element (mulSquares count a) = element a ^ (2 ^ (count + 1) - 2)
  | 0, a => by simp [mulSquares]
  | count + 1, a => by
    have hexponent : 2 + 2 * (2 ^ (count + 1) - 2) = 2 ^ (count + 1 + 1) - 2 := by
      have hle : 2 ≤ 2 ^ (count + 1) := Nat.le_self_pow count.succ_ne_zero 2
      rw [pow_succ 2 (count + 1)]
      omega
    rw [mulSquares, element_mulByte, element_mulSquares count, element_mulByte, ← sq, ← pow_mul,
      ← pow_add, hexponent]

/-! ### Inverses -/

/-- The powers of three, which stands for the variable and one. -/
def powThree : ℕ → UInt8
  | 0 => 1
  | n + 1 => doubleByte (powThree n) ^^^ powThree n

theorem element_powThree (n : ℕ) : element (powThree n) = (ByteRing.reduce X + 1) ^ n := by
  induction n with
  | zero => rw [powThree, element_one, pow_zero]
  | succ n ih => rw [powThree, element_xor, element_doubleByte, ih, pow_succ', add_mul, one_mul]

theorem pow_three_eq_one {n : ℕ} : (ByteRing.reduce X + 1) ^ n = 1 ↔ powThree n = 1 := by
  rw [← element_powThree, ← element_one, element_injective.eq_iff]

theorem orderOf_three : orderOf (ByteRing.reduce X + 1) = 255 := by
  refine orderOf_eq_of_pow_and_pow_div_prime (by norm_num) ?_ fun p hprime hdvd => ?_
  · exact pow_three_eq_one.mpr (by decide +kernel)
  · have hfactor : p = 3 ∨ p = 5 ∨ p = 17 := by
      have hfactors : (255 : ℕ).primeFactors = {3, 5, 17} := by decide +kernel
      have hmem := Nat.mem_primeFactors.mpr ⟨hprime, hdvd, by norm_num⟩
      simpa [hfactors] using hmem
    rw [ne_eq, pow_three_eq_one]
    rcases hfactor with rfl | rfl | rfl <;> decide +kernel

theorem powThree_ne_zero (n : ℕ) : powThree n ≠ 0 := by
  intro hzero
  have hpow : (ByteRing.reduce X + 1) ^ n = 0 := by
    rw [← element_powThree, hzero, element_zero]
  have hone : element 1 = element 0 := by
    rw [element_one, element_zero, ← one_pow n, ← pow_orderOf_eq_one (ByteRing.reduce X + 1),
      orderOf_three, ← pow_mul, mul_comm, pow_mul, hpow, zero_pow (by norm_num)]
  exact absurd (element_injective hone) (by decide)

/-- Every byte but zero is a power of three: they are as many. -/
theorem exists_powThree {a : UInt8} (h : a ≠ 0) : ∃ n, powThree n = a := by
  have hinjective : Set.InjOn powThree (Finset.range 255) := by
    intro n hn m hm heq
    have hpow := congrArg element heq
    rw [element_powThree, element_powThree] at hpow
    refine pow_injOn_Iio_orderOf ?_ ?_ hpow
    · rwa [orderOf_three, Set.mem_Iio, ← Finset.mem_range]
    · rwa [orderOf_three, Set.mem_Iio, ← Finset.mem_range]
  have hall : (Finset.range 255).image powThree = Finset.univ.erase 0 := by
    refine Finset.eq_of_subset_of_card_le (fun b hb => ?_) ?_
    · obtain ⟨n, -, rfl⟩ := Finset.mem_image.mp hb
      exact Finset.mem_erase.mpr ⟨powThree_ne_zero n, Finset.mem_univ _⟩
    · rw [Finset.card_image_of_injOn hinjective, Finset.card_erase_of_mem (Finset.mem_univ _),
        Finset.card_range]
      decide +kernel
  have hmem : a ∈ (Finset.range 255).image powThree := by
    rw [hall]
    exact Finset.mem_erase.mpr ⟨h, Finset.mem_univ _⟩
  obtain ⟨n, -, hn⟩ := Finset.mem_image.mp hmem
  exact ⟨n, hn⟩

/-- **The inverse that is computed is one.** -/
theorem element_mul_invertByte {a : UInt8} (h : a ≠ 0) :
    element a * element (invertByte a) = 1 := by
  obtain ⟨n, rfl⟩ := exists_powThree h
  rw [invertByte, element_mulSquares, ← pow_succ', element_powThree, ← pow_mul, mul_comm, pow_mul,
    show 2 ^ (7 + 1) - 2 + 1 = 255 by norm_num, ← orderOf_three, pow_orderOf_eq_one, one_pow]

/-- What the inverse of a byte is, that of zero being zero. -/
def IsInverse (a b : UInt8) : Prop := if a = 0 then b = 0 else element a * element b = 1

theorem isInverse_iff {a b : UInt8} : IsInverse a b ↔ b = invertByte a := by
  unfold IsInverse
  split_ifs with h
  · rw [h, show invertByte 0 = 0 by decide +kernel]
  · have hcomputed := element_mul_invertByte h
    constructor
    · intro hinverse
      refine element_injective ?_
      calc element b = element b * (element a * element (invertByte a)) := by
            rw [hcomputed, mul_one]
        _ = element a * element b * element (invertByte a) := by ring
        _ = element (invertByte a) := by rw [hinverse, one_mul]
    · rintro rfl
      exact hcomputed

/-! ### Substitution -/

/-- A bit of a byte, the lowest first, and from the first one on again behind the last. -/
def bit (a : UInt8) (i : ℕ) : Bool := a.toBitVec.getLsbD (i % 8)

/-- What takes the place of a byte: each bit is the sum of five bits of the inverse and one of a
constant. -/
def IsSubstitution (a s : UInt8) : Prop :=
  ∃ b, IsInverse a b ∧ ∀ i < 8,
    bit s i = (bit b i ^^ bit b (i + 4) ^^ bit b (i + 5) ^^ bit b (i + 6) ^^ bit b (i + 7) ^^
      bit 0x63 i)

theorem bit_injective {a b : UInt8} (h : ∀ i < 8, bit a i = bit b i) : a = b := by
  refine UInt8.toBitVec_inj.mp (BitVec.eq_of_getLsbD_eq fun i hi => ?_)
  have hbit := h i hi
  rwa [bit, bit, Nat.mod_eq_of_lt hi] at hbit

theorem bit_substituteByte (a : UInt8) : ∀ i < 8, bit (substituteByte a) i =
    (bit (invertByte a) i ^^ bit (invertByte a) (i + 4) ^^ bit (invertByte a) (i + 5) ^^
      bit (invertByte a) (i + 6) ^^ bit (invertByte a) (i + 7) ^^ bit 0x63 i) := by
  have hall : ∀ b : UInt8, ∀ i < 8, bit (b ^^^ rotateByte b 1 ^^^ rotateByte b 2 ^^^
      rotateByte b 3 ^^^ rotateByte b 4 ^^^ 0x63) i =
      (bit b i ^^ bit b (i + 4) ^^ bit b (i + 5) ^^ bit b (i + 6) ^^ bit b (i + 7) ^^
        bit 0x63 i) := by
    decide +kernel
  exact hall (invertByte a)

theorem substitute_eq (a : UInt8) : substitute a = substituteByte a := by
  have hlt : a.toNat < substitutions.size := by
    rw [substitutions, Array.size_ofFn]
    exact a.toNat_lt
  rw [substitute, Array.getD_eq_getD_getElem?, Array.getElem?_eq_getElem hlt, Option.getD_some]
  simp [substitutions]

/-- **The substitution that is computed is the only one.** -/
theorem isSubstitution_iff {a s : UInt8} : IsSubstitution a s ↔ s = substitute a := by
  rw [substitute_eq]
  constructor
  · rintro ⟨b, hinverse, hbits⟩
    rw [isInverse_iff.mp hinverse] at hbits
    exact bit_injective fun i hi => by rw [hbits i hi, bit_substituteByte a i hi]
  · rintro rfl
    exact ⟨invertByte a, isInverse_iff.mpr rfl, bit_substituteByte a⟩

theorem IsSubstitution.unique {a s s' : UInt8} (h : IsSubstitution a s)
    (h' : IsSubstitution a s') : s = s' :=
  (isSubstitution_iff.mp h).trans (isSubstitution_iff.mp h').symm

end Byte
end TypedConfig
