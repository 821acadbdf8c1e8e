/-
# Equality in memory

Two numbers are equal exactly if they are one word up to the sign of a zero
(`Binary.isEqual_iff`). So two values are equal in memory exactly if they hold
numbers only and are one value once every zero has lost its sign
(`Value.isEqual_iff`). Both ways this is not the same as being written alike: a
value with a word that is no number does not equal itself, and the two zeros are
equal but written differently.

Key definitions: `Binary.unsigned`, `Value.unsigned`, `Value.AllNumbers`.
Key theorems: `Binary.isEqual_iff`, `Value.isEqual_iff`, `Value.isEqual_self`.
-/
import Mathlib
import TypedConfig.Proofs.Binary.Widening
import TypedConfig.Proofs.Value.Shape

namespace TypedConfig

/-! ### Numbers -/

namespace Binary

variable {f : BinaryFormat}

/-- The word, without the sign if it is a zero. -/
def unsigned (x : Binary f) : Binary f := if x.isZero then zero false else x

theorem unsigned_of_isZero {x : Binary f} (h : x.isZero = true) : x.unsigned = zero false :=
  if_pos h

theorem unsigned_of_not_isZero {x : Binary f} (h : x.isZero ≠ true) : x.unsigned = x :=
  if_neg h

theorem isZero_iff_rank {x : Binary f} : x.isZero = true ↔ x.rank = 0 := by
  unfold isZero rank
  split <;> simp

/-- A number is told by its place in the order of values, unless it is a zero. -/
theorem eq_of_rank_eq {x y : Binary f} (hx : x.isZero ≠ true) (h : x.rank = y.rank) : x = y := by
  have hmag : x.magnitude ≠ 0 := by
    intro h0
    exact hx (decide_eq_true h0)
  unfold rank at h
  have hfields : x.isNegative = y.isNegative ∧ x.magnitude = y.magnitude := by
    cases hsx : x.isNegative <;> cases hsy : y.isNegative <;> simp [hsx, hsy] at h ⊢ <;> omega
  rw [← x.ofParts_magnitude, hfields.1, hfields.2, y.ofParts_magnitude]

/-- **Two words stand for the same number if they are one word up to the sign of a zero.** -/
theorem isEqual_iff {x y : Binary f} :
    x.isEqual y = true ↔ x.isNaN = false ∧ y.isNaN = false ∧ x.unsigned = y.unsigned := by
  have hrank : x.rank = y.rank ↔ x.unsigned = y.unsigned := by
    by_cases hx : x.isZero = true
    · rw [isZero_iff_rank.mp hx, unsigned_of_isZero hx, eq_comm, ← isZero_iff_rank]
      constructor
      · intro hy
        exact (unsigned_of_isZero hy).symm
      · intro hy
        by_contra hne
        rw [unsigned_of_not_isZero hne] at hy
        exact hne (hy ▸ isZero_zero false)
    · rw [unsigned_of_not_isZero hx]
      constructor
      · intro h
        have hxy := eq_of_rank_eq hx h
        rw [← hxy, unsigned_of_not_isZero hx]
      · intro h
        by_cases hy : y.isZero = true
        · rw [unsigned_of_isZero hy] at h
          exact absurd (h ▸ isZero_zero false) hx
        · rw [h, unsigned_of_not_isZero hy]
  simp only [isEqual, Bool.and_eq_true, Bool.not_eq_true', decide_eq_true_eq, hrank, and_assoc]

end Binary

/-! ### Values -/

namespace Value

mutual

/-- The value with every zero without its sign. -/
def unsigned : Value → Value
  | .float x => .float x.unsigned
  | .array items => .array (allUnsigned items)
  | v => v

/-- The values of a list with every zero without its sign. -/
def allUnsigned : List Value → List Value
  | [] => []
  | v :: rest => v.unsigned :: allUnsigned rest

end

mutual

/-- All floats in a value are numbers, the infinities included. -/
def AllNumbers : Value → Prop
  | .float x => x.isNaN = false
  | .array items => ItemsNumbers items
  | _ => True

/-- All floats in a list of values are numbers. -/
def ItemsNumbers : List Value → Prop
  | [] => True
  | v :: rest => v.AllNumbers ∧ ItemsNumbers rest

end

mutual

/-- **Two values are equal in memory if they hold numbers only and differ in nothing but the signs
of zeros.** -/
theorem isEqual_iff : ∀ a b : Value,
    a.isEqual b = true ↔ a.AllNumbers ∧ b.AllNumbers ∧ a.unsigned = b.unsigned
  | .bool _, b => by cases b <;> simp [isEqual, AllNumbers, unsigned]
  | .int _, b => by cases b <;> simp [isEqual, AllNumbers, unsigned]
  | .float _, b => by cases b <;> simp [isEqual, AllNumbers, unsigned, Binary.isEqual_iff]
  | .string _, b => by cases b <;> simp [isEqual, AllNumbers, unsigned]
  | .constant _, b => by cases b <;> simp [isEqual, AllNumbers, unsigned]
  | .array as, .array bs => by simp [isEqual, AllNumbers, unsigned, allEqual_iff as bs]
  | .array _, .bool _ => by simp [isEqual, unsigned]
  | .array _, .int _ => by simp [isEqual, unsigned]
  | .array _, .float _ => by simp [isEqual, unsigned]
  | .array _, .string _ => by simp [isEqual, unsigned]
  | .array _, .constant _ => by simp [isEqual, unsigned]

theorem allEqual_iff : ∀ as bs : List Value, allEqual as bs = true ↔
    ItemsNumbers as ∧ ItemsNumbers bs ∧ allUnsigned as = allUnsigned bs
  | [], [] => by simp [allEqual, ItemsNumbers, allUnsigned]
  | [], _ :: _ => by simp [allEqual, allUnsigned]
  | _ :: _, [] => by simp [allEqual, allUnsigned]
  | a :: as, b :: bs => by
    simp only [allEqual, Bool.and_eq_true, isEqual_iff a b, allEqual_iff as bs, ItemsNumbers,
      allUnsigned, List.cons.injEq]
    tauto

end

mutual

theorem AllFinite.allNumbers : ∀ {v : Value}, v.AllFinite → v.AllNumbers
  | .bool _, _ => trivial
  | .int _, _ => trivial
  | .float _, h => Binary.isNaN_of_isFinite h
  | .string _, _ => trivial
  | .constant _, _ => trivial
  | .array _, h => itemsNumbers_of_itemsFinite h

theorem itemsNumbers_of_itemsFinite : ∀ {vs : List Value}, ItemsFinite vs → ItemsNumbers vs
  | [], _ => trivial
  | _ :: _, h => ⟨AllFinite.allNumbers h.1, itemsNumbers_of_itemsFinite h.2⟩

end

/-- What holds no word that is no number equals itself. -/
theorem isEqual_self {v : Value} (h : v.AllNumbers) : v.isEqual v = true :=
  (isEqual_iff v v).mpr ⟨h, h, rfl⟩

end Value
end TypedConfig
