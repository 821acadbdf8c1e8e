/-
# The shape of a value

Two measures of a value decide whether its text can be read: how deep its arrays are
nested, and whether all its floats are numbers with a finite value. A value that can
be written is finite throughout (`Value.allFinite_of_checkPersistable`), but may be
nested to any depth.

Key definitions: `Value.depth`, `Value.AllFinite`, `Value.nested`.
Key theorems: `Value.allFinite_of_checkPersistable`, `Value.checkPersistable_nested`.
-/
import Mathlib
import TypedConfig.Proofs.Value.Persisted

namespace TypedConfig
namespace Value

mutual

/-- How many arrays are open at once in the text of a value. -/
def depth : Value → ℕ
  | .array items => itemsDepth items + 1
  | _ => 0

/-- How many arrays are open at once in the text of the items of an array. -/
def itemsDepth : List Value → ℕ
  | [] => 0
  | v :: rest => max v.depth (itemsDepth rest)

end

mutual

/-- All floats in a value are finite. -/
def AllFinite : Value → Prop
  | .float x => x.isFinite = true
  | .array items => ItemsFinite items
  | _ => True

/-- All floats in a list of values are finite. -/
def ItemsFinite : List Value → Prop
  | [] => True
  | v :: rest => v.AllFinite ∧ ItemsFinite rest

end

mutual

@[simp] theorem depth_persisted : ∀ v : Value, v.persisted.depth = v.depth
  | .bool _ => rfl
  | .int _ => rfl
  | .float _ => rfl
  | .string _ => rfl
  | .constant _ => rfl
  | .array items => by simp only [persisted, depth, itemsDepth_allPersisted items]

theorem itemsDepth_allPersisted : ∀ vs : List Value, itemsDepth (allPersisted vs) = itemsDepth vs
  | [] => rfl
  | v :: rest => by
    simp only [allPersisted, itemsDepth, depth_persisted v, itemsDepth_allPersisted rest]

end

mutual

/-- **A value that can be written is finite throughout.** -/
theorem allFinite_of_checkPersistable : ∀ v : Value, v.checkPersistable = .ok () → v.AllFinite
  | .bool _, _ => trivial
  | .int _, _ => trivial
  | .float x, h => by
    unfold checkPersistable at h
    split at h
    · assumption
    · cases h
  | .string _, _ => trivial
  | .constant _, _ => trivial
  | .array items, h => itemsFinite_of_checkElements none 0 items h

theorem itemsFinite_of_checkElements (expected : Option Kind) (index : ℕ) :
    ∀ vs : List Value, checkElements expected index vs = .ok () → ItemsFinite vs
  | [], _ => trivial
  | v :: rest, h => by
    unfold checkElements at h
    split at h
    · cases h
    · rename_i hv
      refine ⟨allFinite_of_checkPersistable v hv, ?_⟩
      split at h
      · exact itemsFinite_of_checkElements _ _ rest h
      · split at h
        · exact itemsFinite_of_checkElements _ _ rest h
        · cases h

end

mutual

theorem allFinite_persisted : ∀ v : Value, v.persisted.AllFinite ↔ v.AllFinite
  | .bool _ => .rfl
  | .int _ => .rfl
  | .float _ => .rfl
  | .string _ => .rfl
  | .constant _ => .rfl
  | .array items => by simp only [persisted, AllFinite, itemsFinite_allPersisted items]

theorem itemsFinite_allPersisted : ∀ vs : List Value,
    ItemsFinite (allPersisted vs) ↔ ItemsFinite vs
  | [] => .rfl
  | v :: rest => by
    simp only [allPersisted, ItemsFinite, allFinite_persisted v, itemsFinite_allPersisted rest]

end

theorem isPersistable_iff {v : Value} : v.isPersistable = true ↔ v.checkPersistable = .ok () := by
  unfold isPersistable
  split <;> simp [*]

theorem allFinite_of_isPersistable {v : Value} (h : v.isPersistable = true) : v.AllFinite :=
  allFinite_of_checkPersistable v (isPersistable_iff.mp h)

/-! ### Any depth -/

/-- An integer inside `n` arrays. -/
def nested : ℕ → Value
  | 0 => .int 1
  | n + 1 => .array [nested n]

theorem depth_nested : ∀ n : ℕ, (nested n).depth = n
  | 0 => rfl
  | n + 1 => by simp only [nested, depth, itemsDepth, depth_nested n, Nat.max_zero]

/-- A value can be written however deep it is nested. -/
theorem checkPersistable_nested : ∀ n : ℕ, (nested n).checkPersistable = .ok ()
  | 0 => rfl
  | n + 1 => by simp only [nested, checkPersistable, checkElements, checkPersistable_nested n]

/-! ### Items -/

theorem itemsDepth_le_iff {n : ℕ} : ∀ vs : List Value,
    itemsDepth vs ≤ n ↔ ∀ v ∈ vs, v.depth ≤ n
  | [] => by simp [itemsDepth]
  | v :: rest => by simp [itemsDepth, itemsDepth_le_iff rest]

theorem itemsFinite_iff : ∀ vs : List Value, ItemsFinite vs ↔ ∀ v ∈ vs, v.AllFinite
  | [] => by simp [ItemsFinite]
  | v :: rest => by simp [ItemsFinite, itemsFinite_iff rest]

end Value
end TypedConfig
