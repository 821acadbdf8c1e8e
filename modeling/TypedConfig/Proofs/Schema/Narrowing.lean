/-
# Numbers that are too large for 32 bits

A float is read at 32 bits by rounding, and from half a last place above the largest of these
numbers on it is rounded to infinity (`SettingType.Overflows`). What is read at a type from a
value with finite floats is finite itself exactly if this does not happen
(`SettingType.isFinite_iff_of_read`). Nothing else that is read is ever kept from being written
again (`SettingType.checkPersistable_of_read`).

Key definitions: `SettingType.Overflows`.
Key theorems: `SettingType.isFinite_iff_of_read`, `SettingType.checkPersistable_of_read`.
-/
import Mathlib
import TypedConfig.Proofs.Binary.Overflow
import TypedConfig.Proofs.Schema.Writing

namespace TypedConfig

/-- A finite number stays finite at 32 bits exactly below half a last place above the largest of
them. -/
theorem Binary64.isFinite_narrow_iff {x : Binary64} (hx : x.isFinite = true) :
    x.narrow.isFinite = true ↔ x.absValue < 2 ^ 128 - 2 ^ 103 := by
  rw [← overflow_single]
  exact Binary.isFinite_convert_iff (by decide) hx

namespace SettingType

/-- A float in a stored value, read at 32 bits, is too large for them. -/
def Overflows : SettingType → Value → Prop
  | .float, .float x => 2 ^ 128 - 2 ^ 103 ≤ x.absValue
  | .array t, .array items => ∃ item ∈ items, t.Overflows item
  | _, _ => False

/-- **What is read from finite floats is finite, unless one is too large.** -/
theorem isFinite_iff_of_read : ∀ (t : SettingType) {value : Value} {v : t.Val},
    value.AllFinite → t.fromValue value = .ok v →
      (t.isFinite v = true ↔ ¬ t.Overflows value)
  | .boolean, _, _, _, _ => by simp [isFinite, Overflows]
  | .byte, _, _, _, _ => by simp [isFinite, Overflows]
  | .integer, _, _, _, _ => by simp [isFinite, Overflows]
  | .long, _, _, _, _ => by simp [isFinite, Overflows]
  | .string, _, _, _, _ => by simp [isFinite, Overflows]
  | .enumeration _, _, _, _, _ => by simp [isFinite, Overflows]
  | .float, .float x, v, finite, h => by
    cases h
    rw [Overflows, not_le, isFinite]
    exact Binary64.isFinite_narrow_iff finite
  | .double, .float x, v, finite, h => by
    cases h
    have hx : Binary.isFinite x = true := finite
    simp [isFinite, Overflows, hx]
  | .array t, .array items, vs, finite, h => by
    have hitems := readAll_eq_ok_iff.mp h
    have hfinite : Value.ItemsFinite items := finite
    simp only [isFinite, List.all_eq_true, Overflows, not_exists, not_and]
    clear h finite
    induction hitems with
    | nil => simp
    | cons hv hrest ih =>
      rw [List.forall_mem_cons, List.forall_mem_cons]
      exact and_congr (isFinite_iff_of_read t hfinite.1 hv) (ih hfinite.2)

/-- **What is read from a value that can be written can be written too, unless a float is too
large.** -/
theorem checkPersistable_of_read {t : SettingType} {value : Value} {v : t.Val}
    (finite : value.AllFinite) (h : t.fromValue value = .ok v) :
    (¬ t.Overflows value → (t.toValue v).checkPersistable = .ok ()) ∧
      (t.Overflows value → (t.toValue v).checkPersistable = .error .nonFiniteFloat) := by
  have hfinite := t.isFinite_iff_of_read finite h
  rw [t.checkPersistable_toValue v]
  refine ⟨fun hfits => if_pos (hfinite.mpr hfits), fun hlarge => if_neg ?_⟩
  intro hv
  exact hfinite.mp hv hlarge

end SettingType
end TypedConfig
