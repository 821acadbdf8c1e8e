/-
# Writing the values of a type

The values of a type are stored in arrays of one shape, so nothing but a float that is
infinite or no number keeps a value from being written (`checkPersistable_toValue`). At
32 bits a number is finite exactly if it is at 64.

Key definitions: `SettingType.isFinite`.
Key theorems: `SettingType.isFinite_iff`, `SettingType.checkPersistable_toValue`.
-/
import Mathlib
import TypedConfig.Proofs.Schema.Reading

namespace TypedConfig

theorem Binary32.isFinite_widen (x : Binary32) : x.widen.isFinite = x.isFinite := by
  rw [Bool.eq_iff_iff]
  constructor
  · exact Binary.isFinite_of_convert BinaryFormat.single_embeds_double
  · intro hx
    exact (Binary.convert_exact BinaryFormat.single_embeds_double hx).1

namespace SettingType

/-- Whether all floats in a value of a type are finite. -/
def isFinite : (t : SettingType) → t.Val → Bool
  | .float, x => Binary.isFinite x
  | .double, x => Binary.isFinite x
  | .array t, items => List.all items t.isFinite
  | _, _ => true

/-- The floats of a value are finite as those of its stored form are. -/
theorem isFinite_iff : ∀ (t : SettingType) (v : t.Val),
    t.isFinite v = true ↔ (t.toValue v).AllFinite
  | .boolean, _ => by simp [isFinite, toValue, Value.AllFinite]
  | .byte, _ => by simp [isFinite, toValue, Value.AllFinite]
  | .integer, _ => by simp [isFinite, toValue, Value.AllFinite]
  | .long, _ => by simp [isFinite, toValue, Value.AllFinite]
  | .float, x => by simp [isFinite, toValue, Value.AllFinite, Binary32.isFinite_widen]
  | .double, _ => by simp [isFinite, toValue, Value.AllFinite]
  | .string, _ => by simp [isFinite, toValue, Value.AllFinite]
  | .enumeration _, _ => by simp [isFinite, toValue, Value.AllFinite]
  | .array t, items => by
    simp only [isFinite, toValue, Value.AllFinite, Value.itemsFinite_iff, List.all_eq_true,
      List.forall_mem_map]
    exact forall₂_congr fun v _ => isFinite_iff t v

/-- All values of a type are stored in one shape. -/
theorem persistedKind_toValue (t : SettingType) (v w : t.Val) :
    (t.toValue v).persistedKind = (t.toValue w).persistedKind := by
  cases t <;> simp only [toValue, Value.persistedKind, Value.kind]

/-- The elements of a list are checked one by one, and their shapes agree. -/
theorem checkElements_toValue {t : SettingType}
    (check : ∀ v : t.Val, (t.toValue v).checkPersistable =
      if t.isFinite v then .ok () else .error .nonFiniteFloat)
    (vs : List t.Val) {expected : Option Kind} (index : ℕ)
    (shape : ∀ kind ∈ expected, ∀ v : t.Val, kind = (t.toValue v).persistedKind) :
    Value.checkElements expected index (vs.map t.toValue) =
      if vs.all t.isFinite then .ok () else .error .nonFiniteFloat := by
  induction vs generalizing expected index with
  | nil => rfl
  | cons v vs ih =>
    simp only [List.map_cons, Value.checkElements, check v, List.all_cons, Bool.and_eq_true]
    by_cases hv : t.isFinite v = true
    · have hrest : ∀ kind ∈ some (t.toValue v).persistedKind, ∀ u : t.Val,
          kind = (t.toValue u).persistedKind := by
        intro kind hkind u
        rw [← Option.some.inj hkind]
        exact t.persistedKind_toValue v u
      cases expected with
      | none => simp only [hv, if_true, true_and, ih (index + 1) hrest]
      | some kind =>
        have hkind : kind = (t.toValue v).persistedKind := shape kind rfl v
        simp only [hv, if_true, true_and, if_pos hkind, ih (index + 1) shape]
    · simp only [hv, false_and, if_false, Bool.false_eq_true]

/-- **Only a float that is not finite keeps a typed value from being written.** -/
theorem checkPersistable_toValue : ∀ (t : SettingType) (v : t.Val),
    (t.toValue v).checkPersistable = if t.isFinite v then .ok () else .error .nonFiniteFloat
  | .boolean, _ => rfl
  | .byte, _ => rfl
  | .integer, _ => rfl
  | .long, _ => rfl
  | .float, x => by
    show (if (Binary32.widen x).isFinite then _ else _) = if Binary.isFinite x then _ else _
    rw [Binary32.isFinite_widen]
  | .double, _ => rfl
  | .string, _ => rfl
  | .enumeration _, _ => rfl
  | .array t, items =>
    checkElements_toValue (fun v => checkPersistable_toValue t v) items 0 fun kind h => nomatch h

end SettingType
end TypedConfig
