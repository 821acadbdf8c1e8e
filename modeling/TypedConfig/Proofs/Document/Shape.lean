/-
# The shape of a document

How deep a document is nested and whether its floats are finite, as of its values. Both
are seen in the persisted form, and the operations on documents keep finite ones
finite.

Key definitions: `Document.depth`, `Document.AllFinite`.
Key theorems: `Document.depth_le_iff`, `Document.allFinite_iff`, `Document.AllFinite.insert`,
`Document.WrittenAlike.allFinite`.
-/
import Mathlib
import TypedConfig.Proofs.Document.Persisted
import TypedConfig.Proofs.Value.Shape

namespace TypedConfig
namespace Document

/-- How deep the values of a document are nested. -/
def depth (d : Document) : ℕ := Value.itemsDepth (d.toList.map (·.2))

/-- All floats in a document are finite. -/
def AllFinite (d : Document) : Prop := Value.ItemsFinite (d.toList.map (·.2))

theorem depth_le_iff {d : Document} {n : ℕ} :
    depth d ≤ n ↔ ∀ key v, d.get? key = some v → v.depth ≤ n := by
  rw [depth, Value.itemsDepth_le_iff]
  simp [SortedMap.get?_eq_some_iff, forall_comm (α := Value)]

theorem allFinite_iff {d : Document} :
    AllFinite d ↔ ∀ key v, d.get? key = some v → v.AllFinite := by
  rw [AllFinite, Value.itemsFinite_iff]
  simp [SortedMap.get?_eq_some_iff, forall_comm (α := Value)]

theorem allFinite_empty : AllFinite SortedMap.empty := trivial

theorem AllFinite.insert {d : Document} (h : AllFinite d) (key : String) {v : Value}
    (hv : v.AllFinite) : AllFinite (d.insert key v) := by
  rw [allFinite_iff] at h ⊢
  intro other u hu
  rw [SortedMap.get?_insert] at hu
  split at hu
  · cases hu
    exact hv
  · exact h other u hu

theorem AllFinite.erase {d : Document} (h : AllFinite d) (key : String) :
    AllFinite (d.erase key) := by
  rw [allFinite_iff] at h ⊢
  intro other u hu
  rw [SortedMap.get?_erase] at hu
  split at hu
  · cases hu
  · exact h other u hu

theorem allFinite_persisted (d : Document) : AllFinite (persisted d) ↔ AllFinite d := by
  simp only [allFinite_iff, get?_persisted, Option.map_eq_some_iff]
  constructor
  · intro h key v hv
    exact (Value.allFinite_persisted v).mp (h key v.persisted ⟨v, hv, rfl⟩)
  · rintro h key v ⟨u, hu, rfl⟩
    exact (Value.allFinite_persisted u).mpr (h key u hu)

@[simp] theorem depth_persisted (d : Document) : depth (persisted d) = depth d := by
  have hvalues : (persisted d).toList.map (·.2) = Value.allPersisted (d.toList.map (·.2)) := by
    rw [Value.allPersisted_eq_map]
    simp [persisted, SortedMap.mapValues]
  rw [depth, hvalues, Value.itemsDepth_allPersisted, depth]

theorem WrittenAlike.allFinite {d e : Document} (h : WrittenAlike d e) (hd : AllFinite d) :
    AllFinite e := by
  rw [← allFinite_persisted, ← (writtenAlike_iff d e).mp h, allFinite_persisted]
  exact hd

theorem WrittenAlike.depth_eq {d e : Document} (h : WrittenAlike d e) : depth d = depth e := by
  rw [← depth_persisted d, (writtenAlike_iff d e).mp h, depth_persisted e]

end Document
end TypedConfig
