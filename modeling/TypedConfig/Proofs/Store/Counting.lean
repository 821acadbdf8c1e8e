/-
# What the operations count

Every operation on the entries either counts one change or leaves the document
written as it was (`Store.Counts`). Putting a value is counted if it is written
differently; keeping the resolved form of a constant never is. Clearing apart, what is
counted also is a change (`Store.CountsExactly`).

Key definitions: `Store.Counts`, `Store.CountsExactly`.
Key theorems: `Store.setEntry_countsExactly`, `Store.cacheResolved_counts`,
`Store.get_countsExactly`.
-/
import Mathlib
import TypedConfig.Proofs.Document.Persisted
import TypedConfig.Proofs.Schema.Reading
import TypedConfig.Proofs.Store.Frame

namespace TypedConfig
namespace Store

theorem memoryForm_persisted (s : Store) (t : SettingType) (v : t.Val) :
    (s.memoryForm t v).persisted = t.toValue v := by
  unfold memoryForm
  split
  · exact t.toCachedValue_persisted v
  · exact t.toValue_persisted v

/-- A section counts a change, or leaves the entries written as they were. -/
structure Counts (before : Store) (counted : Bool) (after : Store) : Prop where
  encoding : after.encoding = before.encoding
  marks : after.marks = if counted then before.marks.markDirty else before.marks
  alike : counted = false → before.entries.WrittenAlike after.entries

/-- A section counts a change exactly if the entries are then written differently. -/
structure CountsExactly (before : Store) (counted : Bool) (after : Store) : Prop
    extends before.Counts counted after where
  differ : counted = true → ¬ before.entries.WrittenAlike after.entries

theorem CountsExactly.of_same {before after : Store} (encoding : after.encoding = before.encoding)
    (marks : after.marks = before.marks) (entries : after.entries = before.entries) :
    before.CountsExactly false after :=
  ⟨⟨encoding, marks, fun _ => entries ▸ .refl _⟩, fun h => absurd h Bool.false_ne_true⟩

theorem CountsExactly.refl (s : Store) : s.CountsExactly false s := .of_same rfl rfl rfl

theorem setEntry_countsExactly (s : Store) (key : String) (value : Value) :
    s.CountsExactly (s.setEntry key value).1 (s.setEntry key value).2 := by
  have hcounted : (s.setEntry key value).1 = isChange (s.get? key) value := rfl
  refine ⟨⟨rfl, rfl, fun h => ?_⟩, fun h halike => ?_⟩
  · rw [hcounted] at h
    cases hold : s.get? key with
    | none => simp [isChange, hold] at h
    | some old =>
      simp only [isChange, hold, Bool.not_eq_false'] at h
      exact Document.writtenAlike_insert_self hold ((Value.samePersisted_iff _ _).mp h).symm
  · rw [hcounted] at h
    -- the entries differ at the key itself
    have hentry := halike key
    have hnew : (s.setEntry key value).2.entries.get? key = some value :=
      s.entries.get?_insert_self key value
    rw [hnew] at hentry
    cases hold : s.entries.get? key with
    | none =>
      rw [hold] at hentry
      cases hentry
    | some old =>
      rw [hold, Option.rel_some_some] at hentry
      have hold : s.get? key = some old := hold
      simp [isChange, hold, hentry] at h

theorem setEntry_counts (s : Store) (key : String) (value : Value) :
    s.Counts (s.setEntry key value).1 (s.setEntry key value).2 :=
  (s.setEntry_countsExactly key value).toCounts

/-- Keeping a resolved form is no change, even where the entry is another value than was read:
it equals that one, and holds constants only. -/
theorem cacheResolved_counts (s : Store) (t : SettingType) (key : String) (v : t.Val)
    (found : Value) : s.Counts false (s.cacheResolved key found (t.toCachedValue v)) := by
  unfold cacheResolved
  split
  · rename_i h
    obtain ⟨hholds, -, hsame, hstill⟩ := h
    refine ⟨rfl, rfl, fun _ => ?_⟩
    have hfound : found.persisted = t.toValue v := by
      rw [← (Value.samePersisted_iff _ _).mp hsame, t.toCachedValue_persisted]
    cases hcur : s.get? key with
    | none => simp [isStill, hcur] at hstill
    | some current =>
      simp only [isStill, hcur] at hstill
      have hnamed := t.isNamed_of_holdsConstant v hholds
      have hcf := t.persisted_eq_of_isEqual hnamed v current found hfound hstill
      exact Document.writtenAlike_insert_self hcur
        ((t.toCachedValue_persisted v).trans (hcf.trans hfound).symm)
  · exact ⟨rfl, rfl, fun _ => .refl _⟩

/-! ### Whole operations -/

theorem populate_countsExactly (s : Store) (t : SettingType) (key : String)
    (found? : Option Value) (default : t.Val) :
    ∃ counted, s.CountsExactly counted (s.populate t key found? default) := by
  simp only [populate]
  split
  · exact ⟨_, s.setEntry_countsExactly key _⟩
  · exact ⟨false, .refl s⟩

theorem get_countsExactly (s : Store) (t : SettingType) (key : String) (default : t.Val) :
    ∃ counted, s.CountsExactly counted (s.get t key default).2 := by
  rcases s.get_cases t key default with h | ⟨found?, -, -, h⟩ | ⟨found, v, h⟩ <;> rw [h]
  · exact ⟨false, .refl s⟩
  · exact s.populate_countsExactly t key found? default
  · exact ⟨false, s.cacheResolved_counts t key v found, fun h => absurd h Bool.false_ne_true⟩

theorem get_counts (s : Store) (t : SettingType) (key : String) (default : t.Val) :
    ∃ counted, s.Counts counted (s.get t key default).2 :=
  (s.get_countsExactly t key default).imp fun _ h => h.toCounts

theorem putValue_countsExactly {s s' : Store} {key : String} {value : Value} {changed : Bool}
    (h : s.putValue key value = .ok (changed, s')) : s.CountsExactly changed s' := by
  unfold putValue at h
  split at h
  · cases h
  · split at h
    · cases h
    · cases h
      exact s.setEntry_countsExactly key value

theorem putValue_counts {s s' : Store} {key : String} {value : Value} {changed : Bool}
    (h : s.putValue key value = .ok (changed, s')) : s.Counts changed s' :=
  (putValue_countsExactly h).toCounts

theorem remove_countsExactly {s s' : Store} {key : String} {value? : Option Value}
    (h : s.remove key = .ok (value?, s')) : s.CountsExactly value?.isSome s' := by
  unfold remove at h
  split at h
  · cases h
  · split at h
    · cases h
      exact .refl s
    · rename_i value hvalue
      cases h
      refine ⟨⟨rfl, rfl, fun h => by simp at h⟩, fun _ halike => ?_⟩
      have hentry := halike key
      rw [SortedMap.get?_erase, if_pos rfl, show s.entries.get? key = some value from hvalue]
        at hentry
      cases hentry

theorem remove_counts {s s' : Store} {key : String} {value? : Option Value}
    (h : s.remove key = .ok (value?, s')) : s.Counts value?.isSome s' :=
  (remove_countsExactly h).toCounts

theorem clear_counts {s s' : Store} (h : s.clear = .ok s') : s.Counts true s' := by
  unfold clear at h
  split at h <;> cases h
  exact ⟨rfl, rfl, fun h => by simp at h⟩

end Store
end TypedConfig
