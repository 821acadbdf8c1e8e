/-
# The entries that the operations leave

A typed write is refused or puts one entry, which is written like the value
(`Store.put_eq_ok_iff`). A typed read leaves every entry written as it was, but it may
put the default in the place of one that is absent or cannot be read
(`Store.get_stored`). Nothing else brings an entry about.

Key theorems: `Store.putValue_eq_ok_iff`, `Store.put_eq_ok_iff`, `Store.get_stored`.
-/
import Mathlib
import TypedConfig.Proofs.Store.Counting

namespace TypedConfig
namespace Store

variable {s s' : Store} {t : SettingType} {key other : String} {value : Value}

theorem get?_setEntry (s : Store) (key other : String) (value : Value) :
    (s.setEntry key value).2.get? other = if key = other then some value else s.get? other :=
  s.entries.get?_insert key other value

/-! ### Writing -/

/-- A value is stored under a key of its own, in an open store, if it can be written. -/
theorem putValue_eq_ok_iff {p : Bool × Store} : s.putValue key value = .ok p ↔
    key ≠ "" ∧ s.closed = false ∧ value.checkPersistable = .ok () ∧ s.setEntry key value = p := by
  unfold putValue checkWritable
  by_cases hkey : key = ""
  · simp [hkey]
  by_cases hclosed : s.closed = true
  · simp [hkey, hclosed]
  cases hcheck : value.checkPersistable <;> simp [hkey, hclosed]

/-- Whether a typed value can be written does not depend on the form that is kept in memory. -/
theorem checkPersistable_memoryForm (s : Store) (t : SettingType) (v : t.Val) :
    (s.memoryForm t v).checkPersistable = (t.toValue v).checkPersistable := by
  rw [← Value.checkPersistable_persisted, memoryForm_persisted]

/-- **A typed value is stored if the key is not empty, the store open and the value can be
written.** -/
theorem put_eq_ok_iff {v : t.Val} {p : Bool × Store} : s.put t key v = .ok p ↔
    key ≠ "" ∧ s.closed = false ∧ (t.toValue v).checkPersistable = .ok () ∧
      s.setEntry key (s.memoryForm t v) = p := by
  rw [put, putValue_eq_ok_iff, checkPersistable_memoryForm]

/-- Storing a typed value puts one entry. -/
theorem get?_of_put {v : t.Val} {changed : Bool} (h : s.put t key v = .ok (changed, s'))
    (other : String) :
    s'.get? other = if key = other then some (s.memoryForm t v) else s.get? other := by
  obtain ⟨-, -, -, hset⟩ := put_eq_ok_iff.mp h
  have hget := s.get?_setEntry key other (s.memoryForm t v)
  rwa [hset] at hget

theorem closed_of_put {v : t.Val} {changed : Bool} (h : s.put t key v = .ok (changed, s')) :
    s.closed = false ∧ s'.closed = false := by
  obtain ⟨-, hopen, -, hset⟩ := put_eq_ok_iff.mp h
  have hclosed : s'.closed = s.closed := congrArg (·.2.closed) hset.symm
  exact ⟨hopen, hclosed.trans hopen⟩

/-- Storing a typed value is counted as a change if the entry had another persisted form. -/
theorem marks_of_put {v : t.Val} {changed : Bool} (h : s.put t key v = .ok (changed, s')) :
    ((s.get? key).map Value.persisted = some (t.toValue v) → s'.marks = s.marks) ∧
      ((s.get? key).map Value.persisted ≠ some (t.toValue v) → s'.marks = s.marks.markDirty) := by
  obtain ⟨-, -, -, hset⟩ := put_eq_ok_iff.mp h
  have hmarks : s'.marks = if isChange (s.get? key) (s.memoryForm t v) then s.marks.markDirty
      else s.marks := congrArg (·.2.marks) hset.symm
  have hsame : ∀ old : Value, old.samePersisted (s.memoryForm t v) = true ↔
      old.persisted = t.toValue v := by
    intro old
    rw [Value.samePersisted_iff, memoryForm_persisted]
  rw [hmarks]
  unfold isChange
  cases s.get? key with
  | none => simp
  | some old => simp +contextual [← hsame old]

/-! ### Reading -/

/-- What storing a default puts is the default, and it can be written. -/
theorem populate_entry {found? : Option Value} {default : t.Val}
    (h : (s.populate t key found? default).get? other = some value) :
    s.get? other = some value ∨ other = key ∧ value.persisted = t.toValue default ∧
      value.checkPersistable = .ok () := by
  simp only [populate] at h
  split at h
  · rename_i hstore
    rw [get?_setEntry] at h
    split at h
    · rename_i hkey
      cases h
      exact .inr ⟨hkey.symm, s.memoryForm_persisted t default, Value.isPersistable_iff.mp hstore.1⟩
    · exact .inl h
  · exact .inl h

/-- **After a typed read an entry is written as it was before, or is the default, which is stored
only under a key and if it can be written.** -/
theorem get_stored {default : t.Val} (h : (s.get t key default).2.get? other = some value) :
    (∃ old, s.get? other = some old ∧ value.persisted = old.persisted) ∨
      other = key ∧ key ≠ "" ∧ value.persisted = t.toValue default ∧
        value.checkPersistable = .ok () := by
  rcases s.get_cases t key default with heq | ⟨found?, hkey, -, heq⟩ | ⟨found, v, heq⟩ <;>
    rw [heq] at h
  · exact .inl ⟨value, h, rfl⟩
  · rcases populate_entry h with hold | ⟨hother, hnew⟩
    · exact .inl ⟨value, hold, rfl⟩
    · exact .inr ⟨hother, hkey, hnew⟩
  · -- a resolved form may replace the entry, but is written like it
    have halike := (s.cacheResolved_counts t key v found).alike rfl other
    have hvalue : (s.cacheResolved key found (t.toCachedValue v)).entries.get? other =
        some value := h
    rw [hvalue] at halike
    cases hold : s.entries.get? other with
    | none =>
      rw [hold] at halike
      cases halike
    | some old =>
      rw [hold, Option.rel_some_some, Value.samePersisted_iff] at halike
      exact .inl ⟨old, hold, halike.symm⟩

/-- After a typed read an entry is written as it was before, or is the default. -/
theorem get_entry {default : t.Val} (h : (s.get t key default).2.get? other = some value) :
    (∃ old, s.get? other = some old ∧ value.persisted = old.persisted) ∨
      other = key ∧ value.persisted = t.toValue default :=
  (get_stored h).imp_right fun ⟨hother, _, hvalue, _⟩ => ⟨hother, hvalue⟩

/-! ### Removing -/

/-- What is there after a removal was there before. -/
theorem remove_entry {value? : Option Value} (hremove : s.remove key = .ok (value?, s'))
    (h : s'.get? other = some value) : s.get? other = some value := by
  unfold remove at hremove
  split at hremove
  · cases hremove
  split at hremove
  · cases hremove
    exact h
  · cases hremove
    have herase : (s.entries.erase key).get? other = some value := h
    rw [SortedMap.get?_erase] at herase
    split at herase
    · cases herase
    · exact herase

end Store
end TypedConfig
