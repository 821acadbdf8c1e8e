/-
# Maps as their look-ups

What is under a key is one of the entries (`SortedMap.get?_eq_some_iff`), and the two
ways to make a map of others are told by their look-ups: changing all values
(`SortedMap.mapValues`), and merging, where the second map's value counts
(`SortedMap.get?_merge`). A map is made of its entries in whatever order they come
(`SortedMap.ofList_of_perm`).

Key definitions: `SortedMap.mapValues`.
Key theorems: `SortedMap.get?_eq_some_iff`, `SortedMap.ofList_of_perm`,
`SortedMap.get?_mapValues`, `SortedMap.get?_merge`.
-/
import Mathlib
import TypedConfig.SortedMap

namespace TypedConfig
namespace SortedMap

universe u v

variable {α : Type u} {β : Type v}

/-! ### Entries -/

theorem lookupIn_eq_some_iff (key : String) (value : α) : ∀ {entries : List (String × α)},
    KeysIncrease entries → (lookupIn key entries = some value ↔ (key, value) ∈ entries)
  | [], _ => by simp [lookupIn]
  | (k, v) :: rest, h => by
    obtain ⟨hk, hrest⟩ := List.pairwise_cons.mp h
    have ih := lookupIn_eq_some_iff key value hrest
    unfold lookupIn
    split
    · rename_i heq
      have hnot : (key, value) ∉ rest := fun hmem =>
        absurd (heq ▸ hk _ hmem) (String.lt_irrefl key)
      simp [heq, hnot, eq_comm]
    · rename_i hne
      rw [ih]
      simp [Ne.symm hne]

/-- What is under a key is an entry. -/
theorem get?_eq_some_iff {m : SortedMap α} {key : String} {value : α} :
    m.get? key = some value ↔ (key, value) ∈ m.toList :=
  lookupIn_eq_some_iff key value m.increasing

/-- Setting what is there changes nothing. -/
theorem insert_eq_self {m : SortedMap α} {key : String} {value : α}
    (h : m.get? key = some value) : m.insert key value = m := by
  refine ext_get? fun other => ?_
  rw [get?_insert]
  split
  · rename_i heq
    rw [← heq, h]
  · rfl

/-! ### Entries in any order -/

theorem keys_nodup {entries : List (String × α)} (h : KeysIncrease entries) :
    (entries.map (·.1)).Nodup := by
  rw [List.nodup_iff_pairwise_ne, List.pairwise_map]
  unfold KeysIncrease at h
  refine h.imp fun hlt heq => ?_
  rw [heq] at hlt
  exact String.lt_irrefl _ hlt

/-- What is under a key after entries of different keys were added, in whatever order. -/
theorem get?_foldl_insert (key : String) (value : α) : ∀ (entries : List (String × α))
    (m : SortedMap α), (entries.map (·.1)).Nodup →
    ((entries.foldl (fun m e => m.insert e.1 e.2) m).get? key = some value ↔
      (key, value) ∈ entries ∨ key ∉ entries.map (·.1) ∧ m.get? key = some value)
  | [], m, _ => by simp
  | (k, v) :: rest, m, h => by
    obtain ⟨hk, hrest⟩ := List.nodup_cons.mp h
    rw [List.foldl_cons, get?_foldl_insert key value rest _ hrest, get?_insert]
    by_cases hkey : k = key
    · subst hkey
      have hnot : (k, value) ∉ rest := fun hmem => hk (List.mem_map.mpr ⟨_, hmem, rfl⟩)
      simp only at hk
      simp [hnot, hk, eq_comm]
    · simp [hkey, Ne.symm hkey]

/-- **The entries of a map make the map, in whatever order they are met.** -/
theorem ofList_of_perm {m : SortedMap α} {entries : List (String × α)}
    (h : entries.Perm m.toList) : ofList entries = m := by
  have hnodup : (entries.map (·.1)).Nodup :=
    (h.map (·.1)).nodup_iff.mpr (keys_nodup m.increasing)
  refine ext_get? fun key => Option.ext fun value => ?_
  rw [ofList, get?_foldl_insert key value entries empty hnodup, h.mem_iff, ← get?_eq_some_iff]
  simp

/-! ### Changing all values -/

/-- The map with `f` applied to every value. -/
def mapValues (f : α → β) (m : SortedMap α) : SortedMap β :=
  ⟨m.toList.map fun e => (e.1, f e.2), by
    simpa [KeysIncrease, List.pairwise_map] using m.increasing⟩

theorem lookupIn_map (f : α → β) (key : String) : ∀ entries : List (String × α),
    lookupIn key (entries.map fun e => (e.1, f e.2)) = (lookupIn key entries).map f
  | [] => rfl
  | (k, v) :: rest => by
    simp only [List.map_cons, lookupIn, lookupIn_map f key rest]
    split <;> rfl

@[simp] theorem get?_mapValues (f : α → β) (m : SortedMap α) (key : String) :
    (m.mapValues f).get? key = (m.get? key).map f :=
  lookupIn_map f key m.toList

theorem mapValues_insert (f : α → β) (m : SortedMap α) (key : String) (value : α) :
    (m.insert key value).mapValues f = (m.mapValues f).insert key (f value) := by
  refine ext_get? fun other => ?_
  simp only [get?_mapValues, get?_insert]
  split <;> rfl

theorem mapValues_erase (f : α → β) (m : SortedMap α) (key : String) :
    (m.erase key).mapValues f = (m.mapValues f).erase key := by
  refine ext_get? fun other => ?_
  simp only [get?_mapValues, get?_erase]
  split <;> rfl

/-! ### Merging -/

theorem get?_insertAll (key : String) : ∀ (entries : List (String × α)) (m : SortedMap α),
    KeysIncrease entries →
    (entries.foldl (fun m e => m.insert e.1 e.2) m).get? key =
      (lookupIn key entries).or (m.get? key)
  | [], _, _ => rfl
  | (k, v) :: rest, m, h => by
    obtain ⟨hk, hrest⟩ := List.pairwise_cons.mp h
    rw [List.foldl_cons, get?_insertAll key rest _ hrest, get?_insert, lookupIn]
    by_cases hkey : k = key
    · -- the keys after it are all larger
      subst hkey
      rw [lookupIn_eq_none hk]
      simp
    · simp [hkey]

/-- **Of two maps that are merged, the second one's value counts.** -/
theorem get?_merge (m upper : SortedMap α) (key : String) :
    (m.merge upper).get? key = (upper.get? key).or (m.get? key) :=
  get?_insertAll key upper.toList m upper.increasing

theorem empty_merge (m : SortedMap α) : empty.merge m = m := by
  refine ext_get? fun key => ?_
  rw [get?_merge, get?_empty, Option.or_none]

end SortedMap
end TypedConfig
