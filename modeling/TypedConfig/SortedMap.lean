/-
# Maps with their keys in order

A finite map from text keys, kept as the list of its entries in strictly
increasing key order. The order is part of the type, so two maps with the same
look-ups are the same map and walking a map always meets the keys in the order
of their code points.

Key definitions: `SortedMap`, `SortedMap.get?`, `SortedMap.insert`,
`SortedMap.erase`, `SortedMap.ofList`, `SortedMap.merge`.
Key theorems: `SortedMap.get?_insert`, `SortedMap.get?_erase`, `SortedMap.ext_get?`.
-/

namespace TypedConfig

universe u

/-- Entries whose keys strictly increase. -/
def KeysIncrease {α : Type u} (entries : List (String × α)) : Prop :=
  entries.Pairwise fun a b => a.1 < b.1

/-- A finite map from text to `α`. -/
structure SortedMap (α : Type u) where
  /-- The entries, smallest key first. -/
  toList : List (String × α)
  /-- No key occurs twice, and the keys are in order. -/
  increasing : KeysIncrease toList

namespace SortedMap

variable {α : Type u}

/-! ### Entries in a list -/

/-- The value of `key` in a list of entries. -/
def lookupIn (key : String) : List (String × α) → Option α
  | [] => none
  | (k, v) :: rest => if k = key then some v else lookupIn key rest

/-- Puts an entry at its place, over an entry of the same key. -/
def insertIn (key : String) (value : α) : List (String × α) → List (String × α)
  | [] => [(key, value)]
  | (k, v) :: rest =>
    if key < k then (key, value) :: (k, v) :: rest
    else if key = k then (key, value) :: rest
    else (k, v) :: insertIn key value rest

/-- Drops the entry of `key`. -/
def eraseIn (key : String) (entries : List (String × α)) : List (String × α) :=
  entries.filter fun e => decide (e.1 ≠ key)

theorem mem_insertIn {key : String} {value : α} {e : String × α} :
    ∀ {entries : List (String × α)}, e ∈ insertIn key value entries → e = (key, value) ∨ e ∈ entries
  | [], h => by simpa [insertIn] using h
  | (k, v) :: rest, h => by
    unfold insertIn at h
    split at h
    · simpa using h
    · split at h
      · rcases List.mem_cons.1 h with h | h
        · exact .inl h
        · exact .inr (List.mem_cons_of_mem _ h)
      · rcases List.mem_cons.1 h with h | h
        · exact .inr (h ▸ List.mem_cons_self)
        · exact (mem_insertIn h).imp id (List.mem_cons_of_mem _)

theorem keysIncrease_insertIn {key : String} {value : α} :
    ∀ {entries : List (String × α)}, KeysIncrease entries → KeysIncrease (insertIn key value entries)
  | [], _ => List.pairwise_singleton _ _
  | (k, v) :: rest, h => by
    obtain ⟨hk, hrest⟩ := List.pairwise_cons.1 h
    unfold insertIn
    split
    · rename_i hlt
      refine List.pairwise_cons.2 ⟨fun e he => ?_, h⟩
      rcases List.mem_cons.1 he with rfl | he
      · exact hlt
      · exact String.lt_trans hlt (hk e he)
    · split
      · rename_i heq
        exact List.pairwise_cons.2 ⟨fun e he => heq ▸ hk e he, hrest⟩
      · rename_i hnlt hne
        have hlt : k < key :=
          Std.lt_of_le_of_ne (String.not_lt.1 hnlt) fun h => hne h.symm
        refine List.pairwise_cons.2 ⟨fun e he => ?_, keysIncrease_insertIn hrest⟩
        rcases mem_insertIn he with rfl | he
        · exact hlt
        · exact hk e he

theorem keysIncrease_eraseIn {key : String} {entries : List (String × α)}
    (h : KeysIncrease entries) : KeysIncrease (eraseIn key entries) :=
  List.Pairwise.filter _ h

/-- A key below all the others has no entry among them. -/
theorem lookupIn_eq_none {key : String} :
    ∀ {entries : List (String × α)}, (∀ e ∈ entries, key < e.1) → lookupIn key entries = none
  | [], _ => rfl
  | (k, v) :: rest, h => by
    have hk : key < k := h (k, v) List.mem_cons_self
    have hne : k ≠ key := fun e => String.lt_irrefl key (e ▸ hk)
    simp only [lookupIn, hne, if_false]
    exact lookupIn_eq_none fun e he => h e (List.mem_cons_of_mem _ he)

theorem lookupIn_insertIn {key other : String} {value : α} :
    ∀ {entries : List (String × α)},
      lookupIn other (insertIn key value entries)
        = if key = other then some value else lookupIn other entries
  | [] => rfl
  | (k, v) :: rest => by
    unfold insertIn
    split
    · rfl
    · split
      · rename_i heq
        subst heq
        simp only [lookupIn]
        split <;> rfl
      · rename_i hne
        have ih : lookupIn other (insertIn key value rest)
            = if key = other then some value else lookupIn other rest := lookupIn_insertIn
        simp only [lookupIn, ih]
        by_cases hk : k = other
        · subst hk; simp [hne]
        · simp [hk]

theorem lookupIn_eraseIn {key other : String} :
    ∀ {entries : List (String × α)},
      lookupIn other (eraseIn key entries) = if key = other then none else lookupIn other entries
  | [] => by simp [eraseIn, lookupIn]
  | (k, v) :: rest => by
    have ih : lookupIn other (eraseIn key rest)
        = if key = other then none else lookupIn other rest := lookupIn_eraseIn
    unfold eraseIn at ih ⊢
    by_cases hk : k = key
    · subst hk
      simp only [List.filter_cons, ne_eq, not_true, decide_false, Bool.false_eq_true, if_false, ih,
        lookupIn]
      split <;> simp_all
    · simp only [List.filter_cons, ne_eq, hk, not_false_eq_true, decide_true, if_true, lookupIn, ih]
      by_cases ho : k = other
      · subst ho; simp [Ne.symm hk]
      · simp [ho]

/-! ### The map -/

/-- The map with no entry. -/
def empty : SortedMap α := ⟨[], List.Pairwise.nil⟩

instance : Inhabited (SortedMap α) := ⟨empty⟩

/-- The value under `key`. -/
def get? (m : SortedMap α) (key : String) : Option α := lookupIn key m.toList

/-- Whether `key` has an entry. -/
def contains (m : SortedMap α) (key : String) : Bool := (m.get? key).isSome

/-- Sets the value under `key`. -/
def insert (m : SortedMap α) (key : String) (value : α) : SortedMap α :=
  ⟨insertIn key value m.toList, keysIncrease_insertIn m.increasing⟩

/-- Drops the entry under `key`, if there is one. -/
def erase (m : SortedMap α) (key : String) : SortedMap α :=
  ⟨eraseIn key m.toList, keysIncrease_eraseIn m.increasing⟩

/-- The number of entries. -/
def size (m : SortedMap α) : Nat := m.toList.length

/-- The keys, smallest first. -/
def keys (m : SortedMap α) : List String := m.toList.map (·.1)

/-- The map of a list of entries, in which a later entry of a key replaces an earlier one. -/
def ofList (entries : List (String × α)) : SortedMap α :=
  entries.foldl (fun m e => m.insert e.1 e.2) empty

/-- All entries of both maps; where both have a key, the second map's value counts. -/
def merge (m upper : SortedMap α) : SortedMap α :=
  upper.toList.foldl (fun m e => m.insert e.1 e.2) m

@[simp] theorem get?_empty (key : String) : (empty : SortedMap α).get? key = none := rfl

theorem get?_insert (m : SortedMap α) (key other : String) (value : α) :
    (m.insert key value).get? other = if key = other then some value else m.get? other :=
  lookupIn_insertIn

@[simp] theorem get?_insert_self (m : SortedMap α) (key : String) (value : α) :
    (m.insert key value).get? key = some value := by simp [get?_insert]

theorem get?_erase (m : SortedMap α) (key other : String) :
    (m.erase key).get? other = if key = other then none else m.get? other :=
  lookupIn_eraseIn

/-- Lists in key order with the same look-ups are equal. -/
theorem eq_of_lookupIn_eq :
    ∀ {a b : List (String × α)}, KeysIncrease a → KeysIncrease b →
      (∀ key, lookupIn key a = lookupIn key b) → a = b
  | [], [], _, _, _ => rfl
  | [], (k, v) :: rest, _, _, h => by simpa [lookupIn] using h k
  | (k, v) :: rest, [], _, _, h => by simpa [lookupIn] using h k
  | (k, v) :: rest, (k', v') :: rest', ha, hb, h => by
    obtain ⟨hk, hrest⟩ := List.pairwise_cons.1 ha
    obtain ⟨hk', hrest'⟩ := List.pairwise_cons.1 hb
    have hkk : k = k' := by
      rcases Decidable.em (k = k') with e | e
      · exact e
      · exfalso
        rcases Decidable.em (k < k') with hlt | hlt
        · have hn : lookupIn k ((k', v') :: rest') = none :=
            lookupIn_eq_none fun e he => by
              rcases List.mem_cons.1 he with rfl | he
              · exact hlt
              · exact String.lt_trans hlt (hk' e he)
          have := h k
          rw [hn] at this
          simp [lookupIn] at this
        · have hlt' : k' < k := Std.lt_of_le_of_ne (String.not_lt.1 hlt) fun h => e h.symm
          have hn : lookupIn k' ((k, v) :: rest) = none :=
            lookupIn_eq_none fun e he => by
              rcases List.mem_cons.1 he with rfl | he
              · exact hlt'
              · exact String.lt_trans hlt' (hk e he)
          have := h k'
          rw [hn] at this
          simp [lookupIn] at this
    subst hkk
    have hv : v = v' := by simpa [lookupIn] using h k
    subst hv
    have htail : rest = rest' := eq_of_lookupIn_eq hrest hrest' fun key => by
      by_cases e : k = key
      · subst e
        rw [lookupIn_eq_none hk, lookupIn_eq_none hk']
      · simpa [lookupIn, e] using h key
    rw [htail]

/-- Maps with the same look-ups are equal. -/
theorem ext_get? {m n : SortedMap α} (h : ∀ key, m.get? key = n.get? key) : m = n := by
  have e : m.toList = n.toList := eq_of_lookupIn_eq m.increasing n.increasing h
  cases m
  cases n
  simpa using e

end SortedMap

end TypedConfig
