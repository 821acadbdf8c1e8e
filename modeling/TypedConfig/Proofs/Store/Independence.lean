/-
# Operations on different keys

A typed read, a write and a removal have one key (`StoreCommand.key?`). Of a store they read
the entry of this key and the options, and they change that entry only and count at most one
change. So two stores that agree at the key cannot be told apart by the operation
(`Workspace.perform_alikeAt`), and an operation on another key keeps what they agree on
(`Workspace.perform_touchesOnly`).

Sequences of such operations, one for each key, can be merged into one run in many ways
(`IsMerge`). They all end alike: each key has the entry, and its operations have the answers,
that its own sequence has when it is run alone, and the set mark goes up by what all of them
add to it alone (`Workspace.run_merge`).

Key definitions: `StoreCommand.key?`, `Store.AlikeAt`, `Store.TouchesOnly`, `IsMerge`,
`StoreCommand.repliesOn`.
Key theorems: `Workspace.perform_alikeAt`, `Workspace.perform_touchesOnly`,
`Workspace.run_alikeAt`, `Workspace.changes_merge`, `Workspace.run_merge`.
-/
import Mathlib
import TypedConfig.Proofs.Store.Entries
import TypedConfig.Proofs.Store.Tally

namespace TypedConfig

/-- The key of an operation that has one. -/
def StoreCommand.key? : StoreCommand → Option String
  | .get _ key _ => some key
  | .put _ key _ => some key
  | .putValue key _ => some key
  | .remove key => some key
  | _ => none

namespace Store

/-- Two stores with the same options. -/
structure SameOptions (s s' : Store) : Prop where
  autoPopulate : s'.autoPopulate = s.autoPopulate
  enumCache : s'.enumCache = s.enumCache
  closed : s'.closed = s.closed

/-- Two stores that agree in everything that an operation on `key` reads. -/
structure AlikeAt (key : String) (s s' : Store) : Prop extends s.SameOptions s' where
  entry : s'.get? key = s.get? key

/-- The entry of `key` may change, but no other one and no option. -/
structure TouchesOnly (key : String) (s s' : Store) : Prop extends s.SameOptions s' where
  others : ∀ other, other ≠ key → s'.get? other = s.get? other

variable {key : String} {s s' : Store}

theorem AlikeAt.refl (key : String) (s : Store) : AlikeAt key s s := ⟨⟨rfl, rfl, rfl⟩, rfl⟩

theorem TouchesOnly.refl (key : String) (s : Store) : TouchesOnly key s s :=
  ⟨⟨rfl, rfl, rfl⟩, fun _ _ => rfl⟩

/-- What touches one key leaves a store alike at another. -/
theorem TouchesOnly.alikeAt {other : String} (h : TouchesOnly key s s') (hne : other ≠ key) :
    AlikeAt other s s' :=
  ⟨h.toSameOptions, h.others other hne⟩

theorem SameOptions.symm (h : s.SameOptions s') : s'.SameOptions s :=
  ⟨h.autoPopulate.symm, h.enumCache.symm, h.closed.symm⟩

theorem SameOptions.trans {r : Store} (h : r.SameOptions s) (h' : s.SameOptions s') :
    r.SameOptions s' :=
  ⟨h'.autoPopulate.trans h.autoPopulate, h'.enumCache.trans h.enumCache,
    h'.closed.trans h.closed⟩

/-- The entries are then written differently exactly if the entry of the key is. -/
theorem TouchesOnly.writtenAlike_iff (h : TouchesOnly key s s') :
    s.entries.WrittenAlike s'.entries ↔
      Option.Rel (fun a b => a.samePersisted b = true) (s.get? key) (s'.get? key) := by
  refine ⟨fun halike => halike key, fun hkey other => ?_⟩
  by_cases hother : other = key
  · exact hother ▸ hkey
  · rw [show s'.entries.get? other = s.entries.get? other from h.others other hother]
    exact Document.WrittenAlike.refl s.entries other

/-! ### What an operation touches -/

theorem setEntry_touchesOnly (s : Store) (key : String) (value : Value) :
    TouchesOnly key s (s.setEntry key value).2 :=
  ⟨⟨rfl, rfl, rfl⟩, fun other hne => by rw [get?_setEntry, if_neg (Ne.symm hne)]⟩

theorem populate_touchesOnly (s : Store) (t : SettingType) (key : String)
    (found? : Option Value) (default : t.Val) :
    TouchesOnly key s (s.populate t key found? default) := by
  simp only [populate]
  split
  · exact s.setEntry_touchesOnly key _
  · exact .refl key s

theorem cacheResolved_touchesOnly (s : Store) (key : String) (found resolved : Value) :
    TouchesOnly key s (s.cacheResolved key found resolved) := by
  unfold cacheResolved
  split
  · refine ⟨⟨rfl, rfl, rfl⟩, fun other hne => ?_⟩
    exact (s.entries.get?_insert key other resolved).trans (if_neg (Ne.symm hne))
  · exact .refl key s

theorem get_touchesOnly (s : Store) (t : SettingType) (key : String) (default : t.Val) :
    TouchesOnly key s (s.get t key default).2 := by
  rcases s.get_cases t key default with h | ⟨found?, -, -, h⟩ | ⟨found, v, h⟩ <;> rw [h]
  · exact .refl key s
  · exact s.populate_touchesOnly t key found? default
  · exact s.cacheResolved_touchesOnly key found _

theorem putValue_touchesOnly {value : Value} {changed : Bool}
    (h : s.putValue key value = .ok (changed, s')) : TouchesOnly key s s' := by
  obtain ⟨-, -, -, hset⟩ := putValue_eq_ok_iff.mp h
  have htouches := s.setEntry_touchesOnly key value
  rwa [hset] at htouches

theorem remove_touchesOnly {value? : Option Value} (h : s.remove key = .ok (value?, s')) :
    TouchesOnly key s s' := by
  unfold remove at h
  split at h
  · cases h
  · split at h <;> cases h
    · exact .refl key s
    · refine ⟨⟨rfl, rfl, rfl⟩, fun other hne => ?_⟩
      exact (s.entries.get?_erase key other).trans (if_neg (Ne.symm hne))

/-! ### What an operation depends on -/

namespace AlikeAt

theorem memoryForm (h : AlikeAt key s s') (t : SettingType) (v : t.Val) :
    s'.memoryForm t v = s.memoryForm t v := by
  simp only [Store.memoryForm, h.enumCache]

theorem checkWritable (h : AlikeAt key s s') : s'.checkWritable key = s.checkWritable key := by
  simp only [Store.checkWritable, h.closed]

theorem isStill (h : AlikeAt key s s') (found? : Option Value) :
    s'.isStill key found? = s.isStill key found? := by
  simp only [Store.isStill, h.entry]

theorem populate (h : AlikeAt key s s') (t : SettingType) (found? : Option Value)
    (default : t.Val) :
    (s'.populate t key found? default).get? key = (s.populate t key found? default).get? key := by
  simp only [Store.populate, h.memoryForm, h.isStill]
  split
  · rw [get?_setEntry, get?_setEntry, if_pos rfl, if_pos rfl]
  · exact h.entry

theorem cacheResolved (h : AlikeAt key s s') (found resolved : Value) :
    (s'.cacheResolved key found resolved).get? key =
      (s.cacheResolved key found resolved).get? key := by
  simp only [Store.cacheResolved, h.isStill]
  split
  · exact (s'.entries.get?_insert_self key resolved).trans
      (s.entries.get?_insert_self key resolved).symm
  · exact h.entry

theorem get (h : AlikeAt key s s') (t : SettingType) (default : t.Val) :
    (s'.get t key default).1 = (s.get t key default).1 ∧
      (s'.get t key default).2.get? key = (s.get t key default).2.get? key := by
  have hlack : ∀ found?, (if s'.autoPopulate then s'.populate t key found? default
      else s').get? key = (if s.autoPopulate then s.populate t key found? default
      else s).get? key := by
    intro found?
    rw [h.autoPopulate]
    split
    · exact h.populate t found? default
    · exact h.entry
  simp only [Store.get, h.closed, h.entry]
  split
  · exact ⟨rfl, h.entry⟩
  · split
    · exact ⟨rfl, hlack none⟩
    · split
      · rw [h.enumCache]
        split
        · exact ⟨rfl, h.cacheResolved _ _⟩
        · exact ⟨rfl, h.entry⟩
      · exact ⟨rfl, hlack _⟩

end AlikeAt
end Store

/-! ### One operation -/

namespace Workspace

variable {w w' : Workspace} {key : String} {c : StoreCommand}

/-- **An operation on a key touches that key only.** -/
theorem perform_touchesOnly (w : Workspace) (hkey : c.key? = some key) :
    w.store.TouchesOnly key (w.perform c).2.store := by
  cases c <;> cases hkey
  case get t default => exact w.store.get_touchesOnly t key default
  case put t v => exact settled_store (.refl key _) fun _ _ h => Store.putValue_touchesOnly h
  case putValue value =>
    exact settled_store (.refl key _) fun _ _ h => Store.putValue_touchesOnly h
  case remove => exact settled_store (.refl key _) fun _ _ h => Store.remove_touchesOnly h

theorem putValue_alikeAt (h : w.store.AlikeAt key w'.store) (value : Value) :
    (w'.perform (.putValue key value)).1 = (w.perform (.putValue key value)).1 ∧
      (w'.perform (.putValue key value)).2.store.get? key =
        (w.perform (.putValue key value)).2.store.get? key := by
  simp only [perform, Store.putValue, h.checkWritable]
  cases w.store.checkWritable key with
  | error e => exact ⟨rfl, h.entry⟩
  | ok u =>
    cases value.checkPersistable with
    | error e => exact ⟨rfl, h.entry⟩
    | ok u =>
      constructor
      · simp only [settled, Store.setEntry, h.entry]
      · simp only [settled, Store.get?_setEntry, if_true]

theorem remove_alikeAt (h : w.store.AlikeAt key w'.store) :
    (w'.perform (.remove key)).1 = (w.perform (.remove key)).1 ∧
      (w'.perform (.remove key)).2.store.get? key =
        (w.perform (.remove key)).2.store.get? key := by
  simp only [perform, Store.remove, h.checkWritable, h.entry]
  cases w.store.checkWritable key with
  | error e => exact ⟨rfl, h.entry⟩
  | ok u =>
    cases w.store.get? key with
    | none => exact ⟨rfl, h.entry⟩
    | some value =>
      refine ⟨rfl, ?_⟩
      show (w'.store.entries.erase key).get? key = (w.store.entries.erase key).get? key
      rw [SortedMap.get?_erase, SortedMap.get?_erase, if_pos rfl, if_pos rfl]

/-- **Where two stores agree at its key, an operation answers alike and leaves the same entry.** -/
theorem perform_alikeAt (h : w.store.AlikeAt key w'.store) (hkey : c.key? = some key) :
    (w'.perform c).1 = (w.perform c).1 ∧
      (w.perform c).2.store.AlikeAt key (w'.perform c).2.store := by
  have hsame : (w'.perform c).1 = (w.perform c).1 ∧
      (w'.perform c).2.store.get? key = (w.perform c).2.store.get? key := by
    cases c <;> cases hkey
    case get t default =>
      obtain ⟨hv, hentry⟩ := h.get t default
      exact ⟨congrArg (StoreReply.typed t) hv, hentry⟩
    case put t v =>
      have hput := putValue_alikeAt h (w.store.memoryForm t v)
      simp only [perform, Store.put, h.memoryForm] at hput ⊢
      exact hput
    case putValue value => exact putValue_alikeAt h value
    case remove => exact remove_alikeAt h
  have hoptions := (w.perform_touchesOnly hkey).toSameOptions
  have hoptions' := (w'.perform_touchesOnly hkey).toSameOptions
  exact ⟨hsame.1, (hoptions.symm.trans h.toSameOptions).trans hoptions', hsame.2⟩

/-- Where two stores agree at its key, an operation counts in both or in neither. -/
theorem isCounted_alikeAt (h : w.store.AlikeAt key w'.store) (hkey : c.key? = some key) :
    w'.isCounted c = w.isCounted c := by
  have hclear : c ≠ .clear := by
    rintro rfl
    cases hkey
  rw [Bool.eq_iff_iff, isCounted_of_ne_clear _ hclear, isCounted_of_ne_clear _ hclear,
    (w.perform_touchesOnly hkey).writtenAlike_iff, (w'.perform_touchesOnly hkey).writtenAlike_iff,
    h.entry, (perform_alikeAt h hkey).2.entry]

end Workspace

/-! ### Merging sequences -/

section

open scoped UInt64.CommRing

theorem ofNat_sum (keys : Finset String) (n : String → ℕ) :
    UInt64.ofNat (∑ key ∈ keys, n key) = ∑ key ∈ keys, UInt64.ofNat (n key) :=
  Nat.cast_sum keys n

end

/-- A list is a merge of a family of lists: its elements are taken one after another, each as
the next one of some list, until none is left. -/
inductive IsMerge {ι α : Type} [DecidableEq ι] : (ι → List α) → List α → Prop
  | done {lists : ι → List α} (empty : ∀ i, lists i = []) : IsMerge lists []
  | step {lists : ι → List α} {i : ι} {a : α} {rest merged : List α}
    (next : lists i = a :: rest) (others : IsMerge (Function.update lists i rest) merged) :
    IsMerge lists (a :: merged)

/-- Only finitely many lists of a family that has a merge are not empty. -/
theorem IsMerge.exists_finset {ι α : Type} [DecidableEq ι] {lists : ι → List α}
    {merged : List α} (h : IsMerge lists merged) :
    ∃ indices : Finset ι, ∀ i, lists i ≠ [] → i ∈ indices := by
  induction h with
  | done empty => exact ⟨∅, fun i hi => absurd (empty i) hi⟩
  | @step lists i a rest merged next others ih =>
    obtain ⟨indices, hindices⟩ := ih
    refine ⟨insert i indices, fun j hj => ?_⟩
    by_cases hji : j = i
    · exact hji ▸ Finset.mem_insert_self i indices
    · refine Finset.mem_insert_of_mem (hindices j ?_)
      rwa [Function.update_of_ne hji]

/-- The answers to the operations on a key. -/
def StoreCommand.repliesOn (key : String) (cs : List StoreCommand) (replies : List StoreReply) :
    List StoreReply :=
  ((cs.zip replies).filter fun p => p.1.key? = some key).map (·.2)

/-- Each list of a family has operations on its own key only. -/
def StoreCommand.OnOwnKey (sequences : String → List StoreCommand) : Prop :=
  ∀ key, ∀ c ∈ sequences key, c.key? = some key

namespace StoreCommand

variable {sequences : String → List StoreCommand} {key : String} {c : StoreCommand}
  {rest : List StoreCommand}

theorem OnOwnKey.key?_head (h : OnOwnKey sequences) (next : sequences key = c :: rest) :
    c.key? = some key :=
  h key c (next ▸ List.mem_cons_self)

theorem OnOwnKey.tail (h : OnOwnKey sequences) (next : sequences key = c :: rest) :
    OnOwnKey (Function.update sequences key rest) := by
  intro other d hd
  by_cases hother : other = key
  · subst hother
    rw [Function.update_self] at hd
    exact h other d (next ▸ List.mem_cons_of_mem c hd)
  · rw [Function.update_of_ne hother] at hd
    exact h other d hd

theorem repliesOn_cons (reply : StoreReply) (replies : List StoreReply) :
    repliesOn key (c :: rest) (reply :: replies) =
      if c.key? = some key then reply :: repliesOn key rest replies
      else repliesOn key rest replies := by
  unfold repliesOn
  split <;> rename_i h <;> simp [h]

end StoreCommand

namespace Workspace

open StoreCommand

variable {sequences : String → List StoreCommand} {cs : List StoreCommand}

theorem run_cons (w : Workspace) (c : StoreCommand) (cs : List StoreCommand) :
    w.run (c :: cs) =
      ((w.perform c).1 :: ((w.perform c).2.run cs).1, ((w.perform c).2.run cs).2) := rfl

/-- **A merge leaves at a key what the sequence of the key leaves alone, and answers its operations
alike.** -/
theorem run_alikeAt (merge : IsMerge sequences cs) (onOwnKey : OnOwnKey sequences) (key : String)
    {w w' : Workspace} (h : w.store.AlikeAt key w'.store) :
    (w.run cs).2.store.AlikeAt key (w'.run (sequences key)).2.store ∧
      repliesOn key cs (w.run cs).1 = (w'.run (sequences key)).1 := by
  induction merge generalizing w w' with
  | done empty =>
    rw [empty key]
    exact ⟨h, rfl⟩
  | @step sequences k c rest cs next others ih =>
    have hhead := onOwnKey.key?_head next
    rw [run_cons, repliesOn_cons, hhead]
    by_cases hk : k = key
    · -- both runs take the operation
      subst hk
      obtain ⟨hreply, halike⟩ := perform_alikeAt h hhead
      obtain ⟨hentry, hreplies⟩ := ih (onOwnKey.tail next) halike
      rw [Function.update_self] at hentry hreplies
      rw [next, run_cons, if_pos rfl, hreply, hreplies]
      exact ⟨hentry, rfl⟩
    · -- it is on another key, and only the merge takes it
      have halike := (w.perform_touchesOnly hhead).alikeAt (Ne.symm hk)
      have h' : (w.perform c).2.store.AlikeAt key w'.store :=
        ⟨halike.toSameOptions.symm.trans h.toSameOptions, h.entry.trans halike.entry.symm⟩
      have hrun := ih (onOwnKey.tail next) h'
      rw [Function.update_of_ne (Ne.symm hk)] at hrun
      rwa [if_neg fun heq => hk (Option.some.inj heq)]

/-- **A merge has the changes of all its sequences.** Each sequence is run from a workspace of its
own, which agrees with that of the merge at its key. -/
theorem changes_merge (merge : IsMerge sequences cs) (onOwnKey : OnOwnKey sequences)
    {keys : Finset String} (all : ∀ key, sequences key ≠ [] → key ∈ keys) {w : Workspace}
    {alone : String → Workspace} (h : ∀ key, w.store.AlikeAt key (alone key).store) :
    w.changes cs = ∑ key ∈ keys, (alone key).changes (sequences key) := by
  induction merge generalizing w alone with
  | done empty => simp [empty, changes]
  | @step sequences k c rest cs next others ih =>
    have hhead := onOwnKey.key?_head next
    have hk : k ∈ keys := all k (by rw [next]; exact List.cons_ne_nil c rest)
    let alone' := Function.update alone k ((alone k).perform c).2
    have halike : ∀ key, (w.perform c).2.store.AlikeAt key (alone' key).store := by
      intro key
      by_cases hkey : key = k
      · subst hkey
        rw [show alone' key = ((alone key).perform c).2 from Function.update_self ..]
        exact (perform_alikeAt (h key) hhead).2
      · have hw := (w.perform_touchesOnly hhead).alikeAt hkey
        rw [show alone' key = alone key from Function.update_of_ne hkey ..]
        exact ⟨hw.toSameOptions.symm.trans (h key).toSameOptions,
          (h key).entry.trans hw.entry.symm⟩
    have hall : ∀ key, Function.update sequences k rest key ≠ [] → key ∈ keys := by
      intro key hne
      by_cases hkey : key = k
      · exact hkey ▸ hk
      · rw [Function.update_of_ne hkey] at hne
        exact all key hne
    have hterm : ∀ key ∈ keys, (alone key).changes (sequences key) =
        (if key = k then if w.isCounted c then 1 else 0 else 0) +
          (alone' key).changes (Function.update sequences k rest key) := by
      intro key _
      by_cases hkey : key = k
      · subst hkey
        rw [if_pos rfl, show alone' key = ((alone key).perform c).2 from Function.update_self ..,
          Function.update_self, next, changes, isCounted_alikeAt (h key) hhead]
      · rw [if_neg hkey, show alone' key = alone key from Function.update_of_ne hkey ..,
          Function.update_of_ne hkey, Nat.zero_add]
    rw [changes, ih (onOwnKey.tail next) hall halike, Finset.sum_congr rfl hterm,
      Finset.sum_add_distrib, Finset.sum_ite_eq', if_pos hk]

/-- The set mark after a merge. -/
theorem set_merge (merge : IsMerge sequences cs) (onOwnKey : OnOwnKey sequences)
    {keys : Finset String} (all : ∀ key, sequences key ≠ [] → key ∈ keys) (w : Workspace) :
    (w.run cs).2.store.marks.set = w.store.marks.set +
      ∑ key ∈ keys, ((w.run (sequences key)).2.store.marks.set - w.store.marks.set) := by
  have hadded : ∀ key ∈ keys, (w.run (sequences key)).2.store.marks.set - w.store.marks.set =
      UInt64.ofNat (w.changes (sequences key)) := by
    intro key _
    rw [run_set, add_sub_cancel_left]
  rw [run_set, changes_merge merge onOwnKey all fun key => .refl key w.store, ofNat_sum,
    Finset.sum_congr rfl hadded]

/-- **Operations on different keys are independent.** After any merge of sequences of operations,
each on a key of its own, a key has the entry that its sequence leaves when it is run alone, and
the operations of the sequence are answered as when it is run alone; a key without operations
keeps its entry. The set mark goes up by what the sequences add to it when they are run alone. So
all merges lead to the same entries, set mark and answers. -/
theorem run_merge (w : Workspace) {sequences : String → List StoreCommand}
    (onOwnKey : OnOwnKey sequences) :
    (∀ cs, IsMerge sequences cs →
      (∀ key, (w.run cs).2.store.get? key = (w.run (sequences key)).2.store.get? key ∧
        repliesOn key cs (w.run cs).1 = (w.run (sequences key)).1 ∧
        (sequences key = [] → (w.run cs).2.store.get? key = w.store.get? key)) ∧
      ∀ keys : Finset String, (∀ key, sequences key ≠ [] → key ∈ keys) →
        (w.run cs).2.store.marks.set = w.store.marks.set +
          ∑ key ∈ keys, ((w.run (sequences key)).2.store.marks.set - w.store.marks.set)) ∧
    ∀ cs cs', IsMerge sequences cs → IsMerge sequences cs' →
      (w.run cs').2.store.entries = (w.run cs).2.store.entries ∧
      (w.run cs').2.store.marks.set = (w.run cs).2.store.marks.set ∧
      ∀ key, repliesOn key cs' (w.run cs').1 = repliesOn key cs (w.run cs).1 := by
  have hrun : ∀ {cs}, IsMerge sequences cs → ∀ key,
      (w.run cs).2.store.AlikeAt key (w.run (sequences key)).2.store ∧
        repliesOn key cs (w.run cs).1 = (w.run (sequences key)).1 :=
    fun merge key => run_alikeAt merge onOwnKey key (.refl key w.store)
  refine ⟨fun cs merge => ⟨fun key => ?_, fun keys all => set_merge merge onOwnKey all w⟩,
    fun cs cs' merge merge' => ?_⟩
  · obtain ⟨halike, hreplies⟩ := hrun merge key
    refine ⟨halike.entry.symm, hreplies, fun hempty => ?_⟩
    rw [← halike.entry, hempty]
    rfl
  · obtain ⟨keys, all⟩ := merge.exists_finset
    refine ⟨SortedMap.ext_get? fun key => ?_, ?_, fun key => ?_⟩
    · exact (hrun merge' key).1.entry.symm.trans (hrun merge key).1.entry
    · rw [set_merge merge' onOwnKey all, set_merge merge onOwnKey all]
    · rw [(hrun merge' key).2, (hrun merge key).2]

/-- A value is written and removed under one key, while a default is read into another. -/
theorem run_merge_twoKeys :
    let sequences : String → List StoreCommand := fun key =>
      if key = "a" then [.putValue "a" (.int 1), .remove "a"]
      else if key = "b" then [.get .integer "b" (5 : Int32)] else []
    let cs : List StoreCommand :=
      [.putValue "a" (.int 1), .get .integer "b" (5 : Int32), .remove "a"]
    OnOwnKey sequences ∧ IsMerge sequences cs ∧
      (blank.run cs).2.store.get? "a" = none ∧
      (blank.run cs).2.store.get? "b" = some (.int 5) ∧
      (blank.run cs).2.store.marks.set = 3 ∧
      repliesOn "a" cs (blank.run cs).1 = [.changed true, .removed (some (.int 1))] := by
  intro sequences cs
  have onOwnKey : OnOwnKey sequences := by
    intro key c hc
    by_cases ha : key = "a"
    · subst ha
      rcases List.mem_pair.mp hc with rfl | rfl <;> rfl
    by_cases hb : key = "b"
    · subst hb
      rw [List.mem_singleton.mp hc]
      rfl
    · rw [show sequences key = [] from (if_neg ha).trans (if_neg hb)] at hc
      cases hc
  have merge : IsMerge sequences cs := by
    refine .step (i := "a") rfl (.step (i := "b") rfl (.step (i := "a") rfl (.done fun key => ?_)))
    by_cases ha : key = "a"
    · subst ha
      rfl
    by_cases hb : key = "b"
    · subst hb
      rfl
    · simp [sequences, ha, hb]
  obtain ⟨hkeys, hset⟩ := (run_merge blank onOwnKey).1 cs merge
  have all : ∀ key, sequences key ≠ [] → key ∈ ({"a", "b"} : Finset String) := by
    intro key hne
    by_contra hkey
    simp at hkey
    exact hne ((if_neg hkey.1).trans (if_neg hkey.2))
  refine ⟨onOwnKey, merge, (hkeys "a").1, (hkeys "b").1, ?_, (hkeys "a").2.1⟩
  have ha : (blank.run (sequences "a")).2.store.marks.set = 2 := rfl
  have hb : (blank.run (sequences "b")).2.store.marks.set = 1 := rfl
  have hblank : blank.store.marks.set = 0 := rfl
  rw [hset _ all, Finset.sum_pair (by decide), ha, hb, hblank]
  rfl

end Workspace
end TypedConfig
