/-
# What the operations on a store leave alone

A typed read leaves a store as it is, stores the default, or keeps a resolved form
(`Store.get_cases`). No operation moves a store: its name, where it is kept and how it is
encoded stay as they were when it was opened (`Workspace.perform_sameHome`).

Key definitions: `Store.SameHome`.
Key theorems: `Store.get_cases`, `Workspace.perform_sameHome`.
-/
import Mathlib
import TypedConfig.Proofs.Store.Saving
import TypedConfig.Store.Command

namespace TypedConfig

/-- Two stores of one name, kept at one place in one encoding. -/
structure Store.SameHome (s s' : Store) : Prop where
  name : s'.name = s.name
  location : s'.location = s.location
  encoding : s'.encoding = s.encoding

namespace Store

theorem SameHome.refl (s : Store) : s.SameHome s := ⟨rfl, rfl, rfl⟩

theorem SameHome.trans {r s t : Store} (h : r.SameHome s) (h' : s.SameHome t) : r.SameHome t :=
  ⟨h'.name.trans h.name, h'.location.trans h.location, h'.encoding.trans h.encoding⟩

/-- **What a typed read does to a store.** It leaves it as it is, stores the default under a key
that is not empty, or keeps the resolved form of what it found. -/
theorem get_cases (s : Store) (t : SettingType) (key : String) (default : t.Val) :
    (s.get t key default).2 = s ∨
    (∃ found?, key ≠ "" ∧ s.autoPopulate = true ∧
      (s.get t key default).2 = s.populate t key found? default) ∨
    ∃ found v, (s.get t key default).2 = s.cacheResolved key found (t.toCachedValue v) := by
  unfold get
  split
  · exact .inl rfl
  rename_i hguard
  have hkey : key ≠ "" := fun h => hguard (.inl h)
  -- the default is asked for where the entry is absent, and where it cannot be read
  have hlack : ∀ found?, (if s.autoPopulate then s.populate t key found? default else s) = s ∨
      ∃ found?', key ≠ "" ∧ s.autoPopulate = true ∧
        (if s.autoPopulate then s.populate t key found? default else s) =
          s.populate t key found?' default := by
    intro found?
    split
    · rename_i hpopulates
      exact .inr ⟨found?, hkey, hpopulates, rfl⟩
    · exact .inl rfl
  split
  · exact (hlack none).imp_right .inl
  split
  · split
    · exact .inr (.inr ⟨_, _, rfl⟩)
    · exact .inl rfl
  · exact (hlack _).imp_right .inl

theorem setEntry_sameHome (s : Store) (key : String) (value : Value) :
    s.SameHome (s.setEntry key value).2 := ⟨rfl, rfl, rfl⟩

theorem populate_sameHome (s : Store) (t : SettingType) (key : String) (found? : Option Value)
    (default : t.Val) : s.SameHome (s.populate t key found? default) := by
  simp only [populate]
  split
  · exact s.setEntry_sameHome key _
  · exact .refl s

theorem cacheResolved_sameHome (s : Store) (key : String) (found resolved : Value) :
    s.SameHome (s.cacheResolved key found resolved) := by
  unfold cacheResolved
  split
  · exact ⟨rfl, rfl, rfl⟩
  · exact .refl s

theorem get_sameHome (s : Store) (t : SettingType) (key : String) (default : t.Val) :
    s.SameHome (s.get t key default).2 := by
  rcases s.get_cases t key default with h | ⟨found?, -, -, h⟩ | ⟨found, v, h⟩ <;> rw [h]
  · exact .refl s
  · exact s.populate_sameHome t key found? default
  · exact s.cacheResolved_sameHome key found _

theorem putValue_sameHome {s s' : Store} {key : String} {value : Value} {changed : Bool}
    (h : s.putValue key value = .ok (changed, s')) : s.SameHome s' := by
  unfold putValue at h
  split at h
  · cases h
  · split at h
    · cases h
    · cases h
      exact s.setEntry_sameHome key value

theorem remove_sameHome {s s' : Store} {key : String} {value? : Option Value}
    (h : s.remove key = .ok (value?, s')) : s.SameHome s' := by
  unfold remove at h
  split at h
  · cases h
  · split at h <;> cases h
    · exact .refl s
    · exact ⟨rfl, rfl, rfl⟩

theorem clear_sameHome {s s' : Store} (h : s.clear = .ok s') : s.SameHome s' := by
  unfold clear at h
  split at h <;> cases h
  exact ⟨rfl, rfl, rfl⟩

theorem save_sameHome (s : Store) (nonce : Nonce) (media : Media) :
    s.SameHome (s.save nonce media).2.1 := by
  rcases hsave : s.save nonce media with ⟨result, s', media'⟩
  cases s.saveEnd nonce media hsave with
  | written => exact ⟨rfl, rfl, rfl⟩
  | _ => exact .refl s

end Store

namespace Workspace

/-- What holds of the store as it is, and as a change that is not refused leaves it, holds after
the operation. -/
theorem settled_store {α : Type} {w : Workspace} {reply : α → StoreReply}
    {r : Except StoreError (α × Store)} {P : Store → Prop} (refused : P w.store)
    (changed : ∀ a s', r = .ok (a, s') → P s') : P (w.settled reply r).2.store := by
  cases r with
  | error e => exact refused
  | ok p => exact changed p.1 p.2 rfl

theorem perform_save (w : Workspace) : (w.perform .save).2 = w.save.2 := by
  simp only [perform]
  split <;> rename_i h <;> rw [h]

theorem perform_sameHome (w : Workspace) (c : StoreCommand) :
    w.store.SameHome (w.perform c).2.store := by
  cases c with
  | get t key default => exact w.store.get_sameHome t key default
  | put t key v => exact settled_store (.refl _) fun _ _ h => Store.putValue_sameHome h
  | putValue key value => exact settled_store (.refl _) fun _ _ h => Store.putValue_sameHome h
  | remove key => exact settled_store (.refl _) fun _ _ h => Store.remove_sameHome h
  | clear =>
    refine settled_store (.refl _) fun u s' h => ?_
    cases hclear : w.store.clear with
    | error e =>
      rw [hclear] at h
      cases h
    | ok cleared =>
      rw [hclear] at h
      cases h
      exact Store.clear_sameHome hclear
  | save =>
    rw [perform_save]
    exact w.store.save_sameHome w.nonces.next.1 w.media
  | _ => exact ⟨rfl, rfl, rfl⟩

theorem run_append (w : Workspace) (as bs : List StoreCommand) :
    w.run (as ++ bs) =
      ((w.run as).1 ++ ((w.run as).2.run bs).1, ((w.run as).2.run bs).2) := by
  induction as generalizing w with
  | nil => rfl
  | cons c as ih => simp only [List.cons_append, run, ih]

theorem run_sameHome (w : Workspace) (cs : List StoreCommand) :
    w.store.SameHome (w.run cs).2.store := by
  induction cs generalizing w with
  | nil => exact .refl _
  | cons c cs ih => exact (w.perform_sameHome c).trans (ih (w.perform c).2)

end Workspace
end TypedConfig
