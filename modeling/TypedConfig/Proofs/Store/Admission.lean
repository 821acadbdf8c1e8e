/-
# Which entries a store can hold

An operation puts an entry only under a key that is not empty, and only if the value
can be written: its floats are finite, and its arrays hold elements of one shape, at
every level. Opening a store asks for neither. A document that was read has finite
floats only, but it may have an entry under the empty key, and arrays of any mixture.

So an entry that could not have been stored was loaded when the store was opened, and
nothing but such an entry ever breaks the rule (`Workspace.entries_admissible_or_loaded`).

Key definitions: `Value.IsAdmissible`, `Store.IsRegular`.
Key theorems: `Workspace.perform_entry`, `Workspace.run_entry`,
`Workspace.entries_admissible_or_loaded`.
-/
import Mathlib
import TypedConfig.Proofs.Document.Settling
import TypedConfig.Proofs.Store.Entries
import TypedConfig.Proofs.Store.Tally

namespace TypedConfig

/-! ### Entries that could have been stored -/

/-- An entry that could have been stored: its key is not empty, and its value can be written. -/
structure Value.IsAdmissible (key : String) (value : Value) : Prop where
  key_ne_empty : key ≠ ""
  persistable : value.checkPersistable = .ok ()

/-- All entries of a store could have been stored. -/
def Store.IsRegular (s : Store) : Prop :=
  ∀ key value, s.get? key = some value → value.IsAdmissible key

/-- Whether an entry could have been stored is seen in what is written for it. -/
theorem Value.isAdmissible_congr {key : String} {a b : Value} (h : a.persisted = b.persisted) :
    a.IsAdmissible key ↔ b.IsAdmissible key := by
  have hcheck : a.checkPersistable = b.checkPersistable := by
    rw [← checkPersistable_persisted, h, checkPersistable_persisted]
  exact ⟨fun ha => ⟨ha.key_ne_empty, hcheck ▸ ha.persistable⟩,
    fun hb => ⟨hb.key_ne_empty, hcheck ▸ hb.persistable⟩⟩

/-! ### What one operation leaves -/

/-- The entry was there before, written as it is now. -/
def Store.Had (before : Store) (key : String) (value : Value) : Prop :=
  ∃ old, before.get? key = some old ∧ value.persisted = old.persisted

namespace Store

variable {s s' : Store} {key : String} {value : Value}

theorem had_of_get? (h : s.get? key = some value) : s.Had key value := ⟨value, h, rfl⟩

theorem putValue_entry {other : String} {stored : Value} {changed : Bool}
    (hput : s.putValue other stored = .ok (changed, s')) (h : s'.get? key = some value) :
    value.IsAdmissible key ∨ s.Had key value := by
  obtain ⟨hother, -, hcheck, hset⟩ := putValue_eq_ok_iff.mp hput
  have hget := s.get?_setEntry other key stored
  rw [hset, h] at hget
  split at hget
  · rename_i hkey
    cases hget
    exact .inl ⟨hkey ▸ hother, hcheck⟩
  · exact .inr (had_of_get? hget.symm)

theorem clear_entry (hclear : s.clear = .ok s') : s'.get? key = none := by
  unfold clear at hclear
  split at hclear <;> cases hclear
  rfl

end Store

namespace Workspace

variable {w : Workspace} {key : String} {value : Value}

theorem settled_entry {α : Type} {reply : α → StoreReply} {r : Except StoreError (α × Store)}
    (hr : ∀ a s', r = .ok (a, s') → s'.get? key = some value →
      value.IsAdmissible key ∨ w.store.Had key value)
    (h : (w.settled reply r).2.store.get? key = some value) :
    value.IsAdmissible key ∨ w.store.Had key value :=
  settled_store (P := fun s => s.get? key = some value →
    value.IsAdmissible key ∨ w.store.Had key value) (.inr ∘ Store.had_of_get?) hr h

theorem save_entries (w : Workspace) : (w.perform .save).2.store.entries = w.store.entries := by
  rw [perform_save]
  simp only [Workspace.save]
  rcases hsave : w.store.save w.nonces.next.1 w.media with ⟨result, store, media⟩
  cases w.store.saveEnd w.nonces.next.1 w.media hsave <;> rfl

/-- **After an operation an entry could have been stored, or it was there before and is written
as it was.** -/
theorem perform_entry (c : StoreCommand) (h : (w.perform c).2.store.get? key = some value) :
    value.IsAdmissible key ∨ w.store.Had key value := by
  cases c with
  | get t other default =>
    rcases Store.get_stored h with hold | ⟨rfl, hkey, -, hcheck⟩
    · exact .inr hold
    · exact .inl ⟨hkey, hcheck⟩
  | put t other v => exact settled_entry (fun _ _ => Store.putValue_entry) h
  | putValue other stored => exact settled_entry (fun _ _ => Store.putValue_entry) h
  | remove other =>
    exact settled_entry (fun _ _ hr hget => .inr (Store.had_of_get? (Store.remove_entry hr hget))) h
  | clear =>
    refine settled_entry (fun u s' hr hget => ?_) h
    cases hclear : w.store.clear with
    | error e =>
      rw [hclear] at hr
      cases hr
    | ok cleared =>
      rw [hclear] at hr
      cases hr
      rw [Store.clear_entry hclear] at hget
      cases hget
  | save =>
    have hentry : (w.perform .save).2.store.entries.get? key = some value := h
    rw [save_entries] at hentry
    exact .inr (Store.had_of_get? hentry)
  | close => exact .inr (Store.had_of_get? h)
  | setAutoPopulate on => exact .inr (Store.had_of_get? h)
  | setEnumCache on => exact .inr (Store.had_of_get? h)

/-! ### What a run leaves -/

/-- **After any operations an entry could have been stored, or it was there at the start.** -/
theorem run_entry (cs : List StoreCommand) (h : (w.run cs).2.store.get? key = some value) :
    value.IsAdmissible key ∨ w.store.Had key value := by
  induction cs generalizing w with
  | nil => exact .inr (Store.had_of_get? h)
  | cons c cs ih =>
    rcases ih (w := (w.perform c).2) h with hstored | ⟨old, hold, hvalue⟩
    · exact .inl hstored
    · -- what was there after the first operation is seen in its persisted form
      rcases perform_entry c hold with hstored | ⟨first, hfirst, hsame⟩
      · exact .inl ((Value.isAdmissible_congr hvalue).mpr hstored)
      · exact .inr ⟨first, hfirst, hvalue.trans hsame⟩

/-! ### Opening -/

theorem isSound_documentOrEmpty (encoding : Encoding) (bytes? : Option Bytes) :
    (encoding.documentOrEmpty bytes?).IsSound Document.maxDepth := by
  unfold Encoding.documentOrEmpty
  split
  · exact Document.isSound_empty _
  · split
    · rename_i hdecode
      exact Encoding.isSound_of_decode hdecode
    · exact Document.isSound_empty _

/-- What was loaded has finite floats only. -/
theorem allFinite_of_opened {o : OpenOptions} {env : Environment} {media : Media}
    {nonces : NonceSupply} (opened : Workspace.opened o env media nonces = .ok w)
    (h : w.store.get? key = some value) : value.AllFinite := by
  obtain ⟨location, stored?, -, -, rfl⟩ := eq_of_opened opened
  have hget : ((o.encoding.documentOrEmpty o.seed?).merge
      (o.encoding.documentOrEmpty stored?)).get? key = some value := h
  rw [SortedMap.get?_merge, Option.or_eq_some_iff] at hget
  rcases hget with hstored | ⟨-, hseed⟩
  · exact (isSound_documentOrEmpty o.encoding stored? key value hstored).finite
  · exact (isSound_documentOrEmpty o.encoding o.seed? key value hseed).finite

/-- Whatever the operations on a store that was opened, its entries have finite floats only. -/
theorem run_allFinite {o : OpenOptions} {env : Environment} {media : Media} {nonces : NonceSupply}
    (opened : Workspace.opened o env media nonces = .ok w) (cs : List StoreCommand) :
    (w.run cs).2.store.entries.AllFinite := by
  rw [Document.allFinite_iff]
  intro key value h
  rcases run_entry cs h with hstored | ⟨loaded, hloaded, hsame⟩
  · exact value.allFinite_of_checkPersistable hstored.persistable
  · rw [← Value.allFinite_persisted, hsame, Value.allFinite_persisted]
    exact allFinite_of_opened opened hloaded

/-- **An entry could have been stored, or it was loaded.** A store that was opened has the entries
of the two documents, those on the medium first. After any operations on it, all floats in an
entry are finite; and the key is not empty and the value can be written, or the entry is written
as one that was loaded, for which that is not so. So all entries could have been stored, whatever
the operations, exactly if those that were loaded could. -/
theorem entries_admissible_or_loaded {o : OpenOptions} {env : Environment} {media : Media}
    {nonces : NonceSupply} (opened : Workspace.opened o env media nonces = .ok w) :
    (∃ stored?, media.read w.store.location = .ok stored? ∧ ∀ key, w.store.get? key =
      ((o.encoding.documentOrEmpty stored?).get? key).or
        ((o.encoding.documentOrEmpty o.seed?).get? key)) ∧
    (∀ cs key value, (w.run cs).2.store.get? key = some value → value.AllFinite ∧
      (value.IsAdmissible key ∨ ∃ loaded, w.store.get? key = some loaded ∧
        ¬ loaded.IsAdmissible key ∧ loaded.samePersisted value = true)) ∧
    ((∀ cs, (w.run cs).2.store.IsRegular) ↔ w.store.IsRegular) := by
  refine ⟨?loaded, fun cs key value h => ?entry, fun h => h [], fun h cs key value hget => ?regular⟩
  case loaded =>
    obtain ⟨location, stored?, -, hread, rfl⟩ := eq_of_opened opened
    exact ⟨stored?, hread, fun key => SortedMap.get?_merge _ _ key⟩
  case entry =>
    rcases run_entry cs h with hstored | ⟨loaded, hloaded, hsame⟩
    · exact ⟨value.allFinite_of_checkPersistable hstored.persistable, .inl hstored⟩
    · have hfinite : value.AllFinite := by
        rw [← Value.allFinite_persisted, hsame, Value.allFinite_persisted]
        exact allFinite_of_opened opened hloaded
      refine ⟨hfinite, ?_⟩
      by_cases hadmissible : loaded.IsAdmissible key
      · exact .inl ((Value.isAdmissible_congr hsame).mpr hadmissible)
      · exact .inr ⟨loaded, hloaded, hadmissible, (Value.samePersisted_iff _ _).mpr hsame.symm⟩
  case regular =>
    rcases run_entry cs hget with hstored | ⟨loaded, hloaded, hsame⟩
    · exact hstored
    · exact (Value.isAdmissible_congr hsame).mpr (h key loaded hloaded)

/-- A seed that could not have been stored: an entry under the empty key, and a mixed array. -/
def looseSeed : String := "\x7b\"\": 1, \"a\": [1, \"x\"]\x7d"

/-- What is loaded from it. -/
def looseDocument : Document :=
  SortedMap.ofList [("", .int 1), ("a", .array [.int 1, .string "x"])]

/-- The store that is opened with it, in memory. -/
def loose : Workspace := { blank with store.entries := looseDocument }

/-- The entries of the seed are there, one of them cannot even be removed, and both stay. -/
theorem entries_admissible_or_loaded_loose :
    Workspace.opened
      { address := .named "s", seed? := some (Bytes.ofText looseSeed), inMemory := true }
      {} blank.media {} = .ok loose ∧
    loose.store.get? "" = some (.int 1) ∧
    loose.store.get? "a" = some (.array [.int 1, .string "x"]) ∧
    ¬ loose.store.IsRegular ∧ ¬ (∀ cs, (loose.run cs).2.store.IsRegular) ∧
    (loose.perform (.remove "")).1 = .refused .emptyKey ∧
    ∃ value, (loose.run [.putValue "" (.int 2), .remove "", .save]).2.store.get? "" = some value ∧
      value.AllFinite ∧ ¬ value.IsAdmissible "" := by
  have hdecode : Encoding.plain.decode (Bytes.ofText looseSeed) = .ok looseDocument :=
    Encoding.decode_ofText rfl (by decide +kernel)
  have hopened : Workspace.opened
      { address := .named "s", seed? := some (Bytes.ofText looseSeed), inMemory := true }
      {} blank.media {} = .ok loose := by
    have hseed :
        Encoding.plain.documentOrEmpty (some (Bytes.ofText looseSeed)) = looseDocument := by
      simp only [Encoding.documentOrEmpty, hdecode]
    show Except.ok _ = _
    simp only [Store.load, hseed]
    rfl
  obtain ⟨-, entries, regular⟩ := entries_admissible_or_loaded hopened
  have hloose : ¬ loose.store.IsRegular := fun h => (h "" (.int 1) rfl).key_ne_empty rfl
  refine ⟨hopened, rfl, rfl, hloose, fun h => hloose (regular.mp h), rfl, .int 1, rfl, ?_⟩
  exact ⟨(entries [.putValue "" (.int 2), .remove "", .save] "" (.int 1) rfl).1,
    fun hvalue => hvalue.key_ne_empty rfl⟩

end Workspace
end TypedConfig
