/-
# Stores without a trace of the cache

A store is projected onto one that has the cache of constants off and the names of its
constants in their place. Every operation on the store is the same operation on its
projection, with the same answer but for raw values, which are projected too
(`Workspace.perform_uncached`), unless it turns the cache on or off.

Key definitions: `Document.uncached`, `Store.uncached`, `Workspace.uncached`,
`StoreCommand.uncached`, `StoreReply.uncached`.
Key theorems: `Store.get_uncached`, `Store.save_uncached`, `Workspace.perform_uncached`.
-/
import Mathlib
import TypedConfig.Proofs.Document.Decoded
import TypedConfig.Proofs.Schema.Uncached
import TypedConfig.Proofs.Store.Saving
import TypedConfig.Store.Command

namespace TypedConfig

/-! ### Documents -/

namespace Document

/-- The document with the names of its constants in their place. -/
def uncached (d : Document) : Document := d.mapValues Value.uncached

theorem get?_uncached (d : Document) (key : String) :
    d.uncached.get? key = (d.get? key).map Value.uncached :=
  SortedMap.get?_mapValues _ d key

theorem uncached_insert (d : Document) (key : String) (v : Value) :
    uncached (d.insert key v) = (uncached d).insert key v.uncached :=
  SortedMap.mapValues_insert _ d key v

theorem uncached_erase (d : Document) (key : String) :
    uncached (d.erase key) = (uncached d).erase key :=
  SortedMap.mapValues_erase _ d key

theorem persisted_uncached (d : Document) : persisted (uncached d) = persisted d := by
  refine SortedMap.ext_get? fun key => ?_
  rw [get?_persisted, get?_uncached, get?_persisted, Option.map_map]
  cases d.get? key with
  | none => rfl
  | some v => exact congrArg some v.persisted_uncached

theorem uncached_persisted (d : Document) : uncached (persisted d) = persisted d := by
  refine SortedMap.ext_get? fun key => ?_
  rw [get?_uncached, get?_persisted, Option.map_map]
  cases d.get? key with
  | none => rfl
  | some v => exact congrArg some v.uncached_persisted

/-- A document has the bytes of its projection. -/
theorem encode_uncached (encoding : Encoding) (nonce : Nonce) (d : Document) :
    encoding.encode nonce (uncached d) = encoding.encode nonce d :=
  ((writtenAlike_iff _ _).mpr (persisted_uncached d)).encode_eq encoding nonce

theorem writtenAlike_of_uncached_eq {d e : Document} (h : uncached d = uncached e) :
    WrittenAlike d e := by
  rw [writtenAlike_iff, ← persisted_uncached d, h, persisted_uncached]

end Document

/-! ### Stores -/

namespace Store

/-- The store with its cache off and the names of its constants in their place. -/
def uncached (s : Store) : Store := { s with entries := s.entries.uncached, enumCache := false }

@[simp] theorem uncached_closed (s : Store) : s.uncached.closed = s.closed := rfl

@[simp] theorem uncached_marks (s : Store) : s.uncached.marks = s.marks := rfl

@[simp] theorem uncached_autoPopulate (s : Store) : s.uncached.autoPopulate = s.autoPopulate := rfl

theorem get?_uncached (s : Store) (key : String) :
    s.uncached.get? key = (s.get? key).map Value.uncached :=
  Document.get?_uncached s.entries key

theorem memoryForm_uncached (s : Store) {t : SettingType} (words : t.NamesAreWords) (v : t.Val) :
    (s.memoryForm t v).uncached = t.toValue v := by
  unfold memoryForm
  split
  · exact t.toCachedValue_uncached words v
  · exact t.toValue_uncached v

/-! ### Writing -/

theorem isChange_uncached (stored? : Option Value) (value : Value) :
    isChange (stored?.map Value.uncached) value.uncached = isChange stored? value := by
  cases stored? with
  | none => rfl
  | some stored => simp only [Option.map_some, isChange, Value.samePersisted_uncached]

theorem setEntry_uncached (s : Store) (key : String) (value : Value) :
    s.uncached.setEntry key value.uncached =
      ((s.setEntry key value).1, (s.setEntry key value).2.uncached) := by
  have hchange : isChange (s.uncached.get? key) value.uncached = isChange (s.get? key) value := by
    rw [get?_uncached, isChange_uncached]
  simp only [setEntry, hchange]
  simp only [uncached, Document.uncached_insert]

theorem checkWritable_uncached (s : Store) (key : String) :
    s.uncached.checkWritable key = s.checkWritable key := rfl

theorem putValue_uncached (s : Store) (key : String) (value : Value) :
    s.uncached.putValue key value.uncached =
      (s.putValue key value).map fun p => (p.1, p.2.uncached) := by
  simp only [putValue, checkWritable_uncached, Value.checkPersistable_uncached, setEntry_uncached]
  split
  · rfl
  · split <;> rfl

theorem put_uncached (s : Store) {t : SettingType} (words : t.NamesAreWords) (key : String)
    (v : t.Val) :
    s.uncached.put t key v = (s.put t key v).map fun p => (p.1, p.2.uncached) := by
  have hform : s.uncached.memoryForm t v = (s.memoryForm t v).uncached :=
    (s.memoryForm_uncached words v).symm
  rw [put, hform, putValue_uncached, put]

theorem remove_uncached (s : Store) (key : String) :
    s.uncached.remove key =
      (s.remove key).map fun p => (p.1.map Value.uncached, p.2.uncached) := by
  simp only [remove, checkWritable_uncached, get?_uncached]
  split
  · rfl
  · cases s.get? key with
    | none => rfl
    | some value =>
      simp only [Option.map_some, Except.map, uncached, Document.uncached_erase]

theorem clear_uncached (s : Store) : s.uncached.clear = s.clear.map uncached := by
  unfold clear
  rw [uncached_closed]
  cases s.closed <;> rfl

/-! ### Typed reading -/

/-- What a read found still is there, unless it holds a float that differs from itself. -/
theorem isStill_uncached (s : Store) (key : String) :
    s.uncached.isStill key (s.uncached.get? key) = s.isStill key (s.get? key) := by
  simp only [isStill, get?_uncached]
  cases s.get? key with
  | none => rfl
  | some found => exact found.isEqual_self_uncached

theorem populate_uncached (s : Store) {t : SettingType} (words : t.NamesAreWords) (key : String)
    (default : t.Val) :
    s.uncached.populate t key (s.uncached.get? key) default =
      (s.populate t key (s.get? key) default).uncached := by
  have hform : s.uncached.memoryForm t default = (s.memoryForm t default).uncached :=
    (s.memoryForm_uncached words default).symm
  simp only [populate, hform, Value.isPersistable_uncached, isStill_uncached, setEntry_uncached]
  exact (apply_ite uncached _ _ _).symm

/-- Keeping a resolved form is not seen in the projection. -/
theorem cacheResolved_uncached (s : Store) {t : SettingType} (words : t.NamesAreWords)
    {key : String} {found : Value} (hfound : s.get? key = some found) (v : t.Val) :
    (s.cacheResolved key found (t.toCachedValue v)).uncached = s.uncached := by
  unfold cacheResolved
  split
  · rename_i h
    obtain ⟨hholds, -, hsame, -⟩ := h
    have hpersisted : found.persisted = t.toValue v := by
      rw [← (Value.samePersisted_iff _ _).mp hsame, t.toCachedValue_persisted]
    have hnamed := t.isNamed_of_holdsConstant v hholds
    have huncached : found.uncached = t.toValue v :=
      (t.uncached_eq_of_persisted_eq hnamed words v found hpersisted).trans hpersisted
    have hentry : s.entries.uncached.get? key = some (t.toValue v) := by
      rw [← huncached]
      exact (s.get?_uncached key).trans (congrArg (Option.map Value.uncached) hfound)
    simp only [uncached, Document.uncached_insert, t.toCachedValue_uncached words]
    rw [SortedMap.insert_eq_self hentry]
  · rfl

/-- **A typed read is that of the projection.** -/
theorem get_uncached (s : Store) {t : SettingType} (words : t.NamesAreWords) (key : String)
    (default : t.Val) :
    s.uncached.get t key default =
      ((s.get t key default).1, (s.get t key default).2.uncached) := by
  have hpopulate := s.populate_uncached words key default
  unfold get
  rw [uncached_closed]
  split
  · rfl
  · cases hfound : s.get? key with
    | none =>
      have hfound' : s.uncached.get? key = none := by rw [get?_uncached, hfound]; rfl
      rw [hfound, hfound'] at hpopulate
      simp only [hfound', uncached_autoPopulate, hpopulate]
      split <;> rfl
    | some found =>
      have hfound' : s.uncached.get? key = some found.uncached := by rw [get?_uncached, hfound]; rfl
      rw [hfound, hfound'] at hpopulate
      simp only [hfound', uncached_autoPopulate]
      rcases t.fromValue_uncached_cases found with ⟨v, hv, hv'⟩ | ⟨e, e', he, he'⟩
      · -- the projection keeps no resolved form, and does not see one kept
        simp only [hv, hv']
        refine Prod.ext rfl ?_
        show s.uncached = _
        dsimp only
        split
        · exact (s.cacheResolved_uncached words hfound v).symm
        · rfl
      · simp only [he, he', hpopulate]
        split <;> rfl

/-! ### Saving -/

theorem encoded_uncached (s : Store) (nonce : Nonce) :
    s.uncached.encoded nonce = s.encoded nonce := by
  simp only [encoded, uncached, Document.encode_uncached]

theorem save_uncached (s : Store) (nonce : Nonce) (media : Media) :
    s.uncached.save nonce media =
      ((s.save nonce media).1, (s.save nonce media).2.1.uncached, (s.save nonce media).2.2) := by
  rcases hsave : s.save nonce media with ⟨result, s', media'⟩
  cases s.saveEnd nonce media hsave with
  | closed h => exact save_of_closed (s := s.uncached) h
  | clean h clean => exact save_of_clean (s := s.uncached) h clean
  | unencodable h dirty henc =>
    rw [← encoded_uncached] at henc
    exact save_of_unencodable (s := s.uncached) h dirty henc
  | failed h dirty henc hwrite =>
    rw [← encoded_uncached] at henc
    exact save_of_failed (s := s.uncached) h dirty henc hwrite
  | written h dirty henc hwrite =>
    rw [← encoded_uncached] at henc
    exact save_of_written (s := s.uncached) h dirty henc hwrite

end Store

/-! ### Commands -/

/-- The command on projected values. -/
def StoreCommand.uncached : StoreCommand → StoreCommand
  | .putValue key value => .putValue key value.uncached
  | c => c

/-- The answer with a raw value projected. -/
def StoreReply.uncached : StoreReply → StoreReply
  | .removed value? => .removed (value?.map Value.uncached)
  | reply => reply

/-- No constant of the types in a command has a name that spells an integer. -/
def StoreCommand.NamesAreWords : StoreCommand → Prop
  | .get t _ _ => t.NamesAreWords
  | .put t _ _ => t.NamesAreWords
  | _ => True

namespace Workspace

/-- The workspace with its store projected. -/
def uncached (w : Workspace) : Workspace := { w with store := w.store.uncached }

theorem settled_uncached {α β : Type} (w : Workspace) {reply : α → StoreReply}
    {reply' : β → StoreReply} {f : α → β} (r : Except StoreError (α × Store))
    (hreply : ∀ a, reply' (f a) = (reply a).uncached) :
    w.uncached.settled reply' (r.map fun p => (f p.1, p.2.uncached)) =
      ((w.settled reply r).1.uncached, (w.settled reply r).2.uncached) := by
  cases r with
  | error e => rfl
  | ok p =>
    simp only [Except.map, settled, hreply]
    rfl

theorem save_uncached (w : Workspace) :
    w.uncached.save = (w.save.1, w.save.2.uncached) := by
  have h := w.store.save_uncached w.nonces.next.1 w.media
  simp only [save, uncached, h]

/-- **An operation on the store is that on its projection.** -/
theorem perform_uncached (w : Workspace) {c : StoreCommand} (words : c.NamesAreWords)
    (hc : ∀ on, c ≠ .setEnumCache on) :
    w.uncached.perform c.uncached = ((w.perform c).1.uncached, (w.perform c).2.uncached) := by
  cases c with
  | get t key default =>
    have h := w.store.get_uncached words key default
    simp only [StoreCommand.uncached, perform, uncached, h]
    rfl
  | put t key v =>
    simp only [StoreCommand.uncached, perform]
    rw [← w.settled_uncached (f := id) (w.store.put t key v) fun _ => rfl]
    exact congrArg _ (w.store.put_uncached words key v)
  | putValue key value =>
    simp only [StoreCommand.uncached, perform]
    rw [← w.settled_uncached (f := id) (w.store.putValue key value) fun _ => rfl]
    exact congrArg _ (w.store.putValue_uncached key value)
  | remove key =>
    simp only [StoreCommand.uncached, perform]
    rw [← w.settled_uncached (f := Option.map Value.uncached) (w.store.remove key) fun _ => rfl]
    exact congrArg _ (w.store.remove_uncached key)
  | clear =>
    simp only [StoreCommand.uncached, perform]
    have hclear : w.uncached.store.clear = w.store.clear.map Store.uncached :=
      w.store.clear_uncached
    rw [hclear]
    cases w.store.clear <;> rfl
  | save =>
    simp only [StoreCommand.uncached, perform, save_uncached]
    rcases w.save with ⟨result, saved⟩
    cases result <;> rfl
  | close => rfl
  | setAutoPopulate on => rfl
  | setEnumCache on => exact absurd rfl (hc on)

end Workspace
end TypedConfig
