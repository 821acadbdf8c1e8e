/-
# A store shared by threads

Any number of threads call the operations of one store. Between two atomic steps
of a thread the others may take any number of steps: a step reads something, or is
a section under the write lock of the entries, or is one operation on the marks.
A save takes its steps one by one: it finds the store open, reads the set mark,
raises the write mark to it, waits for the lock that saves exclude each other by,
takes the document's bytes together with the set mark, publishes that mark, writes,
takes the write mark back if it could not, and lets go of the lock.

A medium may start or stop to fail at any time; a write that fails leaves it alone.

What a thread is about to do is its `Phase`. The steps that only read are
`Phase.look`, the sections that change the entries are `Phase.change`, and `Step`
adds to them the steps of a save.

Key definitions: `SavePhase`, `Phase`, `SharedStore`, `Effect`, `Step`, `Run`.
-/
import Mathlib
import TypedConfig.Store.Command

namespace TypedConfig

/-! ### What a thread is about to do -/

/-- How far a thread is in a save. -/
inductive SavePhase where
  /-- It found the store open. -/
  | admitted
  /-- It has read the set mark. -/
  | loaded (current : UInt64)
  /-- It raised the write mark from `previous`, and waits for the lock. -/
  | claimed (previous : UInt64)
  /-- It has the lock. -/
  | locked (previous : UInt64)
  /-- It has the bytes of the document, and the set mark that belongs to them. -/
  | snapped (previous snapshot : UInt64) (encoded : Except StoreError Bytes)
  /-- It raised the write mark to that of the bytes. -/
  | published (previous snapshot : UInt64) (encoded : Except StoreError Bytes)
  /-- It could not write. -/
  | failed (previous snapshot : UInt64) (reason : StoreError)
  /-- All that is left is to let go of the lock. -/
  | settled (result : Except StoreError Bool)

/-- What a thread is about to do. -/
inductive Phase where
  | idle
  /-- To look at the entry of a key, for a read. -/
  | reading (t : SettingType) (key : String) (default : t.Val)
  /-- To ask whether reads store defaults: what the entry was cannot be read at the type. -/
  | lacking (t : SettingType) (key : String) (default : t.Val) (found? : Option Value)
  /-- To put the default into the form in which values are kept. -/
  | defaulting (t : SettingType) (key : String) (default : t.Val) (found? : Option Value)
  /-- To store the default, unless the entry changed. -/
  | populating (t : SettingType) (key : String) (default : t.Val) (found? : Option Value)
      (value : Value)
  /-- To ask whether constants are kept resolved: the entry reads as `v`. -/
  | resolved (t : SettingType) (key : String) (v : t.Val) (found : Value)
  /-- To keep the resolved form, unless the entry changed. -/
  | caching (t : SettingType) (key : String) (v : t.Val) (found : Value)
  /-- To ask whether a value may be stored. -/
  | checking (key : String) (value : Value)
  | putting (key : String) (value : Value)
  /-- To ask whether there is an entry to remove. -/
  | seeking (key : String)
  | removing (key : String)
  | clearing
  | saving (p : SavePhase)
  /-- To give the answer to its caller. -/
  | done (reply : StoreReply)

namespace Store

/-- The part of storing a default that is done under the lock: whether a change was counted, and
the store. It is counted by what the read had found. -/
def populateSection (s : Store) (key : String) (found? : Option Value) (value : Value) :
    Bool × Store :=
  if s.isStill key found? then
    let changed := isChange found? value
    (changed, { s with
      entries := s.entries.insert key value
      marks := if changed then s.marks.markDirty else s.marks })
  else (false, s)

/-- The part of a removal that is done under the lock: the value that was there, and the store. -/
def removeSection (s : Store) (key : String) : Option Value × Store :=
  match s.get? key with
  | none => (none, s)
  | some value =>
    (some value, { s with entries := s.entries.erase key, marks := s.marks.markDirty })

/-- The part of clearing that is done under the lock. -/
def clearSection (s : Store) : Store :=
  { s with entries := SortedMap.empty, marks := s.marks.markDirty }

end Store

namespace Phase

/-- The first step of an operation: the options are set, the store is closed, or it is seen
whether it is open. -/
def begin (s : Store) : StoreCommand → Store × Phase
  | .get t key default =>
    (s, if key = "" ∨ s.closed then .done (.typed t default) else .reading t key default)
  | .put t key v => (s, .checking key (s.memoryForm t v))
  | .putValue key value => (s, .checking key value)
  | .remove key =>
    (s, match s.checkWritable key with
      | .error e => .done (.refused e)
      | .ok () => .seeking key)
  | .clear => (s, if s.closed then .done (.refused .closed) else .clearing)
  | .save => (s, if s.closed then .done (.refused .closed) else .saving .admitted)
  | .close => (s.close, .done .nothing)
  | .setAutoPopulate on => ({ s with autoPopulate := on }, .done .nothing)
  | .setEnumCache on => ({ s with enumCache := on }, .done .nothing)

/-- A step that only reads: what the thread is about to do then. -/
def look (s : Store) : Phase → Option Phase
  | .reading t key default =>
    match s.get? key with
    | none => some (.lacking t key default none)
    | some found =>
      match t.fromValue found with
      | .ok v => some (.resolved t key v found)
      | .error _ => some (.lacking t key default (some found))
  | .lacking t key default found? =>
    some (if s.autoPopulate then .defaulting t key default found? else .done (.typed t default))
  | .defaulting t key default found? =>
    let value := s.memoryForm t default
    some (if value.isPersistable then .populating t key default found? value
      else .done (.typed t default))
  | .resolved t key v found =>
    some (if s.enumCache then .caching t key v found else .done (.typed t v))
  | .checking key value =>
    match s.checkWritable key with
    | .error e => some (.done (.refused e))
    | .ok () =>
      match value.checkPersistable with
      | .error e => some (.done (.refused (.persistence e)))
      | .ok () => some (.putting key value)
  | .seeking key =>
    some (if (s.get? key).isSome then .removing key else .done (.removed none))
  | .saving .admitted => some (.saving (.loaded s.marks.set))
  | .done _ => some .idle
  | _ => none

/-- A section that may change the entries: whether a change was counted, the store, and what
the thread is about to do then. -/
def change (s : Store) : Phase → Option (Bool × Store × Phase)
  | .populating t key default found? value =>
    let (counted, stored) := s.populateSection key found? value
    some (counted, stored, .done (.typed t default))
  | .caching t key v found =>
    some (false, s.cacheResolved key found (t.toCachedValue v), .done (.typed t v))
  | .putting key value =>
    let (changed, stored) := s.setEntry key value
    some (changed, stored, .done (.changed changed))
  | .removing key =>
    let (value?, stored) := s.removeSection key
    some (value?.isSome, stored, .done (.removed value?))
  | .clearing => some (true, s.clearSection, .done .cleared)
  | _ => none

/-- What a claim leads to. -/
def afterClaim : Option UInt64 → Phase
  | some previous => .saving (.claimed previous)
  | none => .done (.saved false)

/-- What the end of a save leads to. -/
def afterSave : Except StoreError Bool → Phase
  | .ok wrote => .done (.saved wrote)
  | .error e => .done (.refused e)

end Phase

/-! ### Steps of the threads -/

/-- A store with its medium, the lock of its saves, and its threads by number. -/
structure SharedStore where
  store : Store
  medium : MemoryMedium
  /-- Who holds the lock. -/
  holder? : Option ℕ
  phase : ℕ → Phase

/-- The shared store in which thread `i` is about to do `p`. -/
def SharedStore.put (s : SharedStore) (i : ℕ) (p : Phase) : SharedStore :=
  { s with phase := Function.update s.phase i p }

/-- What is worth noting of a step. -/
inductive Effect where
  /-- A change was counted. -/
  | counted
  /-- A write of the bytes of set mark `snapshot` was tried. -/
  | wrote (snapshot : UInt64) (succeeded : Bool)
deriving DecidableEq

/-- The effect of a section. -/
def Effect.ofChange (counted : Bool) : List Effect := if counted then [.counted] else []

/-- One atomic step of a thread, or of the medium, with its effects. -/
inductive Step : SharedStore → List Effect → SharedStore → Prop
  /-- An operation is called. -/
  | begins {s : SharedStore} {i : ℕ} (c : StoreCommand) (h : s.phase i = .idle) :
    Step s [] ({ s with store := (Phase.begin s.store c).1 }.put i (Phase.begin s.store c).2)
  | looks {s : SharedStore} {i : ℕ} {p : Phase} (h : (s.phase i).look s.store = some p) :
    Step s [] (s.put i p)
  | changes {s : SharedStore} {i : ℕ} {counted : Bool} {store : Store} {p : Phase}
    (h : (s.phase i).change s.store = some (counted, store, p)) :
    Step s (Effect.ofChange counted) ({ s with store }.put i p)
  /-- The write mark is raised to the set mark that was read. -/
  | claims {s : SharedStore} {i : ℕ} {current : UInt64}
    (h : s.phase i = .saving (.loaded current)) :
    Step s [] ({ s with store.marks := (s.store.marks.claimAt current).2 }.put i
      (.afterClaim (s.store.marks.claimAt current).1))
  | locks {s : SharedStore} {i : ℕ} {previous : UInt64}
    (h : s.phase i = .saving (.claimed previous)) (free : s.holder? = none) :
    Step s [] ({ s with holder? := some i }.put i (.saving (.locked previous)))
  /-- The bytes and the set mark are taken under the read lock of the entries. -/
  | snaps {s : SharedStore} {i : ℕ} {previous : UInt64} (nonce : Nonce)
    (h : s.phase i = .saving (.locked previous)) :
    Step s [] (s.put i (.saving (.snapped previous s.store.marks.set (s.store.encoded nonce))))
  | publishes {s : SharedStore} {i : ℕ} {previous snapshot : UInt64}
    {encoded : Except StoreError Bytes}
    (h : s.phase i = .saving (.snapped previous snapshot encoded)) :
    Step s [] ({ s with store.marks := s.store.marks.publish snapshot }.put i
      (.saving (.published previous snapshot encoded)))
  | writes {s : SharedStore} {i : ℕ} {previous snapshot : UInt64} {bytes : Bytes}
    {medium : MemoryMedium} (h : s.phase i = .saving (.published previous snapshot (.ok bytes)))
    (written : s.medium.write bytes = .ok medium) :
    Step s [.wrote snapshot true] ({ s with medium }.put i (.saving (.settled (.ok true))))
  | misses {s : SharedStore} {i : ℕ} {previous snapshot : UInt64} {bytes : Bytes}
    {e : MediumError} (h : s.phase i = .saving (.published previous snapshot (.ok bytes)))
    (written : s.medium.write bytes = .error e) :
    Step s [.wrote snapshot false] (s.put i
      (.saving (.failed previous snapshot (.medium s.store.location e))))
  /-- There are no bytes to write. -/
  | givesUp {s : SharedStore} {i : ℕ} {previous snapshot : UInt64} {e : StoreError}
    (h : s.phase i = .saving (.published previous snapshot (.error e))) :
    Step s [] (s.put i (.saving (.failed previous snapshot e)))
  | rollsBack {s : SharedStore} {i : ℕ} {previous snapshot : UInt64} {e : StoreError}
    (h : s.phase i = .saving (.failed previous snapshot e)) :
    Step s [] ({ s with store.marks := s.store.marks.rollback snapshot previous }.put i
      (.saving (.settled (.error e))))
  | releases {s : SharedStore} {i : ℕ} {result : Except StoreError Bool}
    (h : s.phase i = .saving (.settled result)) :
    Step s [] ({ s with holder? := none }.put i (.afterSave result))
  /-- The medium starts or stops to fail. -/
  | turns {s : SharedStore} (fails : Bool) : Step s [] { s with medium.failWrites := fails }

/-- Steps of any threads in any order, with their effects, the last one first. -/
inductive Run (start : SharedStore) : List Effect → SharedStore → Prop
  | start : Run start [] start
  | step {es fs : List Effect} {s s' : SharedStore} (run : Run start es s) (step : Step s fs s') :
    Run start (fs ++ es) s'

/-- A store that was just opened: no change is counted, and no thread is at work. -/
structure SharedStore.Fresh (s : SharedStore) : Prop where
  marks : s.store.marks = {}
  unlocked : s.holder? = none
  idle : ∀ i, s.phase i = .idle

/-! ### The phase of one thread -/

namespace SharedStore

theorem put_put (s : SharedStore) (i : ℕ) (p q : Phase) : (s.put i p).put i q = s.put i q := by
  simp [put]

@[simp] theorem put_phase (s : SharedStore) (i : ℕ) (p : Phase) : (s.put i p).phase i = p := by
  simp [put]

theorem put_phase_of_ne (s : SharedStore) {i j : ℕ} (h : j ≠ i) (p : Phase) :
    (s.put i p).phase j = s.phase j := by
  simp [put, h]

@[simp] theorem put_store (s : SharedStore) (i : ℕ) (p : Phase) : (s.put i p).store = s.store := rfl

@[simp] theorem put_medium (s : SharedStore) (i : ℕ) (p : Phase) : (s.put i p).medium = s.medium := rfl

@[simp] theorem put_holder? (s : SharedStore) (i : ℕ) (p : Phase) :
    (s.put i p).holder? = s.holder? := rfl

end SharedStore

end TypedConfig
