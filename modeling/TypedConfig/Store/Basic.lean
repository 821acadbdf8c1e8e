/-
# Stores

A store holds a document in memory together with the marks that tell whether it
was written since it last changed. Every change to one entry goes through
`Store.setEntry`, which counts a change only if the entry is written differently
afterwards. A closed store can be read and refuses everything else.

Key definitions: `Store`, `StoreError`, `Store.setEntry`, `Store.putValue`,
`Store.remove`, `Store.clear`, `Store.close`.
-/
import TypedConfig.Medium.Basic
import TypedConfig.Settings.Basic
import TypedConfig.Store.Marks
import TypedConfig.Value.Persistable

namespace TypedConfig

/-- Why a store refuses. -/
inductive StoreError where
  | emptyKey
  | closed
  | persistence (reason : PersistenceError)
  | document (reason : DocumentError)
  | settings (reason : SettingsError)
  | medium (location : Location) (reason : MediumError)

namespace StoreError

/-- The wording of a store error. -/
def message : StoreError → String
  | .emptyKey => "configuration keys must not be empty"
  | .closed => "store is closed"
  | .persistence reason => reason.message
  | .document reason => reason.message
  | .settings reason => reason.message
  | .medium location reason =>
    "I/O error accessing store at " ++ location.text ++ ": " ++ reason.message

/-- Whether the medium failed. -/
def isMedium : StoreError → Bool
  | .medium _ _ => true
  | _ => false

end StoreError

/-- A document in memory, with what is needed to write it back. -/
structure Store where
  name : String
  /-- Where the document is read from and written to. -/
  location : Location
  encoding : Encoding
  entries : Document := SortedMap.empty
  marks : DirtyMarks := {}
  /-- Whether reading an absent or unreadable entry stores the default. -/
  autoPopulate : Bool := true
  /-- Whether constants are kept resolved in memory. -/
  enumCache : Bool := false
  closed : Bool := false

namespace Store

/-! ### Reading -/

/-- The stored value of a key. -/
def get? (s : Store) (key : String) : Option Value := s.entries.get? key

/-- The number of entries. -/
def size (s : Store) : Nat := s.entries.size

/-- Whether the next save has something to write. -/
def isDirty (s : Store) : Bool := !s.marks.isClean

/-- The entries as readable text, in key order. -/
def jsonText (s : Store) : String := String.ofList (s.entries.json .pretty)

/-- A store in debugging text. -/
def debugText (s : Store) : String :=
  "ConfigStore \x7b name: " ++ quoted s.name ++ ", location: " ++ quoted s.location.text
    ++ ", plain: " ++ Value.boolText s.encoding.isPlain
    ++ ", entries: " ++ NumberStyle.naturalText s.size
    ++ ", set_mark: " ++ NumberStyle.naturalText s.marks.set.toNat
    ++ ", write_mark: " ++ NumberStyle.naturalText s.marks.write.toNat
    ++ ", closed: " ++ Value.boolText s.closed ++ " \x7d"

/-! ### Writing -/

/-- Whether an entry is written differently once `value` takes its place. -/
def isChange (stored? : Option Value) (value : Value) : Bool :=
  match stored? with
  | some stored => !stored.samePersisted value
  | none => true

/-- Puts a value under a key, and counts a change if the entry is then written differently. The
value in memory is replaced either way. -/
def setEntry (s : Store) (key : String) (value : Value) : Bool × Store :=
  let changed := isChange (s.get? key) value
  (changed, { s with
    entries := s.entries.insert key value
    marks := if changed then s.marks.markDirty else s.marks })

/-- Whether a key can be written: it is not empty, and the store is open. -/
def checkWritable (s : Store) (key : String) : Except StoreError Unit :=
  if key = "" then .error .emptyKey
  else if s.closed then .error .closed
  else .ok ()

/-- Stores a value. Says whether the entry is written differently than before. -/
def putValue (s : Store) (key : String) (value : Value) : Except StoreError (Bool × Store) :=
  match s.checkWritable key with
  | .error e => .error e
  | .ok () =>
    match value.checkPersistable with
    | .error e => .error (.persistence e)
    | .ok () => .ok (s.setEntry key value)

/-- Takes a key out. Gives the value that it had. -/
def remove (s : Store) (key : String) : Except StoreError (Option Value × Store) :=
  match s.checkWritable key with
  | .error e => .error e
  | .ok () =>
    match s.get? key with
    | none => .ok (none, s)
    | some value =>
      .ok (some value, { s with entries := s.entries.erase key, marks := s.marks.markDirty })

/-- Takes all keys out. This counts as a change even where there were none. -/
def clear (s : Store) : Except StoreError Store :=
  if s.closed then .error .closed
  else .ok { s with entries := SortedMap.empty, marks := s.marks.markDirty }

/-- Closes the store for good. -/
def close (s : Store) : Store := { s with closed := true }

end Store

end TypedConfig
