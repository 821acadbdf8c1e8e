/-
# Typed reading and writing

A typed read never fails: where an entry is absent or cannot be read at the type,
the answer is the caller's default, which is stored too if the store populates
itself. With the cache of constants on, a read leaves the constants of its answer
resolved in memory. This is written alike, so it is no change.

Both stores of a read happen only if the entry is still the one that was read.

Key definitions: `Store.memoryForm`, `Store.populate`, `Store.cacheResolved`,
`Store.get`, `Store.put`.
-/
import TypedConfig.Store.Basic

namespace TypedConfig
namespace Store

/-- The form in which a typed value is kept in memory. -/
def memoryForm (s : Store) (t : SettingType) (v : t.Val) : Value :=
  if s.enumCache then t.toCachedValue v else t.toValue v

/-- Whether the entry of a key still is what a read found: as absent, or equal to it. -/
def isStill (s : Store) (key : String) (found? : Option Value) : Bool :=
  match s.get? key, found? with
  | none, none => true
  | some value, some found => value.isEqual found
  | _, _ => false

/-- Stores a default where a read found `found?`, if it can be written and the entry is still
the same. -/
def populate (s : Store) (t : SettingType) (key : String) (found? : Option Value)
    (default : t.Val) : Store :=
  let value := s.memoryForm t default
  if value.isPersistable ∧ s.isStill key found? then (s.setEntry key value).2 else s

/-- Keeps the resolved form of what a read found, if it holds a constant, is another value in
memory but written alike, and the entry is still the same. -/
def cacheResolved (s : Store) (key : String) (found resolved : Value) : Store :=
  if resolved.holdsConstant ∧ !resolved.isEqual found ∧ resolved.samePersisted found
      ∧ s.isStill key (some found) then
    { s with entries := s.entries.insert key resolved }
  else s

/-- Reads a key at a type. An empty key or a closed store gives the default and changes
nothing. -/
def get (s : Store) (t : SettingType) (key : String) (default : t.Val) : t.Val × Store :=
  if key = "" ∨ s.closed then (default, s)
  else
    match s.get? key with
    | none => (default, if s.autoPopulate then s.populate t key none default else s)
    | some found =>
      match t.fromValue found with
      | .ok v => (v, if s.enumCache then s.cacheResolved key found (t.toCachedValue v) else s)
      | .error _ => (default, if s.autoPopulate then s.populate t key (some found) default else s)

/-- Stores a typed value. Says whether the entry is written differently than before. -/
def put (s : Store) (t : SettingType) (key : String) (v : t.Val) :
    Except StoreError (Bool × Store) :=
  s.putValue key (s.memoryForm t v)

end Store
end TypedConfig
