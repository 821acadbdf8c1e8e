/-
# Registries of settings

A registry holds the settings of one store, each under its key. Each key has at
most one, whose type never changes. The untyped operations find the setting of a
key whatever its type; the typed ones ask for the type too.

Key definitions: `AnySetting`, `Registry`, `Registry.register`, `Registry.find`,
`Registry.setting`, `Registry.assignValue`.
-/
import TypedConfig.Registry.Setting

namespace TypedConfig

/-- A setting of some type. -/
structure AnySetting where
  type : SettingType
  setting : Setting type

/-- The key of a setting. -/
def AnySetting.key (s : AnySetting) : String := s.setting.key

/-- The settings over one store. -/
structure Registry where
  name : String
  settings : SortedMap AnySetting := SortedMap.empty
  /-- Who listens to all settings. -/
  listeners : Listeners := {}
  /-- A setting stands under its own key. -/
  keyed : ∀ key s, settings.get? key = some s → s.key = key := by simp

namespace Registry

/-- Puts a setting in its place. -/
def place (r : Registry) (s : AnySetting) : Registry :=
  { r with
    settings := r.settings.insert s.key s
    keyed := fun key found h => by
      rw [SortedMap.get?_insert] at h
      split at h
      · rename_i hk
        cases h
        exact hk
      · exact r.keyed key found h }

/-- Takes a declaration in: it must be sound, and its key must be free. -/
def register (r : Registry) {t : SettingType} (d : Declaration t) :
    Except SchemaError (Setting t × Registry) :=
  match h : d.check with
  | .error e => .error e
  | .ok () =>
    if r.settings.contains d.key then .error (.duplicateKey d.key)
    else
      let s : Setting t := { declaration := d, sound := h }
      .ok (s, r.place ⟨t, s⟩)

/-- The keys of the settings, in order. -/
def keys (r : Registry) : List String := r.settings.keys

/-- The setting of a key. -/
def find (r : Registry) (key : String) : Except SettingError AnySetting :=
  orError (.unknownKey key) (r.settings.get? key)

/-- The setting of a key, which must have been declared with this type. -/
def setting (r : Registry) (t : SettingType) (key : String) : Except SettingError (Setting t) :=
  match r.find key with
  | .error e => .error e
  | .ok s =>
    if h : s.type = t then .ok (h ▸ s.setting)
    else .error (.otherType key t.typeName s.type.variant)

/-! ### Values by their keys -/

/-- Reads a setting of any type. -/
def readValue (r : Registry) (store : Store) (key : String) : Except SettingError (Value × Store) :=
  match r.find key with
  | .error e => .error e
  | .ok s =>
    let (v, store) := s.setting.read store
    .ok (s.type.toValue v, store)

/-- Writes a setting of any type. -/
def assignValue (r : Registry) (store : Store) (key : String) (value : Value) : WriteOutcome :=
  match r.find key with
  | .error e => { result := .error e, store := store }
  | .ok s => s.setting.assignValue store value

/-- Stores the default of a setting of any type. -/
def reset (r : Registry) (store : Store) (key : String) : WriteOutcome :=
  match r.find key with
  | .error e => { result := .error e, store := store }
  | .ok s => s.setting.reset store

/-- Writes a setting of a given type. -/
def assign (r : Registry) (store : Store) (t : SettingType) (key : String) (v : t.Val) :
    WriteOutcome :=
  match r.setting t key with
  | .error e => { result := .error e, store := store }
  | .ok s => s.assign store v

/-! ### Listeners -/

/-- Who hears of an event that a setting reports: first those who listen to the setting. -/
def settingListeners (r : Registry) (key : String) : Listeners :=
  match r.settings.get? key with
  | some s => s.setting.listeners
  | none => {}

/-- A registry in debugging text. -/
def debugText (r : Registry) : String :=
  "StorageHandler \x7b name: " ++ quoted r.name ++ ", keys: " ++ bracketed (r.keys.map quoted)
    ++ " \x7d"

end Registry

end TypedConfig
