/-
# Settings that are in use

A setting is a sound declaration together with those who listen to it. It reads
and writes one key of a store: a read falls back to the declared default, and a
write first checks the constraints, so a value that they refuse never reaches the
store. A write tells what became of it in at most one event, which is its last
effect.

Key definitions: `Setting`, `SettingError`, `Setting.read`, `Setting.current`,
`WriteOutcome`, `Setting.assign`, `Setting.assignValue`, `Setting.reset`.
-/
import TypedConfig.Registry.Event
import TypedConfig.Schema.Declaration
import TypedConfig.Store.Typed

namespace TypedConfig

/-- Why a setting is not read or written. -/
inductive SettingError where
  | unknownKey (key : String)
  /-- The setting of the key was declared with another type. -/
  | otherType (key expected : String) (actual : Variant)
  | validation (key : String) (reason : ValidationError)
  | conversion (key : String) (reason : ConversionError)
  | store (reason : StoreError)

namespace SettingError

/-- The wording of a setting error. -/
def message : SettingError → String
  | .unknownKey key => "no handler registered for key " ++ quoted key
  | .otherType key expected actual =>
    "key " ++ quoted key ++ " holds " ++ actual.text ++ " values, not " ++ expected
  | .validation key reason => "invalid value for " ++ quoted key ++ ": " ++ reason.message
  | .conversion key reason =>
    "value for " ++ quoted key ++ " cannot be converted: " ++ reason.message
  | .store reason => reason.message

/-- Whether the value itself was not acceptable. -/
def isValidation : SettingError → Bool
  | .validation _ _ => true
  | .conversion _ _ => true
  | _ => false

/-- Whether the medium failed. -/
def isMedium : SettingError → Bool
  | .store reason => reason.isMedium
  | _ => false

end SettingError

/-- A declared setting in use. -/
structure Setting (t : SettingType) where
  declaration : Declaration t
  /-- Only a sound declaration is used. -/
  sound : declaration.check = .ok ()
  /-- Whether its event of being set up went out. -/
  initialized : Bool := false
  /-- Who listens to this setting alone. -/
  listeners : Listeners := {}

/-- What became of a write: its result, the store after it, and the event to report. -/
structure WriteOutcome where
  result : Except SettingError Unit
  store : Store
  event? : Option Event := none

namespace Setting

variable {t : SettingType}

/-- The key of the setting. -/
def key (s : Setting t) : String := s.declaration.key

/-- The value of a setting that was not written yet. -/
def default (s : Setting t) : t.Val := s.declaration.default

/-- Sets the setting up: the event goes out the first time. -/
def initializing (s : Setting t) : Option Event × Setting t :=
  if s.initialized then (none, s)
  else (some (.initialized s.key t.variant), { s with initialized := true })

/-! ### Values -/

/-- Reads the value. The default may be stored by this. -/
def read (s : Setting t) (store : Store) : t.Val × Store := store.get t s.key s.default

/-- The value as it stands, without storing anything. -/
def current (s : Setting t) (store : Store) : t.Val :=
  match store.get? s.key with
  | none => s.default
  | some value =>
    match t.fromValue value with
    | .ok v => v
    | .error _ => s.default

/-- Whether a value meets the constraints. -/
def validate (s : Setting t) (v : t.Val) : Except ValidationError Unit :=
  t.validateAll v s.declaration.constraints

/-- Whether the value as it stands equals the default. -/
def isDefault (s : Setting t) (store : Store) : Bool := t.isEqual (s.current store) s.default

/-- Stores a value that meets the constraints. -/
def assign (s : Setting t) (store : Store) (v : t.Val) : WriteOutcome :=
  match s.validate v with
  | .error reason =>
    { result := .error (.validation s.key reason)
      store := store
      event? := some (.rejected s.key t.variant (t.toValue v) reason) }
  | .ok () =>
    match store.put t s.key v with
    | .error reason => { result := .error (.store reason), store := store }
    | .ok (_, stored) =>
      { result := .ok ()
        store := stored
        event? := some (.updated s.key t.variant (t.toValue (s.current store)) (t.toValue v)) }

/-- Stores a value that reads at the setting's type. -/
def assignValue (s : Setting t) (store : Store) (value : Value) : WriteOutcome :=
  match t.fromValue value with
  | .error reason => { result := .error (.conversion s.key reason), store := store }
  | .ok v => s.assign store v

/-- Stores the default. -/
def reset (s : Setting t) (store : Store) : WriteOutcome := s.assign store s.default

/-! ### What a form needs to know -/

/-- The range of the first constraint on integers. -/
def intRange? (s : Setting t) : Option IntRange :=
  s.declaration.constraints.findSome? fun
    | .int r => some r
    | .float _ => none

/-- The range of the first constraint on floats. -/
def floatRange? (s : Setting t) : Option FloatRange :=
  s.declaration.constraints.findSome? fun
    | .int _ => none
    | .float r => some r

/-- By how much an input field counts up: the step of the integer range, or else of the float
range. -/
def step? (s : Setting t) : Option Binary64 :=
  match s.intRange? with
  | some r => some (Binary.ofInt r.step.toInt)
  | none => s.floatRange?.map fun r => r.step

/-- A setting in debugging text. -/
def debugText (s : Setting t) : String :=
  "KeyHandler \x7b key: " ++ quoted s.key ++ ", variant: " ++ t.variant.debugText
    ++ ", default: " ++ t.debugText s.default
    ++ ", constraints: " ++ bracketed (s.declaration.constraints.map Constraint.debugText)
    ++ ", initialized: " ++ Value.boolText s.initialized ++ " \x7d"

end Setting

end TypedConfig
