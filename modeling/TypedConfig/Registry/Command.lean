/-
# Commands to a registry

The operations on a registry of settings as data. Each acts on the registry and
its workspace, and reports at most one event, which is its last effect: whoever
listens sees the state after the operation.

Key definitions: `RegistryCommand`, `RegistryReply`, `RegistryStep`,
`Registry.perform`.
-/
import TypedConfig.Registry.Basic
import TypedConfig.Store.Command

namespace TypedConfig

/-- An operation on a registry. -/
inductive RegistryCommand where
  | register (t : SettingType) (d : Declaration t)
  /-- Sets a setting up again, which does nothing. -/
  | initializing (t : SettingType) (key : String)
  | read (t : SettingType) (key : String)
  | assign (t : SettingType) (key : String) (v : t.Val)
  | resetTyped (t : SettingType) (key : String)
  | readValue (key : String)
  | assignValue (key : String) (value : Value)
  | reset (key : String)
  | save

/-- What an operation on a registry answers. -/
inductive RegistryReply where
  | registered (t : SettingType) (s : Setting t)
  | typed (t : SettingType) (v : t.Val)
  | value (v : Value)
  | accepted
  | saved (yes : Bool)
  | unsound (reason : SchemaError)
  | refused (reason : SettingError)

/-- What became of an operation. -/
structure RegistryStep where
  reply : RegistryReply
  registry : Registry
  workspace : Workspace
  event? : Option Event := none

namespace Registry

/-- The step of a write. -/
def written (r : Registry) (w : Workspace) (o : WriteOutcome) : RegistryStep :=
  { reply := match o.result with
      | .ok () => .accepted
      | .error e => .refused e
    registry := r
    workspace := { w with store := o.store }
    event? := o.event? }

/-- The step of an operation that is refused. -/
def refused (r : Registry) (w : Workspace) (e : SettingError) : RegistryStep :=
  { reply := .refused e, registry := r, workspace := w }

/-- Carries out an operation. -/
def perform (r : Registry) (w : Workspace) : RegistryCommand → RegistryStep
  | .register t d =>
    match r.register d with
    | .error e => { reply := .unsound e, registry := r, workspace := w }
    | .ok (s, r) =>
      let (event?, s) := s.initializing
      { reply := .registered t s, registry := r.place ⟨t, s⟩, workspace := w, event? }
  | .initializing t key =>
    match r.setting t key with
    | .error e => r.refused w e
    | .ok s =>
      let (event?, s) := s.initializing
      { reply := .accepted, registry := r.place ⟨t, s⟩, workspace := w, event? }
  | .read t key =>
    match r.setting t key with
    | .error e => r.refused w e
    | .ok s =>
      let (v, store) := s.read w.store
      { reply := .typed t v, registry := r, workspace := { w with store } }
  | .assign t key v => r.written w (r.assign w.store t key v)
  | .resetTyped t key =>
    match r.setting t key with
    | .error e => r.refused w e
    | .ok s => r.written w (s.reset w.store)
  | .readValue key =>
    match r.readValue w.store key with
    | .error e => r.refused w e
    | .ok (v, store) => { reply := .value v, registry := r, workspace := { w with store } }
  | .assignValue key value => r.written w (r.assignValue w.store key value)
  | .reset key => r.written w (r.reset w.store key)
  | .save =>
    match w.save with
    | (.ok wrote, w) => { reply := .saved wrote, registry := r, workspace := w }
    | (.error e, w) => r.refused w (.store e)

end Registry

end TypedConfig
