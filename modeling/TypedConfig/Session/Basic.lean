/-
# Sessions

A session is a workspace with registries over its store and listeners to them. A
listener keeps a record of every event that it hears. It may have a reaction: an
action that it takes from inside the telling, on events of a sort and at most a
number of times in all.

Key definitions: `Trigger`, `Action`, `Reaction`, `Listener`, `Record`, `Session`.
-/
import TypedConfig.Registry.Command

namespace TypedConfig

/-- The events that a listener reacts to. -/
inductive Trigger where
  | initialized
  | updated
  | rejected
  | any

/-- Whether an event is of the sort. -/
def Trigger.matches : Trigger → Event → Bool
  | .any, _ => true
  | .initialized, .initialized _ _ => true
  | .updated, .updated _ _ _ _ => true
  | .rejected, .rejected _ _ _ _ => true
  | _, _ => false

/-- What a listener may do. -/
inductive Action where
  | assignValue (key : String) (value : Value)
  | reset (key : String)
  | close
  | clear
  | save
  /-- Stops listening to the registry. -/
  | leave

/-- What became of an action. -/
inductive ActionReply where
  | accepted
  | refused (reason : SettingError)
  | answer (yes : Bool)
  | nothing

/-- When and what a listener does. -/
structure Reaction where
  trigger : Trigger
  action : Action
  /-- How often it still acts. -/
  remaining : Nat := 1

/-- One who listens. -/
structure Listener where
  /-- The name of the registry that it acts on. -/
  registry : String
  reaction? : Option Reaction := none

/-- How often a listener still acts. -/
def Listener.budget (l : Listener) : Nat :=
  match l.reaction? with
  | some reaction => reaction.remaining
  | none => 0

/-- What happened to a listener. -/
inductive Record where
  | heard (listener : String) (event : Event)
  | reacted (listener : String) (reply : ActionReply)

/-- A workspace, the registries over its store, and the listeners. -/
structure Session where
  workspace : Workspace
  registries : SortedMap Registry := SortedMap.empty
  listeners : SortedMap Listener := SortedMap.empty
  /-- What the listeners met, oldest first. -/
  records : List Record := []

namespace Session

/-- The registry of a name, which is made when it is first asked for. -/
def registry (s : Session) (name : String) : Registry :=
  (s.registries.get? name).getD { name }

/-- Puts a registry back under its name. -/
def setRegistry (s : Session) (r : Registry) : Session :=
  { s with registries := s.registries.insert r.name r }

/-- Adds a record. -/
def note (s : Session) (record : Record) : Session := { s with records := s.records ++ [record] }

/-- How often all listeners together still act. -/
def budget (s : Session) : Nat :=
  s.listeners.toList.foldr (fun e total => e.2.budget + total) 0

/-! ### Opening -/

/-- Opens a session on media. -/
def opened (o : OpenOptions) (env : Environment) (media : Media) (nonces : NonceSupply) :
    Except StoreError Session :=
  (Workspace.opened o env media nonces).map fun workspace => { workspace }

/-- Opens another store on the same media, without registries and listeners. -/
def reopened (s : Session) (o : OpenOptions) (env : Environment) : Except StoreError Session :=
  opened o env s.workspace.media s.workspace.nonces

/-! ### Listening -/

/-- The session in which a listener of a name is known; the first description of it counts. -/
def acquaint (s : Session) (name : String) (listener : Listener) : Session :=
  if s.listeners.contains name then s
  else { s with listeners := s.listeners.insert name listener }

/-- Adds a listener to a registry. -/
def listen (s : Session) (registry name : String) : Session :=
  let r := s.registry registry
  s.setRegistry { r with listeners := r.listeners.add name }

/-- Takes a listener out of a registry. Says whether it was there. -/
def unlisten (s : Session) (registry name : String) : Bool × Session :=
  let r := s.registry registry
  let (found, listeners) := r.listeners.remove name
  (found, s.setRegistry { r with listeners })

/-- Adds a listener to one setting. -/
def listenTo (s : Session) (registry : String) (t : SettingType) (key name : String) :
    Except SettingError Session :=
  let r := s.registry registry
  (r.setting t key).map fun setting =>
    s.setRegistry (r.place ⟨t, { setting with listeners := setting.listeners.add name }⟩)

/-- Takes a listener out of one setting. Says whether it was there. -/
def unlistenTo (s : Session) (registry : String) (t : SettingType) (key name : String) :
    Except SettingError (Bool × Session) :=
  let r := s.registry registry
  (r.setting t key).map fun setting =>
    let (found, listeners) := setting.listeners.remove name
    (found, s.setRegistry (r.place ⟨t, { setting with listeners }⟩))

end Session

end TypedConfig
