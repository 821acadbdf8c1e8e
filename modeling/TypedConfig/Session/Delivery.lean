/-
# The delivery of events

An event is told first to those who listen to its setting and then to those who
listen to the registry, each list as it stands when its telling begins. A listener
that reacts does so before the next one is told, so the events of its action are
told in between. Every reaction uses up one of finitely many, which bounds how
deep tellings nest.

Key definitions: `Session.act`, `Session.tell`, `Session.deliverWith`,
`Session.deliver`, `Session.perform`, `Session.command`.
-/
import TypedConfig.Session.Basic

namespace TypedConfig
namespace Session

/-- Carries out an operation on a registry, without telling anyone: the reply, the session, and
the event to tell. -/
def step (s : Session) (registry : String) (c : RegistryCommand) :
    RegistryReply × Session × Option Event :=
  let done := (s.registry registry).perform s.workspace c
  (done.reply, { s with workspace := done.workspace }.setRegistry done.registry, done.event?)

/-- The answer to a write by a listener. -/
def actionReply : RegistryReply → ActionReply
  | .refused e => .refused e
  | _ => .accepted

/-- Carries out an operation on the store itself. -/
def command (s : Session) (c : StoreCommand) : StoreReply × Session :=
  let (reply, workspace) := s.workspace.perform c
  (reply, { s with workspace })

/-- Takes the action of a listener: the answer, the session, and the event to tell. -/
def act (s : Session) (name registry : String) : Action → ActionReply × Session × Option Event
  | .assignValue key value =>
    let (reply, s, event?) := s.step registry (.assignValue key value)
    (actionReply reply, s, event?)
  | .reset key =>
    let (reply, s, event?) := s.step registry (.reset key)
    (actionReply reply, s, event?)
  | .close => (.nothing, (s.command .close).2, none)
  | .clear =>
    match s.command .clear with
    | (.refused e, s) => (.refused (.store e), s, none)
    | (_, s) => (.accepted, s, none)
  | .save =>
    match s.command .save with
    | (.refused _, s) => (.answer false, s, none)
    | (_, s) => (.answer true, s, none)
  | .leave =>
    let (found, s) := s.unlisten registry name
    (.answer found, s, none)

/-- Uses up one reaction of a listener to an event: the session, and what it is to do, if it
reacts. -/
def react (s : Session) (name : String) (event : Event) : Option (Listener × Action × Session) :=
  match s.listeners.get? name with
  | none => none
  | some listener =>
    match listener.reaction? with
    | none => none
    | some reaction =>
      if reaction.trigger.matches event ∧ 0 < reaction.remaining then
        let spent := { reaction with remaining := reaction.remaining - 1 }
        let listener := { listener with reaction? := some spent }
        some (listener, reaction.action,
          { s with listeners := s.listeners.insert name listener })
      else none

/-- Tells one listener of an event; `deliver` tells the events that its action causes. -/
def tell (deliver : Session → String → Event → Session) (s : Session) (event : Event)
    (name : String) : Session :=
  let s := s.note (.heard name event)
  match s.react name event with
  | none => s
  | some (listener, action, s) =>
    let (reply, s, event?) := s.act name listener.registry action
    let s := match event? with
      | none => s
      | some caused => deliver s listener.registry caused
    s.note (.reacted name reply)

/-- Tells all who listen of an event in a registry, where tellings nest at most `fuel` deep. -/
def deliverWith : Nat → Session → String → Event → Session
  | 0, s, _, _ => s
  | fuel + 1, s, registry, event =>
    let told := ((s.registry registry).settingListeners event.key).names.foldl
      (fun s name => tell (deliverWith fuel) s event name) s
    (told.registry registry).listeners.names.foldl
      (fun s name => tell (deliverWith fuel) s event name) told

/-- Tells all who listen of an event in a registry. -/
def deliver (s : Session) (registry : String) (event : Event) : Session :=
  deliverWith (s.budget + 1) s registry event

/-- Carries out an operation on a registry and tells of its event. -/
def perform (s : Session) (registry : String) (c : RegistryCommand) : RegistryReply × Session :=
  let (reply, s, event?) := s.step registry c
  match event? with
  | none => (reply, s)
  | some event => (reply, s.deliver registry event)

/-- The records since they were last taken, and the session without them. -/
def takeRecords (s : Session) : List Record × Session := (s.records, { s with records := [] })

end Session
end TypedConfig
