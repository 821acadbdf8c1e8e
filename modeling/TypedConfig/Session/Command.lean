/-
# Commands to a session

Everything that is done with a session as data: operations on the store and on a
registry, looking at what they left, coming and going of listeners, and opening
another store on the same media.

Key definitions: `SessionCommand`, `SessionReply`, `SessionStep`, `Session.carryOut`,
`Session.steps`, `Session.after`.
-/
import TypedConfig.Session.Delivery

namespace TypedConfig

/-- An operation on a session. -/
inductive SessionCommand where
  | store (c : StoreCommand)
  | registry (name : String) (c : RegistryCommand)
  /-- Looks at an entry as it stands in memory. -/
  | look (key : String)
  /-- Asks whether a setting stands at its default. -/
  | isDefault (registry : String) (t : SettingType) (key : String)
  | listen (registry name : String) (listener : Listener)
  | unlisten (registry name : String)
  | listenTo (registry : String) (t : SettingType) (key name : String) (listener : Listener)
  | unlistenTo (registry : String) (t : SettingType) (key name : String)
  /-- Makes writes to the memory medium fail, or work again. -/
  | failWrites (on : Bool)
  /-- Opens another store on the same media. -/
  | reopen (o : OpenOptions) (env : Environment)

/-- What an operation on a session answers. -/
inductive SessionReply where
  | store (reply : StoreReply)
  | registry (reply : RegistryReply)
  | value (value? : Option Value)
  | answer (yes : Bool)
  | nothing
  | refused (reason : SettingError)
  | unopened (reason : StoreError)

/-- What became of an operation. The event is that of the operation itself; those that listeners
caused stand in the records of the session. -/
structure SessionStep where
  reply : SessionReply
  session : Session
  event? : Option Event := none

namespace Session

/-- Carries out an operation. -/
def carryOut (s : Session) : SessionCommand → SessionStep
  | .store c =>
    let (reply, s) := s.command c
    { reply := .store reply, session := s }
  | .registry name c =>
    let (reply, done) := s.perform name c
    { reply := .registry reply, session := done, event? := (s.step name c).2.2 }
  | .look key => { reply := .value (s.workspace.store.get? key), session := s }
  | .isDefault registry t key =>
    match (s.registry registry).setting t key with
    | .error e => { reply := .refused e, session := s }
    | .ok setting => { reply := .answer (setting.isDefault s.workspace.store), session := s }
  | .listen registry name listener =>
    { reply := .nothing, session := (s.acquaint name listener).listen registry name }
  | .unlisten registry name =>
    let (found, s) := s.unlisten registry name
    { reply := .answer found, session := s }
  | .listenTo registry t key name listener =>
    let s := s.acquaint name listener
    match s.listenTo registry t key name with
    | .error e => { reply := .refused e, session := s }
    | .ok s => { reply := .nothing, session := s }
  | .unlistenTo registry t key name =>
    match s.unlistenTo registry t key name with
    | .error e => { reply := .refused e, session := s }
    | .ok (found, s) => { reply := .answer found, session := s }
  | .failWrites on =>
    { reply := .nothing, session := { s with workspace.media.memory.failWrites := on } }
  | .reopen o env =>
    match s.reopened o env with
    | .error e => { reply := .unopened e, session := s }
    | .ok s => { reply := .nothing, session := s }

/-- The steps of operations, one after another. -/
def steps : Session → List SessionCommand → List SessionStep
  | _, [] => []
  | s, c :: cs => s.carryOut c :: (s.carryOut c).session.steps cs

/-- The session after operations, one after another. -/
def after (s : Session) (cs : List SessionCommand) : Session :=
  cs.foldl (fun s c => (s.carryOut c).session) s

end Session
end TypedConfig
