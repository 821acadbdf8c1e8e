/-
# Events and who listens to them

A registry reports what happens to its settings: a setting was set up, a value was
stored, or a value was refused. Listeners are told in the order in which they were
added, as often as they were added.

Key definitions: `Event`, `Listeners`, `Listeners.add`, `Listeners.remove`.
-/
import TypedConfig.Schema.Constraint

namespace TypedConfig

/-- What happened to a setting. Values are in their persisted form. -/
inductive Event where
  /-- Its declaration was found sound. -/
  | initialized (key : String) (variant : Variant)
  /-- A value was stored. -/
  | updated (key : String) (variant : Variant) (old new : Value)
  /-- A value was refused, and nothing was stored. -/
  | rejected (key : String) (variant : Variant) (value : Value) (reason : ValidationError)

/-- The key of the setting that an event is about. -/
def Event.key : Event → String
  | .initialized key _ => key
  | .updated key _ _ _ => key
  | .rejected key _ _ _ => key

/-- Who listens, each by a name, in the order of the telling. -/
structure Listeners where
  names : List String := []

namespace Listeners

/-- Adds a listener behind the others, even one that is among them. -/
def add (l : Listeners) (name : String) : Listeners := ⟨l.names ++ [name]⟩

/-- Takes a listener out, as often as it is there. Says whether it was. -/
def remove (l : Listeners) (name : String) : Bool × Listeners :=
  (l.names.contains name, ⟨l.names.filter (· ≠ name)⟩)

/-- How many are told. -/
def count (l : Listeners) : Nat := l.names.length

/-- Listeners in debugging text. -/
def debugText (l : Listeners) : String :=
  "EventSender \x7b listeners: " ++ NumberStyle.naturalText l.count ++ " \x7d"

end Listeners

end TypedConfig
