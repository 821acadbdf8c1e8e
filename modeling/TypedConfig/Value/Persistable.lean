/-
# Values that a document can hold

A document has no text for a float that is not finite, and its arrays hold
elements of one shape. The check walks arrays from the left and looks inside an
element before it compares the element's own shape, so the error is always that
of the first offence in this order.

Key definitions: `PersistenceError`, `Value.checkPersistable`.
-/
import TypedConfig.Value.Basic

namespace TypedConfig

/-- Why a value cannot be written. -/
inductive PersistenceError where
  /-- A float is infinite or no number. -/
  | nonFiniteFloat
  /-- An array's element has another shape than its first one. -/
  | mixedArray (expected found : Kind) (index : Nat)
deriving DecidableEq

/-- The wording of a persistence error. -/
def PersistenceError.message : PersistenceError → String
  | .nonFiniteFloat => "non-finite floats cannot be persisted"
  | .mixedArray expected found index =>
    "heterogeneous array: element " ++ NumberStyle.naturalText index ++ " is " ++ found.text
      ++ ", expected " ++ expected.text

namespace Value

mutual

/-- Whether a value can be written and read back, or else the first obstacle. -/
def checkPersistable : Value → Except PersistenceError Unit
  | .float x => if x.isFinite then .ok () else .error .nonFiniteFloat
  | .array items => checkElements none 0 items
  | _ => .ok ()

/-- Checks the elements of an array from place `index` on, where `expected` is the shape of the
elements before it, if there are any. -/
def checkElements (expected : Option Kind) (index : Nat) : List Value → Except PersistenceError Unit
  | [] => .ok ()
  | v :: rest =>
    match v.checkPersistable with
    | .error e => .error e
    | .ok () =>
      match expected with
      | none => checkElements (some v.persistedKind) (index + 1) rest
      | some kind =>
        if kind = v.persistedKind then checkElements (some kind) (index + 1) rest
        else .error (.mixedArray kind v.persistedKind index)

end

/-- Whether a value can be written and read back. -/
def isPersistable (v : Value) : Bool :=
  match v.checkPersistable with
  | .ok () => true
  | .error _ => false

end Value

end TypedConfig
