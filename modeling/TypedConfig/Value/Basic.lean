/-
# Configuration values

The values a configuration entry can hold. In memory a constant of an enumeration
may stand resolved, with its type and its place in it; in a document it is only
its name, so it counts there as a string.

Two equalities matter. `Value.samePersisted` asks whether two values are written
alike: numbers by their bits, a constant as its name. `Value.isEqual` compares
what is in memory: numbers as numbers, constants with everything they carry.

Key definitions: `Constant`, `Value`, `Value.kind`, `Value.persistedKind`,
`Value.samePersisted`, `Value.isEqual`, `Value.display`.
-/
import TypedConfig.Binary.Style
import TypedConfig.Text.Quoted
import TypedConfig.Value.Kind

namespace TypedConfig

/-- A constant of an enumeration, resolved. -/
structure Constant where
  /-- The full name of the enumeration. -/
  typeName : String
  /-- The name of the constant, which is all that a document keeps. -/
  name : String
  /-- Its place among the constants of the enumeration. -/
  ordinal : Nat
deriving DecidableEq

/-- A configuration value. -/
inductive Value where
  | bool (b : Bool)
  | int (n : Int64)
  | float (x : Binary64)
  | string (s : String)
  | constant (c : Constant)
  | array (items : List Value)

namespace Value

instance : Inhabited Value := ⟨.bool false⟩

/-- The shape of a value in memory. -/
def kind : Value → Kind
  | .bool _ => .bool
  | .int _ => .int
  | .float _ => .float
  | .string _ => .string
  | .constant _ => .constant
  | .array _ => .array

/-- The shape of a value in a document, where a constant is a string. -/
def persistedKind (v : Value) : Kind :=
  match v.kind with
  | .constant => .string
  | k => k

/-- The text of a string or the name of a constant. -/
def text? : Value → Option String
  | .string s => some s
  | .constant c => some c.name
  | _ => none

/-! ### Two equalities -/

mutual

/-- Whether two values are written alike. -/
def samePersisted : Value → Value → Bool
  | .bool a, .bool b => a == b
  | .int a, .int b => a == b
  | .float a, .float b => a == b
  | .array as, .array bs => allSamePersisted as bs
  | a, b =>
    match a.text?, b.text? with
    | some s, some t => s == t
    | _, _ => false

/-- Whether two lists of values are written alike, place by place. -/
def allSamePersisted : List Value → List Value → Bool
  | [], [] => true
  | a :: as, b :: bs => a.samePersisted b && allSamePersisted as bs
  | _, _ => false

end

mutual

/-- Whether two values are equal in memory. -/
def isEqual : Value → Value → Bool
  | .bool a, .bool b => a == b
  | .int a, .int b => a == b
  | .float a, .float b => a.isEqual b
  | .string a, .string b => a == b
  | .constant a, .constant b => a == b
  | .array as, .array bs => allEqual as bs
  | _, _ => false

/-- Whether two lists of values are equal in memory, place by place. -/
def allEqual : List Value → List Value → Bool
  | [], [] => true
  | a :: as, b :: bs => a.isEqual b && allEqual as bs
  | _, _ => false

end

/-! ### Constants inside a value -/

mutual

/-- Whether a value is or contains a resolved constant. -/
def holdsConstant : Value → Bool
  | .constant _ => true
  | .array items => anyHoldsConstant items
  | _ => false

/-- Whether some value of a list is or contains a resolved constant. -/
def anyHoldsConstant : List Value → Bool
  | [] => false
  | v :: rest => v.holdsConstant || anyHoldsConstant rest

end

/-! ### Texts -/

/-- The words for the two truth values. -/
def boolText (b : Bool) : String := if b then "true" else "false"

mutual

/-- A value as messages show it. -/
def display : Value → String
  | .bool b => boolText b
  | .int n => NumberStyle.integerText n.toInt
  | .float x => x.text .display
  | .string s => quoted s
  | .constant c => c.name
  | .array items => bracketed (displayAll items)

/-- The values of a list as messages show them. -/
def displayAll : List Value → List String
  | [] => []
  | v :: rest => v.display :: displayAll rest

end

/-- How many arrays are met on the way down the first elements, and the shape of what ends the
way: the first value that is no array, or an array with nothing in it. -/
def outline : Value → Nat × Kind
  | .array (v :: _) => let (depth, kind) := v.outline; (depth + 1, kind)
  | .array [] => (1, .array)
  | v => (0, v.kind)

end Value

end TypedConfig
