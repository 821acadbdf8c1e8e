/-
# The shapes of a value

Key definitions: `Kind`, `Kind.text`.
-/

namespace TypedConfig

/-- The shape of a configuration value, without what it holds. -/
inductive Kind where
  | bool
  | int
  | float
  | string
  /-- A constant of an enumeration that has been resolved from its name. -/
  | constant
  | array
deriving DecidableEq

/-- The word for a shape in messages. -/
def Kind.text : Kind → String
  | .bool => "bool"
  | .int => "int"
  | .float => "float"
  | .string => "string"
  | .constant => "enum"
  | .array => "array"

end TypedConfig
