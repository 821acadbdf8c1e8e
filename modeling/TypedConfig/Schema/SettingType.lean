/-
# The types of settings

A setting is declared with a type: one of the scalar types, an enumeration, or a
list of another type. The type says what its values are in the program
(`SettingType.Val`), and under which words messages speak of it.

Floats are compared as numbers here (`SettingType.isEqual`): the two zeros are
equal, and a word that is no number equals nothing.

Key definitions: `SettingType`, `SettingType.Val`, `Variant`, `SettingType.typeName`,
`SettingType.variant`, `SettingType.fallback`, `SettingType.isEqual`.
-/
import TypedConfig.Schema.Enumeration
import TypedConfig.Value.Basic

namespace TypedConfig

/-- The type of a setting. -/
inductive SettingType where
  | boolean
  | byte
  | integer
  | long
  | float
  | double
  | string
  | enumeration (e : Enumeration)
  | array (element : SettingType)
deriving DecidableEq

/-- The variety of a setting's type, as messages name it. -/
inductive Variant where
  | boolean
  | byte
  | integer
  | long
  | float
  | double
  | string
  | enumeration
  | array
deriving DecidableEq

/-- The word for a variety in messages. -/
def Variant.text : Variant → String
  | .boolean => "boolean"
  | .byte => "byte"
  | .integer => "integer"
  | .long => "long"
  | .float => "float"
  | .double => "double"
  | .string => "string"
  | .enumeration => "enum"
  | .array => "array"

/-- The word for a variety in debugging text. -/
def Variant.debugText : Variant → String
  | .boolean => "Boolean"
  | .byte => "Byte"
  | .integer => "Integer"
  | .long => "Long"
  | .float => "Float"
  | .double => "Double"
  | .string => "String"
  | .enumeration => "Enum"
  | .array => "Array"

namespace SettingType

/-- The values of a setting of a type. -/
@[reducible] def Val : SettingType → Type
  | .boolean => Bool
  | .byte => Int8
  | .integer => Int32
  | .long => Int64
  | .float => Binary32
  | .double => Binary64
  | .string => String
  | .enumeration e => e.Index
  | .array t => List t.Val

/-- The variety of a type. -/
def variant : SettingType → Variant
  | .boolean => .boolean
  | .byte => .byte
  | .integer => .integer
  | .long => .long
  | .float => .float
  | .double => .double
  | .string => .string
  | .enumeration _ => .enumeration
  | .array _ => .array

/-- The word for a type in messages: its variety, or the enumeration's own name. -/
def typeName : SettingType → String
  | .enumeration e => e.shortName
  | t => t.variant.text

/-- The shape of the values that a type is stored as. -/
def kind : SettingType → Kind
  | .boolean => .bool
  | .byte => .int
  | .integer => .int
  | .long => .int
  | .float => .float
  | .double => .float
  | .string => .string
  | .enumeration _ => .constant
  | .array _ => .array

/-- The value of a setting declared without a default. -/
def fallback : (t : SettingType) → t.Val
  | .boolean => false
  | .byte => (0 : Int8)
  | .integer => (0 : Int32)
  | .long => (0 : Int64)
  | .float => Binary.zero false
  | .double => Binary.zero false
  | .string => ""
  | .enumeration e => e.firstIndex
  | .array _ => []

/-- Whether two lists are equal place by place. -/
def listEqual {α : Type} (equal : α → α → Bool) : List α → List α → Bool
  | [], [] => true
  | a :: as, b :: bs => equal a b && listEqual equal as bs
  | _, _ => false

/-- Whether two values of a type are equal, floats as numbers. -/
def isEqual : (t : SettingType) → t.Val → t.Val → Bool
  | .boolean, a, b => decide ((a : Bool) = b)
  | .byte, a, b => decide ((a : Int8) = b)
  | .integer, a, b => decide ((a : Int32) = b)
  | .long, a, b => decide ((a : Int64) = b)
  | .float, a, b => Binary.isEqual a b
  | .double, a, b => Binary.isEqual a b
  | .string, a, b => decide ((a : String) = b)
  | .enumeration e, a, b => decide ((a : e.Index) = b)
  | .array t, as, bs => listEqual t.isEqual as bs

/-- A value in debugging text. -/
def debugText : (t : SettingType) → t.Val → String
  | .boolean, b => Value.boolText b
  | .byte, n => NumberStyle.integerText (Int8.toInt n)
  | .integer, n => NumberStyle.integerText (Int32.toInt n)
  | .long, n => NumberStyle.integerText (Int64.toInt n)
  | .float, x => Binary.text .debug x
  | .double, x => Binary.text .debug x
  | .string, s => quoted s
  | .enumeration e, i => e.name i
  | .array t, items => bracketed (List.map t.debugText items)

end SettingType

end TypedConfig
