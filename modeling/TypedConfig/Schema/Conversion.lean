/-
# From settings to stored values and back

A setting's value is stored in one of two forms: the persisted form, in which a
constant is its name, or the cached form, in which it stands resolved. Both are
written alike.

Reading is by the table below. Nothing outside it is accepted, and no number
wraps or is cut to fit, except that a float read at 32 bits is rounded to them.

| declared      | accepted stored values                              |
|---------------|-----------------------------------------------------|
| `boolean`     | a truth value                                       |
| `byte`        | an integer in range                                 |
| `integer`     | an integer in range, or a string of one             |
| `long`        | an integer, or a string of one in range             |
| `float`       | a float, rounded to 32 bits                         |
| `double`      | a float                                             |
| `string`      | a string, or a resolved constant (its name)         |
| enumeration   | a string or resolved constant naming a constant     |
| list          | an array whose elements are all accepted            |

Key definitions: `ConversionError`, `readInteger?`, `SettingType.toValue`,
`SettingType.toCachedValue`, `SettingType.fromValue`.
-/
import TypedConfig.Schema.SettingType

namespace TypedConfig

/-- Why a stored value cannot be read at a type. -/
inductive ConversionError where
  /-- The shape of the value is not accepted. -/
  | typeMismatch (expected found : Kind)
  /-- An integer does not fit. -/
  | outOfRange (value : Int64) (target : String)
  /-- A string is not an integer that fits. -/
  | invalidNumber (text target : String)
  /-- The enumeration has no constant of the name. -/
  | unknownConstant (typeName name : String)
deriving DecidableEq

/-- The wording of a conversion error. -/
def ConversionError.message : ConversionError → String
  | .typeMismatch expected found =>
    "type mismatch: expected " ++ expected.text ++ ", found " ++ found.text
  | .outOfRange value target =>
    "value " ++ NumberStyle.integerText value.toInt ++ " is out of range for " ++ target
  | .invalidNumber text target => quoted text ++ " is not a valid " ++ target
  | .unknownConstant typeName name => "no constant named " ++ quoted name ++ " in " ++ typeName

/-! ### Integers in text -/

/-- The value of a decimal digit. -/
def digitValue? (c : Char) : Option Nat :=
  if '0' ≤ c ∧ c ≤ '9' then some (c.toNat - '0'.toNat) else none

/-- The number that `digits` spell after a number `before` them. -/
def readDigits? (before : Nat) : List Char → Option Nat
  | [] => some before
  | c :: rest =>
    match digitValue? c with
    | some d => readDigits? (10 * before + d) rest
    | none => none

/-- The number that one or more digits spell. -/
def readNatural? : List Char → Option Nat
  | [] => none
  | digits => readDigits? 0 digits

/-- The integer that a text spells: at most one sign, then digits and nothing else. -/
def readInteger? (text : String) : Option Int :=
  match text.toList with
  | '+' :: digits => (readNatural? digits).map fun n => (n : Int)
  | '-' :: digits => (readNatural? digits).map fun n => -(n : Int)
  | digits => (readNatural? digits).map fun n => (n : Int)

/-- Whether an integer lies from `low` to `high`. -/
def isWithin (low high n : Int) : Bool := decide (low ≤ n ∧ n ≤ high)

/-- The 8-bit integer of this value. -/
def int8? (n : Int) : Option Int8 :=
  if isWithin Int8.minValue.toInt Int8.maxValue.toInt n then some (Int8.ofInt n) else none

/-- The 32-bit integer of this value. -/
def int32? (n : Int) : Option Int32 :=
  if isWithin Int32.minValue.toInt Int32.maxValue.toInt n then some (Int32.ofInt n) else none

/-- The 64-bit integer of this value. -/
def int64? (n : Int) : Option Int64 :=
  if isWithin Int64.minValue.toInt Int64.maxValue.toInt n then some (Int64.ofInt n) else none

/-- A result, or an error in place of none. -/
def orError {ε α : Type} (error : ε) : Option α → Except ε α
  | some a => .ok a
  | none => .error error

/-! ### Constants -/

namespace Enumeration

/-- The resolved form of a constant. -/
def resolve (e : Enumeration) (i : e.Index) : Constant := ⟨e.fullName, e.name i, i.val⟩

/-- The constant that a resolved constant stands for. Its place is a short way to it where the
type and the name there agree; otherwise the name is looked up. -/
def ofConstant? (e : Enumeration) (c : Constant) : Option e.Index :=
  if h : c.ordinal < e.names.length then
    if c.typeName = e.fullName ∧ e.name ⟨c.ordinal, h⟩ = c.name then some ⟨c.ordinal, h⟩
    else e.index? c.name
  else e.index? c.name

end Enumeration

/-! ### The two stored forms -/

namespace SettingType

/-- The persisted form of a value. -/
def toValue : (t : SettingType) → t.Val → Value
  | .boolean, b => .bool b
  | .byte, n => .int (Int8.toInt64 n)
  | .integer, n => .int (Int32.toInt64 n)
  | .long, n => .int n
  | .float, x => .float (Binary32.widen x)
  | .double, x => .float x
  | .string, s => .string s
  | .enumeration e, i => .string (e.name i)
  | .array t, items => .array (List.map t.toValue items)

/-- The cached form of a value, in which constants stand resolved. -/
def toCachedValue : (t : SettingType) → t.Val → Value
  | .enumeration e, i => .constant (e.resolve i)
  | .array t, items => .array (List.map t.toCachedValue items)
  | t, v => t.toValue v

/-- Reads all values of a list, or gives the first error. -/
def readAll {α : Type} (read : Value → Except ConversionError α) :
    List Value → Except ConversionError (List α)
  | [] => .ok []
  | v :: rest =>
    match read v with
    | .error e => .error e
    | .ok a =>
      match readAll read rest with
      | .error e => .error e
      | .ok as => .ok (a :: as)

/-- Reads a stored value at a type. -/
def fromValue : (t : SettingType) → Value → Except ConversionError t.Val
  | .boolean, .bool b => .ok b
  | .boolean, v => .error (.typeMismatch .bool v.kind)
  | .byte, .int n => orError (.outOfRange n "byte") (int8? n.toInt)
  | .byte, v => .error (.typeMismatch .int v.kind)
  | .integer, .int n => orError (.outOfRange n "integer") (int32? n.toInt)
  | .integer, .string s => orError (.invalidNumber s "integer") ((readInteger? s).bind int32?)
  | .integer, v => .error (.typeMismatch .int v.kind)
  | .long, .int n => .ok n
  | .long, .string s => orError (.invalidNumber s "long") ((readInteger? s).bind int64?)
  | .long, v => .error (.typeMismatch .int v.kind)
  | .float, .float x => .ok (Binary64.narrow x)
  | .float, v => .error (.typeMismatch .float v.kind)
  | .double, .float x => .ok x
  | .double, v => .error (.typeMismatch .float v.kind)
  | .string, .string s => .ok s
  | .string, .constant c => .ok c.name
  | .string, v => .error (.typeMismatch .string v.kind)
  | .enumeration e, .constant c => orError (.unknownConstant e.fullName c.name) (e.ofConstant? c)
  | .enumeration e, .string s => orError (.unknownConstant e.fullName s) (e.index? s)
  | .enumeration _, v => .error (.typeMismatch .constant v.kind)
  | .array t, .array items => readAll t.fromValue items
  | .array _, v => .error (.typeMismatch .array v.kind)

end SettingType

end TypedConfig
