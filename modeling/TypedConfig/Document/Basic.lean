/-
# Documents

A document is what a store holds and what is written to its medium: values under
keys, with the keys in order. Reading one from a JSON text goes through the tree
of the text: the top must be an object, every member must be a null or convert to
a value, later members of a key replace earlier ones, and a null takes the key
out.

Key definitions: `Document`, `mostDigits`, `Numeral.value?`, `Value.ofJson?`,
`Document.ofMembers?`, `Document.ofText?`, `Document.json`.
-/
import TypedConfig.Json.Layout
import TypedConfig.Json.Tree
import TypedConfig.Schema.Conversion
import TypedConfig.SortedMap

namespace TypedConfig

/-- Values under keys. -/
abbrev Document := SortedMap Value

/-! ### Reading -/

/-- How many digits of a numeral are looked at. No tie between two floats has more. -/
def mostDigits : Nat := 768

/-- A number by its leading digits: of more than can be looked at, a single one stands for those
that are left, so that it is no tie, not even where all of them are zeros. -/
def leading (digits : Nat) (scale : Int) : Nat × Int :=
  let left := Binary.decimalLength digits - mostDigits
  if left = 0 then (digits, scale)
  else (digits / Nat.pow 10 left * 10 + 1, scale + left - 1)

/-- The float that a numeral spells, if it is not too large for one. -/
def Numeral.float? (n : Numeral) (scale : Int) : Option Value :=
  let (digits, scale) := leading n.digits scale
  let x : Binary64 := Binary.ofDecimal n.negative digits scale
  if x.isFinite then some (.float x) else none

/-- The value that a numeral spells: an integer if it has neither point nor exponent and fits 64
bits, and otherwise a float. Minus zero is a float, since no integer is. -/
def Numeral.value? (n : Numeral) : Option Value :=
  match n.scale? with
  | some scale => n.float? scale
  | none =>
    if n.negative ∧ n.digits = 0 then n.float? 0
    else
      match int64? (if n.negative then -(n.digits : Int) else n.digits) with
      | some i => some (.int i)
      | none => n.float? 0

namespace Value

mutual

/-- The value of a tree: truth values, numbers, strings, and arrays of such. -/
def ofJson? : Json → Option Value
  | .null => none
  | .bool b => some (.bool b)
  | .number n => n.value?
  | .string s => some (.string s)
  | .array items => (allOfJson? items).map .array
  | .object _ => none

/-- The values of all trees of a list. -/
def allOfJson? : List Json → Option (List Value)
  | [] => some []
  | j :: rest =>
    match ofJson? j with
    | none => none
    | some v => (allOfJson? rest).map (v :: ·)

end

end Value

namespace Document

/-- Adds the members of an object, in order, to a document. -/
def addMembers? (d : Document) : List (String × Json) → Option Document
  | [] => some d
  | (key, .null) :: rest => addMembers? (d.erase key) rest
  | (key, j) :: rest =>
    match Value.ofJson? j with
    | none => none
    | some v => addMembers? (d.insert key v) rest

/-- The document of an object's members. -/
def ofMembers? (members : List (String × Json)) : Option Document :=
  addMembers? SortedMap.empty members

/-- The document that a text spells. -/
def ofText? (cs : List Char) : Option Document :=
  match Json.ofText? cs with
  | some (.object members) => ofMembers? members
  | _ => none

/-! ### Writing -/

/-- One member inside one open bracket. -/
def jsonMember (layout : JsonLayout) (e : String × Value) : List Char :=
  layout.lineBreak 1 ++ jsonString e.1 ++ layout.colon ++ e.2.json layout 1

/-- The members after the first, each behind a comma. -/
def jsonMembers (layout : JsonLayout) : List (String × Value) → List Char
  | [] => []
  | e :: rest => ',' :: (jsonMember layout e ++ jsonMembers layout rest)

/-- The text of a list of entries. -/
def jsonEntries (layout : JsonLayout) : List (String × Value) → List Char
  | [] => ['\x7b', '\x7d']
  | e :: rest =>
    '\x7b' :: (jsonMember layout e ++ jsonMembers layout rest ++ layout.lineBreak 0 ++ ['\x7d'])

/-- The text of a document, its keys in order. -/
def json (layout : JsonLayout) (d : Document) : List Char := jsonEntries layout d.toList

end Document

end TypedConfig
