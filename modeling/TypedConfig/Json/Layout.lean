/-
# Writing JSON texts

A value or document is written either compactly, with no blank at all, or
pretty-printed, with every item on a line of its own behind two blanks for each
open bracket. Both layouts have the same tokens.

In a string only the quote, the backslash and the control characters are escaped.

Key definitions: `JsonLayout`, `jsonString`, `Value.json`, `Value.jsonText`.
-/
import TypedConfig.Value.Basic

namespace TypedConfig

/-- Where blanks are put between tokens. -/
inductive JsonLayout where
  | compact
  | pretty
deriving DecidableEq

namespace JsonLayout

/-- What stands before an item or a closing bracket inside `level` open brackets. -/
def lineBreak : JsonLayout → Nat → List Char
  | .compact, _ => []
  | .pretty, level => '\n' :: List.replicate (2 * level) ' '

/-- What stands between a key and its value. -/
def colon : JsonLayout → List Char
  | .compact => [':']
  | .pretty => [':', ' ']

end JsonLayout

/-- A hexadecimal digit. -/
def hexDigit (n : Nat) : Char := (Nat.toDigits 16 n).headD '0'

/-- One character inside a string. -/
def jsonEscape (c : Char) : List Char :=
  if c = '"' then ['\\', '"']
  else if c = '\\' then ['\\', '\\']
  else if c = '\x08' then ['\\', 'b']
  else if c = '\t' then ['\\', 't']
  else if c = '\n' then ['\\', 'n']
  else if c = '\x0c' then ['\\', 'f']
  else if c = '\r' then ['\\', 'r']
  else if c.toNat < 0x20 then
    ['\\', 'u', '0', '0', hexDigit (c.toNat / 16), hexDigit (c.toNat % 16)]
  else [c]

/-- A string between quotes. -/
def jsonString (s : String) : List Char := '"' :: (s.toList.flatMap jsonEscape ++ ['"'])

namespace Value

mutual

/-- A value inside `level` open brackets. -/
def json (layout : JsonLayout) (level : Nat) : Value → List Char
  | .bool b => (boolText b).toList
  | .int n => (NumberStyle.integerText n.toInt).toList
  | .float x => (x.text .document).toList
  | .string s => jsonString s
  | .constant c => jsonString c.name
  | .array [] => ['[', ']']
  | .array (v :: rest) =>
    '[' :: (layout.lineBreak (level + 1) ++ v.json layout (level + 1)
      ++ jsonItems layout (level + 1) rest ++ layout.lineBreak level ++ [']'])

/-- The items after the first, each behind a comma. -/
def jsonItems (layout : JsonLayout) (level : Nat) : List Value → List Char
  | [] => []
  | v :: rest =>
    ',' :: (layout.lineBreak level ++ v.json layout level ++ jsonItems layout level rest)

end

/-- The compact text of a value. -/
def jsonText (v : Value) : String := String.ofList (v.json .compact 0)

end Value

end TypedConfig
