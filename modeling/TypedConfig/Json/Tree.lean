/-
# JSON trees

The tree that a list of tokens spells, with the members of an object in the order
of the text and nothing dropped. Arrays and objects may be nested only so deep: a
reader that recursed without a limit could be made to run out of room.

Key definitions: `Json`, `Json.maxDepth`, `Json.read?`, `Json.ofText?`.
-/
import TypedConfig.Json.Token

namespace TypedConfig

/-- A JSON tree. -/
inductive Json where
  | null
  | bool (b : Bool)
  | number (n : Numeral)
  | string (s : String)
  | array (items : List Json)
  | object (members : List (String × Json))

namespace Json

/-- How many arrays and objects may be open at once. -/
def maxDepth : Nat := 127

mutual

/-- The tree at the start of a list of tokens and what follows it, in at most `fuel` steps, with
room for `depth` more arrays and objects. -/
def read? : Nat → Nat → List JsonToken → Option (Json × List JsonToken)
  | 0, _, _ => none
  | fuel + 1, depth, tokens =>
    match depth, tokens with
    | _, .null :: rest => some (.null, rest)
    | _, .bool b :: rest => some (.bool b, rest)
    | _, .number n :: rest => some (.number n, rest)
    | _, .string s :: rest => some (.string s, rest)
    | _ + 1, .openArray :: .closeArray :: rest => some (.array [], rest)
    | depth + 1, .openArray :: rest =>
      (readItems? fuel depth rest).map fun (items, rest) => (.array items, rest)
    | _ + 1, .openObject :: .closeObject :: rest => some (.object [], rest)
    | depth + 1, .openObject :: rest =>
      (readMembers? fuel depth rest).map fun (members, rest) => (.object members, rest)
    | _, _ => none

/-- One or more items and the end of their array. -/
def readItems? : Nat → Nat → List JsonToken → Option (List Json × List JsonToken)
  | 0, _, _ => none
  | fuel + 1, depth, tokens =>
    match read? fuel depth tokens with
    | some (item, .closeArray :: rest) => some ([item], rest)
    | some (item, .comma :: rest) =>
      (readItems? fuel depth rest).map fun (items, rest) => (item :: items, rest)
    | _ => none

/-- One or more members and the end of their object. -/
def readMembers? : Nat → Nat → List JsonToken → Option (List (String × Json) × List JsonToken)
  | 0, _, _ => none
  | fuel + 1, depth, tokens =>
    match tokens with
    | .string key :: .colon :: tokens =>
      match read? fuel depth tokens with
      | some (item, .closeObject :: rest) => some ([(key, item)], rest)
      | some (item, .comma :: rest) =>
        (readMembers? fuel depth rest).map fun (members, rest) => ((key, item) :: members, rest)
      | _ => none
    | _ => none

end

/-- The tree that a whole list of tokens spells. -/
def ofTokens? (tokens : List JsonToken) : Option Json :=
  match read? (2 * tokens.length + 1) maxDepth tokens with
  | some (tree, []) => some tree
  | _ => none

/-- The tree that a text spells. -/
def ofText? (cs : List Char) : Option Json := (JsonToken.scan? cs).bind ofTokens?

end Json

end TypedConfig
