/-
# Reading settings files

A settings file is a list of statements, each in its own line: a name with a
value, the header of a table, or a doubled header. They are read from the text
first, and then put together to one table.

Brackets may nest 79 deep, and a name may have 79 parts.

Key definitions: `TomlStatement`, `TomlStatement.readAll?`, `Toml.ofStatements?`,
`Toml.ofText?`.
-/
import TypedConfig.Toml.Quoted
import TypedConfig.Toml.Scalar
import TypedConfig.Toml.Table

namespace TypedConfig

/-- A line of a settings file. Names with dots are given as a path and the name at its end. -/
inductive TomlStatement where
  | pair (path : List String) (name : String) (value : Toml)
  | header (path : List String) (name : String)
  | doubledHeader (path : List String) (name : String)

namespace Toml

/-- How many parts a name has at most, and how deep brackets nest. -/
def maxNesting : Nat := 79

/-! ### Between the statements -/

/-- The text after a comment and its line break. -/
def skipComment? : List Char → Option (List Char)
  | [] => some []
  | c :: rest =>
    if c = '\n' then some rest
    else if isPlain c then skipComment? rest
    else none

/-- The text after the end of a line, before which only a comment may stand. -/
def endLine? (cs : List Char) : Option (List Char) :=
  match cs.dropWhile isSpace with
  | [] => some []
  | '\n' :: rest => some rest
  | '#' :: rest => skipComment? rest
  | _ => none

/-- The text after blanks, line breaks and comments; `inComment` says whether it starts in
one. -/
def skipVoid? (inComment : Bool) : List Char → Option (List Char)
  | [] => some []
  | c :: rest =>
    if c = '\n' then skipVoid? false rest
    else if inComment then (if isPlain c then skipVoid? true rest else none)
    else if isSpace c then skipVoid? false rest
    else if c = '#' then skipVoid? true rest
    else some (c :: rest)

/-! ### Names -/

/-- Whether a character may stand in a name without quotes. -/
def isNameChar (c : Char) : Bool := c.isAlphanum || c = '_' || c = '-'

/-- The part of a name at the start of a text. -/
def readPart? : List Char → Option (String × List Char)
  | '"' :: rest => (readBasic? (rest.length + 1) rest).map fun (s, rest) => (String.ofList s, rest)
  | '\'' :: rest => (readLiteral? rest).map fun (s, rest) => (String.ofList s, rest)
  | cs =>
    match cs.takeWhile isNameChar with
    | [] => none
    | part => some (String.ofList part, cs.dropWhile isNameChar)

/-- The name at the start of a text, with at most `fuel` parts. Blanks around its parts do not
count. -/
def readParts? : Nat → List Char → Option (List String × List Char)
  | 0, _ => none
  | fuel + 1, cs => do
    let (part, rest) ← readPart? (cs.dropWhile isSpace)
    match rest.dropWhile isSpace with
    | '.' :: rest => do
      let (parts, rest) ← readParts? fuel rest
      pure (part :: parts, rest)
    | rest => pure ([part], rest)

/-- The name at the start of a text: its path, its last part, and what follows it. -/
def readName? (cs : List Char) : Option (List String × String × List Char) := do
  let (parts, rest) ← readParts? maxNesting cs
  let name ← parts.getLast?
  pure (parts.dropLast, name, rest)

/-! ### Values -/

mutual

/-- The value at the start of a text, in which at most `depth` brackets may nest; `fuel` bounds
the steps. -/
def readValue? : Nat → Nat → List Char → Option (Toml × List Char)
  | 0, _, _ => none
  | _ + 1, _, [] => none
  | fuel + 1, depth, c :: rest =>
    if c = '"' ∨ c = '\'' then
      (readString? (c :: rest)).map fun (s, rest) => (.string (String.ofList s), rest)
    else if c = '[' then
      match depth with
      | 0 => none
      | depth + 1 => do
        let (items, rest) ← readItems? fuel depth rest
        pure (.array items, rest)
    else if c = '\x7b' then
      match depth with
      | 0 => none
      | depth + 1 => do
        let (pairs, rest) ← readPairs? fuel depth true rest
        let table ← ofPairs? pairs
        pure (table, rest)
    else readWord? (c :: rest)

/-- The rest of an array: values with commas between them, and perhaps one after the last. -/
def readItems? : Nat → Nat → List Char → Option (List Toml × List Char)
  | 0, _, _ => none
  | fuel + 1, depth, cs => do
    let cs ← skipVoid? false cs
    match cs with
    | ']' :: rest => pure ([], rest)
    | cs => do
      let (item, rest) ← readValue? fuel depth cs
      let rest ← skipVoid? false rest
      match rest with
      | ']' :: rest => pure ([item], rest)
      | ',' :: rest => do
        let (items, rest) ← readItems? fuel depth rest
        pure (item :: items, rest)
      | _ => none

/-- The rest of a table between braces: names with values and commas between them, in one line.
Only the first place may be empty. -/
def readPairs? : Nat → Nat → Bool → List Char →
    Option (List (List String × String × Toml) × List Char)
  | 0, _, _, _ => none
  | fuel + 1, depth, first, cs =>
    match first, cs.dropWhile isSpace with
    | true, '\x7d' :: rest => some ([], rest)
    | _, cs => do
      let (path, name, rest) ← readName? cs
      match rest with
      | '=' :: rest => do
        let (v, rest) ← readValue? fuel depth (rest.dropWhile isSpace)
        match rest.dropWhile isSpace with
        | '\x7d' :: rest => pure ([(path, name, v)], rest)
        | ',' :: rest => do
          let (pairs, rest) ← readPairs? fuel depth false rest
          pure ((path, name, v) :: pairs, rest)
        | _ => none
      | _ => none

end

/-- The value at the start of a text, and what follows it. -/
def readAny? (cs : List Char) : Option (Toml × List Char) :=
  readValue? (2 * cs.length + 1) maxNesting cs

end Toml

namespace TomlStatement

open Toml

/-- The statement at the start of a text, up to the end of its line. -/
def read? : List Char → Option (TomlStatement × List Char)
  | '[' :: '[' :: rest => do
    let (path, name, rest) ← readName? rest
    match rest with
    | ']' :: ']' :: rest => do
      let rest ← endLine? rest
      pure (.doubledHeader path name, rest)
    | _ => none
  | '[' :: rest => do
    let (path, name, rest) ← readName? rest
    match rest with
    | ']' :: rest => do
      let rest ← endLine? rest
      pure (.header path name, rest)
    | _ => none
  | cs => do
    let (path, name, rest) ← readName? cs
    match rest with
    | '=' :: rest => do
      let (v, rest) ← readAny? (rest.dropWhile isSpace)
      let rest ← endLine? rest
      pure (.pair path name v, rest)
    | _ => none

/-- The statements of a text, with at most `fuel` characters. -/
def readAllWith? : Nat → List Char → Option (List TomlStatement)
  | _, [] => some []
  | 0, _ :: _ => none
  | fuel + 1, cs =>
    match skipVoid? false cs with
    | none => none
    | some [] => some []
    | some cs => do
      let (statement, rest) ← read? cs
      let statements ← readAllWith? fuel rest
      pure (statement :: statements)

/-- The statements of a text. -/
def readAll? (cs : List Char) : Option (List TomlStatement) := readAllWith? cs.length cs

end TomlStatement

namespace Toml

/-- Adds statements to the table of a file, where `header` is the header they stand under. -/
def addStatements? (header : List String) : List TomlStatement → Entries → Option Entries
  | [], entries => some entries
  | .pair path name v :: rest, entries => do
    let entries ← addPairIn? header path name v entries
    addStatements? header rest entries
  | .header path name :: rest, entries => do
    let entries ← addTable? path name entries
    addStatements? (path ++ [name]) rest entries
  | .doubledHeader path name :: rest, entries => do
    let entries ← addToTables? path name entries
    addStatements? (path ++ [name]) rest entries

/-- The table of a list of statements. -/
def ofStatements? (statements : List TomlStatement) : Option Entries :=
  addStatements? [] statements []

/-- A text in which every line break is one character. -/
def normalBreaks : List Char → List Char
  | '\r' :: '\n' :: rest => '\n' :: normalBreaks rest
  | c :: rest => c :: normalBreaks rest
  | [] => []

/-- A text without the mark of byte order that it may start with. -/
def dropOrderMark : List Char → List Char
  | c :: rest => if c = Char.ofNat 0xFEFF then rest else c :: rest
  | [] => []

/-- The table of a settings file. -/
def ofText? (cs : List Char) : Option Entries :=
  (TomlStatement.readAll? (normalBreaks (dropOrderMark cs))).bind ofStatements?

end Toml

end TypedConfig
