/-
# Trees of settings files

A settings file is a table: names with scalars, arrays and further tables under
them. How a table came to be decides what may still be added to it, so a table
keeps its origin.

Key definitions: `TableOrigin`, `Toml`, `Toml.isPlain`, `Toml.isSpace`.
-/
import TypedConfig.Binary.Basic

namespace TypedConfig

/-- How a table came to be. -/
inductive TableOrigin where
  /-- It has a header of its own, or is the file itself. -/
  | header
  /-- A header names a table inside it. -/
  | outer
  /-- A name with dots leads through it. -/
  | dotted
  /-- It stands between braces, as a value. -/
  | braces
deriving DecidableEq

/-- A value of a settings file. -/
inductive Toml where
  | string (s : String)
  | boolean (b : Bool)
  | integer (n : Int64)
  | float (x : Binary64)
  /-- A date, a time or both, as it is written. -/
  | moment (text : String)
  | array (items : List Toml)
  | table (origin : TableOrigin) (entries : List (String × Toml))
  /-- Tables under one doubled header. -/
  | tables (items : List (List (String × Toml)))

namespace Toml

/-- The names of a table with what is under them. -/
abbrev Entries := List (String × Toml)

/-- What is under a name. -/
def find? (name : String) (entries : Entries) : Option Toml :=
  (entries.find? fun e => e.1 == name).map fun e => e.2

/-- Whether a character may stand for itself in a line: all but the control characters, of which
only the tab may. -/
def isPlain (c : Char) : Bool := c = '\t' || (0x20 ≤ c.toNat && c.toNat ≠ 0x7f)

/-- Whether a character separates within a line. -/
def isSpace (c : Char) : Bool := c = ' ' || c = '\t'

end Toml

end TypedConfig
