/-
# Enumerations

A setting may take one of finitely many named constants. A constant is written by
its name, so the names of one enumeration differ, and there is at least one.

Key definitions: `Enumeration`, `Enumeration.index?`, `Enumeration.name`.
-/

namespace TypedConfig

/-- A declared enumeration. -/
structure Enumeration where
  /-- The name that tells enumerations apart. -/
  fullName : String
  /-- The name shown to a reader. -/
  shortName : String
  /-- The first constant, which is the default. -/
  first : String
  /-- The other constants, in order. -/
  others : List String
  /-- No two constants have the same name. -/
  distinct : (first :: others).Nodup := by decide
deriving DecidableEq

namespace Enumeration

/-- The names of the constants, in order. -/
def names (e : Enumeration) : List String := e.first :: e.others

/-- A constant, by its place. -/
abbrev Index (e : Enumeration) : Type := Fin e.names.length

/-- The place of the first constant. -/
def firstIndex (e : Enumeration) : e.Index := ⟨0, Nat.succ_pos _⟩

/-- The name of a constant. -/
def name (e : Enumeration) (i : e.Index) : String := e.names.get i

/-- The constant of a name, upper and lower case apart. -/
def index? (e : Enumeration) (name : String) : Option e.Index := e.names.finIdxOf? name

end Enumeration

end TypedConfig
