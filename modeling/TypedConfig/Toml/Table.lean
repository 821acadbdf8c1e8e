/-
# Building the tables of a settings file

A settings file adds to its tables statement by statement, and nothing may be
defined twice. A name with dots leads through tables that other such names have
made, and through those that only a header further in stands for, but not into a
table that has its own header; and it must end in one that such names have made.
A header may be given once to a table, and to one that stands so far only for what
is inside it.

Key definitions: `Toml.descend?`, `Toml.addPair?`, `Toml.addTable?`,
`Toml.addToTables?`.
-/
import TypedConfig.Toml.Basic

namespace TypedConfig
namespace Toml

/-- Sets what is under a name. -/
def set (name : String) (v : Toml) : Entries → Entries
  | [] => [(name, v)]
  | (n, w) :: rest => if n = name then (name, v) :: rest else (n, w) :: set name v rest

/-- Adds what is under a name, where nothing may be yet. -/
def add? (name : String) (v : Toml) (entries : Entries) : Option Entries :=
  match find? name entries with
  | none => some (set name v entries)
  | some _ => none

/-- Whether a path may lead into a table. -/
def mayEnter (dotted : Bool) : TableOrigin → Bool
  | .header => !dotted
  | .outer => true
  | .dotted => true
  | .braces => false

/-- The origin of a table that is made where a path leads through. -/
def newOrigin (dotted : Bool) : TableOrigin := if dotted then .dotted else .outer

/-- Changes the table at the end of a path, which is the path of a name with dots or of a header.
Missing tables on the way are made; of tables under a doubled header the last one counts. -/
def descend? (dotted : Bool) (change : TableOrigin → Entries → Option Entries) :
    List String → TableOrigin → Entries → Option Entries
  | [], origin, entries => change origin entries
  | name :: path, _, entries =>
    match find? name entries with
    | none =>
      (descend? dotted change path (newOrigin dotted) []).map fun inner =>
        set name (.table (newOrigin dotted) inner) entries
    | some (.table origin inner) =>
      if mayEnter dotted origin then
        (descend? dotted change path origin inner).map fun inner =>
          set name (.table origin inner) entries
      else none
    | some (.tables items) =>
      match items.getLast? with
      | none => none
      | some last =>
        (descend? dotted change path .header last).map fun inner =>
          set name (.tables (items.dropLast ++ [inner])) entries
    | some _ => none

/-- Adds a value under a name with dots, given as a path and the name at its end. -/
def addPair? (path : List String) (name : String) (v : Toml) (origin : TableOrigin)
    (entries : Entries) : Option Entries :=
  descend? true
    (fun reached inner =>
      if decide (reached = .dotted) = path.isEmpty then none else add? name v inner)
    path origin entries

/-- Gives a table its header. -/
def addTable? (path : List String) (name : String) (entries : Entries) : Option Entries :=
  descend? false
    (fun _ inner =>
      match find? name inner with
      | none => some (set name (.table .header []) inner)
      | some (.table .outer old) => some (set name (.table .header old) inner)
      | some _ => none)
    path .header entries

/-- Adds a table under a doubled header. -/
def addToTables? (path : List String) (name : String) (entries : Entries) : Option Entries :=
  descend? false
    (fun _ inner =>
      match find? name inner with
      | none => some (set name (.tables [[]]) inner)
      | some (.tables items) => some (set name (.tables (items ++ [[]])) inner)
      | some _ => none)
    path .header entries

/-- Adds a value in the table of a header. -/
def addPairIn? (header : List String) (path : List String) (name : String) (v : Toml)
    (entries : Entries) : Option Entries :=
  descend? false (fun origin inner => addPair? path name v origin inner) header .header entries

/-- The table between braces of a list of pairs. -/
def ofPairs? (pairs : List (List String × String × Toml)) : Option Toml :=
  (pairs.foldlM (fun entries p => addPair? p.1 p.2.1 p.2.2 .header entries) []).map
    (.table .braces)

end Toml
end TypedConfig
