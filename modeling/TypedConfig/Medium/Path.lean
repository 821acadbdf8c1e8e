/-
# File paths as text

A path is text in which slashes separate names. Joining, the parent and the name
of the file are questions about this text alone: no file is looked at. A doubled
slash and a single dot within a path name nothing, so they are passed over when
the last name is looked for; a dot that starts a path counts.

Key definitions: `Path.join`, `Path.parent?`, `Path.fileName?`, `Path.fileStem?`,
`Path.withFileName`, `Path.segments`, `Path.names`.
-/

namespace TypedConfig
namespace Path

/-- Whether a path starts at the root. -/
def isAbsolute (path : String) : Bool := path.toList.head? == some '/'

/-- The path `path` as seen from `base`: an absolute path is itself. A slash is put between the
two only where there is something before it that does not end in one. -/
def join (base path : String) : String :=
  if isAbsolute path then path
  else if base = "" ∨ base.toList.getLast? = some '/' then base ++ path
  else base ++ "/" ++ path

/-- The pieces of a path between its slashes. -/
def segments (path : String) : List String :=
  (path.toList.splitOn '/').map String.ofList

/-- Whether a piece of a path names nothing. -/
def IsIdle (piece : String) : Prop := piece = "" ∨ piece = "."

instance (piece : String) : Decidable (IsIdle piece) := inferInstanceAs (Decidable (_ ∨ _))

/-- The pieces of a path that name something. -/
def names (path : String) : List String := (segments path).filter fun piece => ¬ IsIdle piece

/-- A path cut into what is never taken off it (the root, or a dot that starts it) and the rest,
reversed. -/
def cut (path : String) : List Char × List Char :=
  match path.toList with
  | '/' :: rest => (['/'], rest.reverse)
  | ['.'] => (['.'], [])
  | '.' :: '/' :: rest => (['.'], ('/' :: rest).reverse)
  | cs => ([], cs.reverse)

/-- The last piece of a reversed path and what stands before its slash. -/
def lastPiece (reversed : List Char) : List Char × List Char :=
  ((reversed.takeWhile (· ≠ '/')).reverse, (reversed.dropWhile (· ≠ '/')).drop 1)

/-- A reversed path without the pieces at its end that name nothing; `fuel` bounds their
number. -/
def dropIdle : Nat → List Char → List Char
  | 0, reversed => reversed
  | fuel + 1, reversed =>
    let (piece, rest) := lastPiece reversed
    if reversed ≠ [] ∧ (piece = [] ∨ piece = ['.']) then dropIdle fuel rest else reversed

/-- The text of a path with the given parts. -/
def assemble (start reversed : List Char) : String := String.ofList (start ++ reversed.reverse)

/-- The path of the directory that a path lies in, if it has a last name. -/
def parent? (path : String) : Option String :=
  let (start, reversed) := cut path
  let reversed := dropIdle path.length reversed
  if reversed ≠ [] then
    some (assemble start (dropIdle path.length (lastPiece reversed).2))
  else if start = ['.'] then some ""
  else none

/-- The last name of a path, unless it leads upwards. -/
def fileName? (path : String) : Option String :=
  let reversed := dropIdle path.length (cut path).2
  let (name, _) := lastPiece reversed
  if reversed = [] ∨ name = ['.', '.'] then none else some (String.ofList name)

/-- A name up to its last dot; all of it if that dot is its first character or missing. -/
def stem (name : String) : String :=
  let before := (name.toList.reverse.dropWhile (· ≠ '.')).drop 1
  if before = [] then name else String.ofList before.reverse

/-- The last name of a path without its extension. -/
def fileStem? (path : String) : Option String := (fileName? path).map stem

/-- A path with another last name; one without a last name gets it added. -/
def withFileName (path name : String) : String :=
  match fileName? path with
  | some _ => join ((parent? path).getD "") name
  | none => join path name

end Path
end TypedConfig
