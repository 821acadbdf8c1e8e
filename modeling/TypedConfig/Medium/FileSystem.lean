/-
# A tree of files

The files and directories of a system, by their names from its top. A path is
resolved name by name, from the top or, if no slash starts it, from the working
directory, and every name on the way must be a directory; an empty name or a dot
stays where it is, and two dots lead up. Neither a path nor a name in it may be
too long. Where a place is locked, nothing is put or taken away.

Key definitions: `FileSystem`, `FileError`, `Place`, `FileSystem.resolve`,
`FileSystem.read`, `FileSystem.write`, `FileSystem.createDirectories`,
`FileSystem.rename`, `FileSystem.listing`.
-/
import TypedConfig.Document.Encoding
import TypedConfig.Medium.Path

namespace TypedConfig

/-- What stands at a path. -/
inductive FileNode where
  | file (bytes : Bytes)
  | directory

/-- Why a file operation fails. -/
inductive FileError where
  | notFound
  | notADirectory
  | isADirectory
  | alreadyExists
  | invalidName
  | tooLong
  | denied
  | notText
deriving DecidableEq

/-- The wording of a file error. -/
def FileError.message : FileError → String
  | .notFound => "no such file or directory"
  | .notADirectory => "not a directory"
  | .isADirectory => "is a directory"
  | .alreadyExists => "already exists"
  | .invalidName => "invalid file name"
  | .tooLong => "file name too long"
  | .denied => "permission denied"
  | .notText => "not valid UTF-8"

/-- Where a path leads: the names from the top of the system. -/
abbrev Place := List String

namespace Place

/-- The names with slashes between them. -/
def key (place : Place) : String := "/".intercalate place

/-- The place of a name in a directory. -/
def child (name : String) (place : Place) : Place := place ++ [name]

/-- The directory that a place lies in. The top lies in itself. -/
def parent (place : Place) : Place := place.dropLast

/-- A place and those it lies in, all of them directories. -/
def directories (place : Place) : SortedMap FileNode :=
  (List.range place.length).foldl
    (fun nodes count => nodes.insert (key (place.take (count + 1))) .directory) SortedMap.empty

end Place

/-- The files and directories of a system. -/
structure FileSystem where
  /-- The path from the top of the directory that is listed. -/
  root : String
  /-- The path from the top of the directory where other paths start. -/
  working : String := "/"
  /-- The places where nothing may be changed. -/
  locked : Place → Bool := fun _ => false
  /-- What there is, by its key: at first the directory that is listed. -/
  nodes : SortedMap FileNode := Place.directories (Path.names root)

namespace FileSystem

/-- Bytes of the longest name. -/
def maxName : Nat := 255

/-- Bytes of the longest path. -/
def maxPath : Nat := 4095

/-- What stands at a place. -/
def node? (fs : FileSystem) : Place → Option FileNode
  | [] => some .directory
  | place => fs.nodes.get? place.key

/-- Where a path starts: at the top, if a slash starts it. -/
def start (fs : FileSystem) (path : String) : Place :=
  if Path.isAbsolute path then [] else Path.names fs.working

/-- Follows pieces of a path from a place. The place reached need not exist. -/
def walk (fs : FileSystem) : Place → List String → Except FileError Place
  | place, [] => .ok place
  | place, piece :: rest =>
    match fs.node? place with
    | none => .error .notFound
    | some (.file _) => .error .notADirectory
    | some .directory =>
      if Path.IsIdle piece then fs.walk place rest
      else if piece = ".." then fs.walk place.parent rest
      else if maxName < piece.utf8ByteSize then .error .tooLong
      else fs.walk (place.child piece) rest

/-- The place that a path leads to. The empty path leads nowhere, and no path holds the
character of code zero. -/
def resolve (fs : FileSystem) (path : String) : Except FileError Place :=
  if path.toList.contains (Char.ofNat 0) then .error .invalidName
  else if maxPath < path.utf8ByteSize then .error .tooLong
  else if path = "" then .error .notFound
  else fs.walk (fs.start path) (Path.segments path)

/-- Puts something at a place, if that is not locked. -/
def put (fs : FileSystem) (node : FileNode) (place : Place) : Except FileError FileSystem :=
  if fs.locked place then .error .denied
  else .ok { fs with nodes := fs.nodes.insert place.key node }

/-- Takes away what stands at a place, if that is not locked. -/
def erase (fs : FileSystem) (place : Place) : Except FileError FileSystem :=
  if fs.locked place then .error .denied
  else .ok { fs with nodes := fs.nodes.erase place.key }

/-- The bytes of the file at a path. -/
def read (fs : FileSystem) (path : String) : Except FileError Bytes :=
  match fs.resolve path with
  | .error e => .error e
  | .ok place =>
    match fs.node? place with
    | none => .error .notFound
    | some .directory => .error .isADirectory
    | some (.file bytes) => .ok bytes

/-- Whether something may be put at a place: the directory it would lie in is there. -/
def checkParent (fs : FileSystem) (place : Place) : Except FileError Unit :=
  match fs.node? place.parent with
  | none => .error .notFound
  | some (.file _) => .error .notADirectory
  | some .directory => .ok ()

/-- Sets the bytes of the file at a path, which is created if it is missing. -/
def write (fs : FileSystem) (path : String) (bytes : Bytes) : Except FileError FileSystem :=
  match fs.resolve path with
  | .error e => .error e
  | .ok place =>
    match fs.node? place with
    | some .directory => .error .isADirectory
    | _ =>
      match fs.checkParent place with
      | .error e => .error e
      | .ok () => fs.put (.file bytes) place

/-- A path without slashes at its end. -/
def trimSlashes (path : String) : String :=
  String.ofList (path.toList.reverse.dropWhile (· = '/')).reverse

/-- Creates the directory at a path, where nothing may be yet. -/
def createDirectory (fs : FileSystem) (path : String) : Except FileError FileSystem :=
  match fs.resolve (trimSlashes path) with
  | .error e => .error e
  | .ok place =>
    match fs.node? place with
    | some _ => .error .alreadyExists
    | none =>
      match fs.checkParent place with
      | .error e => .error e
      | .ok () => fs.put .directory place

/-- Whether a path leads to a directory. -/
def isDirectory (fs : FileSystem) (path : String) : Bool :=
  match fs.resolve path with
  | .error _ => false
  | .ok place => match fs.node? place with
    | some .directory => true
    | _ => false

/-- Creates a directory where there may be one already. -/
def ensureDirectory (fs : FileSystem) (path : String) : Except FileError Unit × FileSystem :=
  match fs.createDirectory path with
  | .ok fs => (.ok (), fs)
  | .error e => if fs.isDirectory path then (.ok (), fs) else (.error e, fs)

/-- Creates the directory at a path and, at most `fuel` of them, those it lies in. -/
def createDirectoriesWith : Nat → FileSystem → String → Except FileError Unit × FileSystem
  | 0, fs, _ => (.error .notFound, fs)
  | fuel + 1, fs, path =>
    if path = "" then (.ok (), fs)
    else
      match fs.ensureDirectory path with
      | (.error .notFound, fs) =>
        match Path.parent? path with
        | none => (.error .notFound, fs)
        | some parent =>
          match createDirectoriesWith fuel fs parent with
          | (.ok (), fs) => fs.ensureDirectory path
          | failed => failed
      | done => done

/-- Creates the directory at a path and all those it lies in. -/
def createDirectories (fs : FileSystem) (path : String) : Except FileError Unit × FileSystem :=
  createDirectoriesWith (path.length + 1) fs path

/-- Moves a file to another path, over a file that may be there. -/
def rename (fs : FileSystem) (source target : String) : Except FileError FileSystem :=
  match fs.resolve source, fs.resolve target with
  | .error e, _ => .error e
  | _, .error e => .error e
  | .ok from', .ok to' =>
    match fs.node? from', fs.node? to' with
    | none, _ => .error .notFound
    | some .directory, _ => .error .isADirectory
    | _, some .directory => .error .isADirectory
    | some (.file bytes), _ =>
      match fs.checkParent to' with
      | .error e => .error e
      | .ok () =>
        match fs.erase from' with
        | .error e => .error e
        | .ok fs => fs.put (.file bytes) to'

/-- The paths of all that is in the directory that is listed, from there, a directory's with a
slash at its end, in order. -/
def listing (fs : FileSystem) : List String :=
  let place : Place := Path.names fs.root
  let front := if place = [] then "" else place.key ++ "/"
  let below := fs.nodes.toList.filter fun entry => front.isPrefixOf entry.1
  let texts := below.map fun entry =>
    let path := String.ofList (entry.1.toList.drop front.length)
    match entry.2 with
    | .directory => path ++ "/"
    | .file _ => path
  texts.mergeSort fun a b => decide (a ≤ b)

end FileSystem

end TypedConfig
