/-
# The media that documents are kept on

A store keeps its document either in memory or in a file. The memory medium
counts its writes and can be told to fail them. A file is replaced in one step:
the bytes go to a temporary sibling first, which is then renamed, so a reader
finds the old document or the new one and never a part of either.

Key definitions: `MemoryMedium`, `Media`, `Location`, `MediumError`, `Media.read`,
`Media.write`, `temporaryPath`.
-/
import TypedConfig.Medium.FileSystem

namespace TypedConfig

/-- A document kept in memory. -/
structure MemoryMedium where
  /-- What was last written, if anything was. -/
  contents? : Option Bytes := none
  /-- How many writes succeeded. -/
  writes : Nat := 0
  /-- Whether writes are made to fail. -/
  failWrites : Bool := false

/-- The media there are: one in memory, and the files. -/
structure Media where
  memory : MemoryMedium
  files : FileSystem

/-- Where a store keeps its document. -/
inductive Location where
  | memory
  | file (path : String)
deriving DecidableEq

/-- The text for a location. -/
def Location.text : Location → String
  | .memory => "memory"
  | .file path => path

/-- Why a medium is not read or written. -/
inductive MediumError where
  /-- The memory medium was told to fail. -/
  | injected
  | file (reason : FileError)
deriving DecidableEq

/-- The wording of a medium error. -/
def MediumError.message : MediumError → String
  | .injected => "injected write failure"
  | .file reason => reason.message

/-- Writes to the memory medium. -/
def MemoryMedium.write (m : MemoryMedium) (bytes : Bytes) : Except MediumError MemoryMedium :=
  if m.failWrites then .error .injected
  else .ok { m with contents? := some bytes, writes := m.writes + 1 }

/-- The sibling of a file that its new bytes are written to first. -/
def temporaryPath (path : String) : String :=
  Path.withFileName path ((Path.fileName? path).getD "" ++ ".tmp")

/-- Creates the directories that a file at a path lies in. -/
def FileSystem.prepare (fs : FileSystem) (path : String) : Except FileError Unit × FileSystem :=
  match Path.parent? path with
  | some directory => fs.createDirectories directory
  | none => (.ok (), fs)

/-- Replaces the file at a path in one step. -/
def FileSystem.replace (fs : FileSystem) (path : String) (bytes : Bytes) :
    Except FileError Unit × FileSystem :=
  match fs.prepare path with
  | (.error e, fs) => (.error e, fs)
  | (.ok (), fs) =>
    match fs.write (temporaryPath path) bytes with
    | .error e => (.error e, fs)
    | .ok fs =>
      match fs.rename (temporaryPath path) path with
      | .error e => (.error e, fs)
      | .ok fs => (.ok (), fs)

namespace Media

/-- The bytes at a location, if anything is there. -/
def read (m : Media) : Location → Except MediumError (Option Bytes)
  | .memory => .ok m.memory.contents?
  | .file path =>
    match m.files.read path with
    | .ok bytes => .ok (some bytes)
    | .error .notFound => .ok none
    | .error e => .error (.file e)

/-- Writes bytes to a location. -/
def write (m : Media) (location : Location) (bytes : Bytes) : Except MediumError Unit × Media :=
  match location with
  | .memory =>
    match m.memory.write bytes with
    | .ok memory => (.ok (), { m with memory })
    | .error e => (.error e, m)
  | .file path =>
    match m.files.replace path bytes with
    | (.ok (), files) => (.ok (), { m with files })
    | (.error e, files) => (.error (.file e), { m with files })

end Media

end TypedConfig
