/-
# Opening a store

A store is opened from two documents: a seed that the caller brings, and the one
on the medium, whose entries count where both have a key. Bytes that are no
document count as an empty one. Loading is no change: both marks start at zero.

Key definitions: `StoreAddress`, `StoreAddress.name`, `StoreAddress.path`,
`OpenOptions`, `Store.load`, `Store.opened`.
-/
import TypedConfig.Store.Basic

namespace TypedConfig

/-- How a caller says which store is meant. -/
inductive StoreAddress where
  /-- The file at a path. -/
  | file (path : String)
  /-- The store of a name in the configuration directory. -/
  | named (name : String)

/-- The name of the store at an address; for a file, its name without the extension. -/
def StoreAddress.name : StoreAddress → String
  | .file path => (Path.fileStem? path).getD ""
  | .named name => name

/-- The file of an address. -/
def StoreAddress.path (address : StoreAddress) (settings : Settings) (env : Environment)
    (encoding : Encoding) : Except SettingsError String :=
  match address with
  | .file path => .ok path
  | .named name => settings.storePath env name encoding

/-- What a store is opened with. -/
structure OpenOptions where
  address : StoreAddress
  encoding : Encoding := .plain
  /-- A document for the keys that the medium lacks. -/
  seed? : Option Bytes := none
  settings : Settings := {}
  /-- Whether the document is kept in memory; the address then only names the store. -/
  inMemory : Bool := false

namespace OpenOptions

/-- Where the store keeps its document. -/
def location (o : OpenOptions) (env : Environment) : Except SettingsError Location :=
  if o.inMemory then .ok .memory
  else (o.address.path o.settings env o.encoding).map .file

end OpenOptions

/-- The document in bytes, if there are any and they are one; otherwise an empty one. -/
def Encoding.documentOrEmpty (encoding : Encoding) (bytes? : Option Bytes) : Document :=
  match bytes? with
  | none => SortedMap.empty
  | some bytes =>
    match encoding.decode bytes with
    | .ok d => d
    | .error _ => SortedMap.empty

namespace Store

/-- The store of a seed and of what its medium holds. -/
def load (o : OpenOptions) (location : Location) (stored? : Option Bytes) : Store :=
  { name := o.address.name
    location := location
    encoding := o.encoding
    entries := (o.encoding.documentOrEmpty o.seed?).merge (o.encoding.documentOrEmpty stored?)
    autoPopulate := o.settings.autoPopulate
    enumCache := o.settings.enumCache }

/-- Opens a store. This fails if its file cannot be told or its medium cannot be read. -/
def opened (o : OpenOptions) (env : Environment) (media : Media) : Except StoreError Store :=
  match o.location env with
  | .error e => .error (.settings e)
  | .ok location =>
    match media.read location with
    | .error e => .error (.medium location e)
    | .ok stored? => .ok (load o location stored?)

end Store

end TypedConfig
