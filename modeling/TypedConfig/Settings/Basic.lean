/-
# Settings of a store

What a store is opened with: the name of the application, the directory for its
named stores, and two switches. Without a directory of its own an application
uses the user's configuration directory, which the environment names.

Key definitions: `Settings`, `Environment`, `platformDirectory?`, `namedStorePath`,
`Settings.directory`, `Settings.storePath`, `SettingsError`.
-/
import TypedConfig.Document.Encoding
import TypedConfig.Medium.Path

namespace TypedConfig

/-- Settings of a store. -/
structure Settings where
  appName : String := "confkit"
  /-- The directory for named stores; the user's own if absent. -/
  directory? : Option String := none
  /-- Whether reading an absent or unreadable entry stores the default. -/
  autoPopulate : Bool := true
  /-- Whether constants are kept resolved in memory. -/
  enumCache : Bool := false
deriving DecidableEq

/-- The two variables that lead to the user's configuration directory. -/
structure Environment where
  /-- The configuration directory. -/
  configHome? : Option String := none
  /-- The home directory. -/
  home? : Option String := none

/-- Why settings are not read, written or resolved. -/
inductive SettingsError where
  | noPlatformDirectory
  | io (path reason : String)
  | parse
deriving DecidableEq

/-- The wording of a settings error. -/
def SettingsError.message : SettingsError → String
  | .noPlatformDirectory => "could not determine platform config directory"
  | .io path reason => "I/O error accessing settings at " ++ path ++ ": " ++ reason
  | .parse => "failed to parse settings TOML"

/-- The user's configuration directory of an application. A variable that is set counts, even to
nothing. -/
def platformDirectory? (env : Environment) (appName : String) : Option String :=
  match env.configHome?, env.home? with
  | some base, _ => some (Path.join base appName)
  | none, some home => some (Path.join (Path.join home ".config") appName)
  | none, none => none

/-- The directory of the named stores, seen from the configuration directory. -/
def storeDirectory : String := "cfg"

/-- The file of a named store in a configuration directory. -/
def namedStorePath (directory name : String) (encoding : Encoding) : String :=
  Path.join (Path.join directory storeDirectory) (name ++ "." ++ encoding.extension)

namespace Settings

/-- The configuration directory. -/
def directory (s : Settings) (env : Environment) : Except SettingsError String :=
  match s.directory? with
  | some directory => .ok directory
  | none => orError .noPlatformDirectory (platformDirectory? env s.appName)

/-- The file of a named store. -/
def storePath (s : Settings) (env : Environment) (name : String) (encoding : Encoding) :
    Except SettingsError String :=
  (s.directory env).map fun directory => namedStorePath directory name encoding

end Settings

end TypedConfig
