/-
# Settings as text

Settings are written one in a line, the directory only if there is one. Reading
takes any settings file: a missing entry has its default, other entries do not
matter, and an entry of the wrong sort is an error like a text that is no settings
file at all.

Key definitions: `Settings.text`, `Settings.ofToml?`, `Settings.ofText`.
-/
import TypedConfig.Settings.Basic
import TypedConfig.Toml.Statement

namespace TypedConfig
namespace Settings

/-! ### The names of the entries -/

/-- The entry of the application's name. -/
def appNameEntry : String := "app_name"

/-- The entry of the directory. -/
def directoryEntry : String := "config_dir"

/-- The entry that says whether defaults are stored. -/
def autoPopulateEntry : String := "auto_populate"

/-- The entry that says whether constants are kept resolved. -/
def enumCacheEntry : String := "enum_cache"

/-! ### Writing -/

/-- The line of an entry. -/
def line (name : String) (value : List Char) : List Char :=
  name.toList ++ [' ', '=', ' '] ++ value ++ ['\n']

/-- The text of settings. -/
def text (s : Settings) : String :=
  String.ofList
    (line appNameEntry (Toml.stringText s.appName)
      ++ (match s.directory? with
        | some directory => line directoryEntry (Toml.stringText directory)
        | none => [])
      ++ line autoPopulateEntry (Value.boolText s.autoPopulate).toList
      ++ line enumCacheEntry (Value.boolText s.enumCache).toList)

/-! ### Reading -/

/-- The string of an entry, where there is one: a missing entry has none. -/
def stringEntry? (name : String) (entries : Toml.Entries) : Option (Option String) :=
  match Toml.find? name entries with
  | none => some none
  | some (.string s) => some (some s)
  | some _ => none

/-- The truth value of an entry, or its default where it is missing. -/
def booleanEntry? (name : String) (default : Bool) (entries : Toml.Entries) : Option Bool :=
  match Toml.find? name entries with
  | none => some default
  | some (.boolean b) => some b
  | some _ => none

/-- The settings in the table of a file. -/
def ofToml? (entries : Toml.Entries) : Option Settings := do
  let standard : Settings := {}
  let appName? ← stringEntry? appNameEntry entries
  let directory? ← stringEntry? directoryEntry entries
  let autoPopulate ← booleanEntry? autoPopulateEntry standard.autoPopulate entries
  let enumCache ← booleanEntry? enumCacheEntry standard.enumCache entries
  pure { appName := appName?.getD standard.appName, directory?, autoPopulate, enumCache }

/-- The settings in a text. -/
def ofText (text : String) : Except SettingsError Settings :=
  orError .parse ((Toml.ofText? text.toList).bind ofToml?)

end Settings
end TypedConfig
