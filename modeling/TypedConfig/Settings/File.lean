/-
# Settings in files

A missing file stands for the default settings. Saving makes the directories that
the file lies in.

Key definitions: `Settings.load`, `Settings.save`.
-/
import TypedConfig.Medium.Basic
import TypedConfig.Settings.Text

namespace TypedConfig
namespace Settings

/-- The settings in a file. -/
def load (files : FileSystem) (path : String) : Except SettingsError Settings :=
  match files.read path with
  | .error .notFound => .ok {}
  | .error e => .error (.io path e.message)
  | .ok bytes =>
    match bytes.text? with
    | some text => ofText text
    | none => .error (.io path FileError.notText.message)

/-- Writes settings to a file. -/
def save (s : Settings) (files : FileSystem) (path : String) :
    Except SettingsError Unit × FileSystem :=
  match files.prepare path with
  | (.error e, files) => (.error (.io ((Path.parent? path).getD "") e.message), files)
  | (.ok (), files) =>
    match files.write path (Bytes.ofText s.text) with
    | .ok files => (.ok (), files)
    | .error e => (.error (.io path e.message), files)

end Settings
end TypedConfig
