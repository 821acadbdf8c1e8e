/-
# Settings are loaded as they were saved

The text of settings is a file of lines (`Settings.text_eq`), which is read as the table of their
names and values (`Toml.ofText?_lines`). The table gives back the settings, so that they are read
from their text, and from the file that they were saved to (`Settings.text_reads_back`).

Key definitions: `Settings.lines`.
Key theorems: `Settings.text_eq`, `Settings.text_reads_back`.
-/
import Mathlib
import TypedConfig.Proofs.Document.RoundTrip
import TypedConfig.Proofs.Medium.Writing
import TypedConfig.Proofs.Toml.Statement
import TypedConfig.Settings.File

namespace TypedConfig
namespace Settings

open Toml

variable {s : Settings}

/-! ### The lines of settings -/

def appNameLine (s : Settings) : Line := ⟨appNameEntry, stringText s.appName, .string s.appName⟩

def directoryLine (directory : String) : Line :=
  ⟨directoryEntry, stringText directory, .string directory⟩

def autoPopulateLine (s : Settings) : Line :=
  ⟨autoPopulateEntry, (Value.boolText s.autoPopulate).toList, .boolean s.autoPopulate⟩

def enumCacheLine (s : Settings) : Line :=
  ⟨enumCacheEntry, (Value.boolText s.enumCache).toList, .boolean s.enumCache⟩

/-- The lines of settings. -/
def lines (s : Settings) : List Line :=
  s.appNameLine :: (s.directory?.toList.map directoryLine ++ [s.autoPopulateLine, s.enumCacheLine])

theorem text_eq (s : Settings) : s.text.toList = s.lines.flatMap Line.text := by
  rw [text, String.toList_ofList]
  cases hdirectory : s.directory? <;>
    simp [lines, hdirectory, line, Line.text, appNameLine, directoryLine, autoPopulateLine,
      enumCacheLine]

/-- The names that settings have entries under. -/
def entryNames : List String :=
  [appNameEntry, directoryEntry, autoPopulateEntry, enumCacheEntry]

theorem isBare_of_mem_entryNames {name : String} (h : name ∈ entryNames) : IsBare name := by
  simp only [entryNames, List.mem_cons, List.not_mem_nil, or_false] at h
  rcases h with rfl | rfl | rfl | rfl <;> exact ⟨by decide, List.all_eq_true.mp rfl⟩

theorem names_sublist (s : Settings) : (s.lines.map Line.name).Sublist entryNames := by
  cases hdirectory : s.directory? with
  | none =>
    simp [lines, hdirectory, entryNames, appNameLine, autoPopulateLine, enumCacheLine]
  | some directory =>
    simp [lines, hdirectory, entryNames, appNameLine, directoryLine, autoPopulateLine,
      enumCacheLine]

theorem isSound_of_mem_lines {l : Line} (h : l ∈ s.lines) : l.IsSound := by
  refine ⟨isBare_of_mem_entryNames (s.names_sublist.subset (List.mem_map_of_mem h)), ?_⟩
  simp only [lines, List.mem_cons, List.mem_append, List.mem_map, List.not_mem_nil, or_false] at h
  rcases h with rfl | ⟨directory, -, rfl⟩ | rfl | rfl
  · exact spellsValue_string _
  · exact spellsValue_string _
  · exact spellsValue_boolean _
  · exact spellsValue_boolean _

/-! ### Reading them back -/

/-- The table of the lines has the settings. -/
theorem ofToml?_lines (s : Settings) :
    ofToml? (s.lines.map fun l => (l.name, l.value)) = some s := by
  obtain ⟨appName, directory?, autoPopulate, enumCache⟩ := s
  cases directory? <;> rfl

theorem ofText_text (s : Settings) : ofText s.text = .ok s := by
  have hnodup : entryNames.Nodup := by decide
  have hread := ofText?_lines (fun l => isSound_of_mem_lines) (hnodup.sublist s.names_sublist)
  rw [ofText, s.text_eq, hread, Option.bind_some, ofToml?_lines]
  rfl

/-- **Settings are loaded as they were saved.** Their text is read as the settings, whatever
characters are in the name of the application and in the directory, and so is a file that they
were saved to. -/
theorem text_reads_back (s : Settings) : ofText s.text = .ok s ∧
    ∀ (files files' : FileSystem) (path : String),
      s.save files path = (.ok (), files') → load files' path = .ok s := by
  refine ⟨s.ofText_text, fun files files' path saved => ?_⟩
  unfold save at saved
  split at saved
  · cases saved
  split at saved
  · rename_i hwrite
    cases saved
    have hread := (FileSystem.write_ok hwrite).2
    simp only [load, hread, Encoding.text?_ofText, ofText_text]
  · cases saved

/-- Settings whose texts have quotes of both kinds, breaks and a control character in them. -/
def awkward : Settings :=
  { appName := "it's \"''' \\\n\t\x01", directory? := some "\n\"\"\"'" }

/-- They are loaded from the file that they were saved to, in a directory that was missing. -/
theorem text_reads_back_awkward :
    ∃ files, awkward.save { root := "/r" } "/r/app/settings.toml" = (.ok (), files) ∧
      load files "/r/app/settings.toml" = .ok awkward := by
  have hok : (awkward.save { root := "/r" } "/r/app/settings.toml").1.isOk = true := by
    decide +kernel
  rcases hsave : awkward.save { root := "/r" } "/r/app/settings.toml" with ⟨result, files⟩
  rw [hsave] at hok
  cases result with
  | ok => exact ⟨files, rfl, (text_reads_back awkward).2 _ files _ hsave⟩
  | error e => cases hok

end Settings
end TypedConfig
