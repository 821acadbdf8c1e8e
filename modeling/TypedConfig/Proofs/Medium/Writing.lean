/-
# What was written is read

A path leads where it led as long as the directories on its way stay: files may be
put and taken away beside it (`FileSystem.resolve_of_keepsDirectories`). Writing a file
and moving one do just that, so a file that was replaced holds the new bytes
(`FileSystem.read_of_replace`), and so does every medium that was written to
(`Media.read_of_write`).

Key definitions: `FileSystem.KeepsDirectories`.
Key theorems: `FileSystem.write_eq_ok`, `FileSystem.rename_eq_ok`, `FileSystem.read_of_replace`,
`Media.read_of_write`.
-/
import Mathlib
import TypedConfig.Medium.Basic

namespace TypedConfig
namespace FileSystem

/-- What is a directory before is one after, and nothing but what there is was changed. -/
structure KeepsDirectories (before after : FileSystem) : Prop where
  frame : after = { before with nodes := after.nodes }
  kept : ∀ place, before.node? place = some .directory → after.node? place = some .directory

variable {fs fs' : FileSystem} {place : Place}

theorem KeepsDirectories.refl (fs : FileSystem) : fs.KeepsDirectories fs := ⟨rfl, fun _ h => h⟩

theorem KeepsDirectories.trans {fs₁ fs₂ fs₃ : FileSystem} (h : fs₁.KeepsDirectories fs₂)
    (h' : fs₂.KeepsDirectories fs₃) : fs₁.KeepsDirectories fs₃ := by
  refine ⟨?_, fun place hplace => h'.kept place (h.kept place hplace)⟩
  rw [h'.frame, h.frame]

theorem KeepsDirectories.start_eq (keeps : fs.KeepsDirectories fs') (path : String) :
    fs'.start path = fs.start path := by
  rw [keeps.frame]
  rfl

theorem walk_of_keepsDirectories (keeps : fs.KeepsDirectories fs') :
    ∀ (pieces : List String) (start : Place) {place : Place},
      fs.walk start pieces = .ok place → fs'.walk start pieces = .ok place
  | [], _, _, h => h
  | piece :: rest, start, place, h => by
    unfold walk at h ⊢
    cases hnode : fs.node? start with
    | none =>
      rw [hnode] at h
      cases h
    | some node =>
      cases node with
      | file bytes =>
        rw [hnode] at h
        cases h
      | directory =>
        rw [hnode] at h
        rw [keeps.kept start hnode]
        dsimp only at h ⊢
        split_ifs at h ⊢ with hidle hup hlong
        · exact walk_of_keepsDirectories keeps rest start h
        · exact walk_of_keepsDirectories keeps rest start.parent h
        · exact walk_of_keepsDirectories keeps rest (start.child piece) h

/-- A path leads where it led. -/
theorem resolve_of_keepsDirectories (keeps : fs.KeepsDirectories fs') {path : String}
    (h : fs.resolve path = .ok place) : fs'.resolve path = .ok place := by
  unfold resolve at h ⊢
  rw [keeps.start_eq]
  split_ifs at h ⊢ with hcode hlong hempty
  exact walk_of_keepsDirectories keeps _ _ h

/-! ### Putting and taking away a file -/

/-- What stands below the top is found by its key. -/
theorem node?_eq (fs : FileSystem) (hne : place ≠ []) :
    fs.node? place = fs.nodes.get? place.key := by
  cases place with
  | nil => exact absurd rfl hne
  | cons name names => rfl

theorem ne_top (h : fs.node? place ≠ some .directory) : place ≠ [] := by
  rintro rfl
  exact h rfl

theorem put_eq_ok {node : FileNode} : fs.put node place = .ok fs' ↔
    fs.locked place = false ∧ { fs with nodes := fs.nodes.insert place.key node } = fs' := by
  unfold put
  cases fs.locked place <;> simp

theorem erase_eq_ok : fs.erase place = .ok fs' ↔
    fs.locked place = false ∧ { fs with nodes := fs.nodes.erase place.key } = fs' := by
  unfold erase
  cases fs.locked place <;> simp

theorem node?_put {node : FileNode} (h : fs.put node place = .ok fs')
    (hroot : fs.node? place ≠ some .directory) : fs'.node? place = some node := by
  obtain ⟨-, rfl⟩ := put_eq_ok.mp h
  rw [node?_eq _ (ne_top hroot)]
  exact SortedMap.get?_insert_self _ _ _

/-- What keeps the directories below the top keeps all of them. -/
theorem KeepsDirectories.of_get? (frame : fs' = { fs with nodes := fs'.nodes })
    (kept : ∀ key, fs.nodes.get? key = some .directory → fs'.nodes.get? key = some .directory) :
    fs.KeepsDirectories fs' := by
  refine ⟨frame, fun other hother => ?_⟩
  by_cases hne : other = []
  · rw [hne]
    rfl
  · rw [node?_eq _ hne] at hother ⊢
    exact kept _ hother

/-- A directory does not have the key of what is none. -/
theorem key_ne (hfile : fs.node? place ≠ some .directory) {key : String}
    (hkey : fs.nodes.get? key = some .directory) : place.key ≠ key := by
  rintro rfl
  rw [node?_eq fs (ne_top hfile)] at hfile
  exact hfile hkey

theorem keepsDirectories_put {bytes : Bytes} (h : fs.put (.file bytes) place = .ok fs')
    (hfile : fs.node? place ≠ some .directory) : fs.KeepsDirectories fs' := by
  obtain ⟨-, rfl⟩ := put_eq_ok.mp h
  refine .of_get? rfl fun key hkey => ?_
  rw [SortedMap.get?_insert, if_neg (key_ne hfile hkey), hkey]

theorem keepsDirectories_erase (h : fs.erase place = .ok fs')
    (hfile : fs.node? place ≠ some .directory) : fs.KeepsDirectories fs' := by
  obtain ⟨-, rfl⟩ := erase_eq_ok.mp h
  refine .of_get? rfl fun key hkey => ?_
  rw [SortedMap.get?_erase, if_neg (key_ne hfile hkey), hkey]

/-- Taking a file away adds nothing. -/
theorem node?_of_erase {other : Place} {node : FileNode} (h : fs.erase place = .ok fs')
    (hnode : fs'.node? other = some node) : fs.node? other = some node := by
  obtain ⟨-, rfl⟩ := erase_eq_ok.mp h
  by_cases hne : other = []
  · rw [hne] at hnode ⊢
    exact hnode
  · rw [node?_eq _ hne, SortedMap.get?_erase] at hnode
    split_ifs at hnode
    rwa [node?_eq fs hne]

/-! ### Reading, writing and moving -/

theorem read_eq_ok {path : String} {bytes : Bytes} :
    fs.read path = .ok bytes ↔
      ∃ place, fs.resolve path = .ok place ∧ fs.node? place = some (.file bytes) := by
  constructor
  · intro h
    unfold read at h
    split at h
    · cases h
    rename_i place hplace
    split at h
    · cases h
    · cases h
    rename_i bytes' hnode
    cases h
    exact ⟨place, hplace, hnode⟩
  · rintro ⟨place, hplace, hnode⟩
    unfold read
    rw [hplace]
    dsimp only
    rw [hnode]

theorem isDirectory_of_checkParent {place : Place} (h : fs.checkParent place = .ok ()) :
    fs.node? place.parent = some .directory := by
  unfold checkParent at h
  split at h
  · cases h
  · cases h
  · assumption

/-- What a write does. -/
theorem write_eq_ok {path : String} {bytes : Bytes} (h : fs.write path bytes = .ok fs') :
    ∃ place, fs.resolve path = .ok place ∧ fs.node? place ≠ some .directory ∧
      fs.node? place.parent = some .directory ∧ fs.put (.file bytes) place = .ok fs' := by
  unfold write at h
  split at h
  · cases h
  rename_i place hplace
  split at h
  · cases h
  rename_i hfile
  split at h
  · cases h
  rename_i hparent
  exact ⟨place, hplace, hfile, isDirectory_of_checkParent hparent, h⟩

/-- Where a path was written, the bytes are, and no directory went away. -/
theorem write_ok {path : String} {bytes : Bytes} (h : fs.write path bytes = .ok fs') :
    fs.KeepsDirectories fs' ∧ fs'.read path = .ok bytes := by
  obtain ⟨place, hplace, hfile, -, hput⟩ := write_eq_ok h
  have keeps := keepsDirectories_put hput hfile
  exact ⟨keeps, read_eq_ok.mpr ⟨place, resolve_of_keepsDirectories keeps hplace,
    node?_put hput hfile⟩⟩

/-- What a rename does. -/
theorem rename_eq_ok {source target : String} {bytes : Bytes}
    (hread : fs.read source = .ok bytes) (h : fs.rename source target = .ok fs') :
    ∃ from' to' taken, fs.resolve source = .ok from' ∧ fs.resolve target = .ok to' ∧
      fs.node? from' = some (.file bytes) ∧ fs.node? to' ≠ some .directory ∧
      fs.node? to'.parent = some .directory ∧ fs.erase from' = .ok taken ∧
      taken.put (.file bytes) to' = .ok fs' := by
  obtain ⟨place, hplace, hbytes⟩ := read_eq_ok.mp hread
  unfold rename at h
  rw [hplace] at h
  split at h
  · cases h
  · cases h
  rename_i from' to' hsource htarget
  cases hsource
  rw [hbytes] at h
  split at h
  · cases h
  · cases h
  · cases h
  rename_i hfrom hto
  cases hfrom
  split at h
  · cases h
  rename_i hparent
  split at h
  · cases h
  rename_i taken herase
  exact ⟨place, to', taken, hplace, htarget, hbytes, hto, isDirectory_of_checkParent hparent,
    herase, h⟩

theorem rename_ok {source target : String} {bytes : Bytes} (hread : fs.read source = .ok bytes)
    (h : fs.rename source target = .ok fs') :
    fs.KeepsDirectories fs' ∧ fs'.read target = .ok bytes := by
  obtain ⟨from', to', taken, -, htarget, hfrom, hto, -, herase, hput⟩ := rename_eq_ok hread h
  have keeps := keepsDirectories_erase herase (by rw [hfrom]; simp)
  have hfile : taken.node? to' ≠ some .directory := fun hdirectory =>
    hto (node?_of_erase herase hdirectory)
  have keeps' := keeps.trans (keepsDirectories_put hput hfile)
  exact ⟨keeps', read_eq_ok.mpr ⟨to', resolve_of_keepsDirectories keeps' htarget,
    node?_put hput hfile⟩⟩

/-- **A file that was replaced holds the new bytes.** -/
theorem read_of_replace {path : String} {bytes : Bytes}
    (h : fs.replace path bytes = (.ok (), fs')) : fs'.read path = .ok bytes := by
  unfold replace at h
  split at h
  · cases h
  split at h
  · cases h
  rename_i hwrite
  split at h
  · cases h
  rename_i hrename
  cases h
  exact (rename_ok (write_ok hwrite).2 hrename).2

end FileSystem

/-- **A medium that was written to holds the bytes.** -/
theorem Media.read_of_write {m m' : Media} {location : Location} {bytes : Bytes}
    (h : m.write location bytes = (.ok (), m')) : m'.read location = .ok (some bytes) := by
  cases location with
  | memory =>
    simp only [write] at h
    split at h
    · rename_i memory hwrite
      cases h
      unfold MemoryMedium.write at hwrite
      split at hwrite <;> cases hwrite
      rfl
    · cases h
  | file path =>
    simp only [write] at h
    split at h
    · rename_i files hreplace
      cases h
      simp only [read, FileSystem.read_of_replace hreplace]
    · cases h

end TypedConfig
