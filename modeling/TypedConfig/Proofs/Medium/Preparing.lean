/-
# Before a file is replaced

Until the rename, the replacement of a file makes directories on the way to it and writes its
temporary sibling, and nothing else (`FileSystem.Prepared`). What a path led to stays what it
was, and a path that failed still fails (`FileSystem.Prepared.read_eq`). The exception is a path
whose way had gaps. If it leads down, nothing is found on it before and after
(`FileSystem.Prepared.read_of_missing`); a step up from a directory that was missing may now lead
to an older file (`FileSystem.Prepared.read_older`).

Key definitions: `FileSystem.Prepared`, `Path.OnWay`.
Key theorems: `FileSystem.Prepared.ensureDirectory`, `FileSystem.Prepared.write`,
`FileSystem.Prepared.read_older`, `FileSystem.Prepared.read_of_missing`,
`FileSystem.Prepared.read_eq`.
-/
import Mathlib
import TypedConfig.Proofs.Medium.Places

namespace TypedConfig

/-- What a directory that is made for a path is: where every path starts, or on the way to it. -/
def Path.OnWay (directory path : String) : Prop :=
  directory = "" ∨ directory = "/" ∨
    directory.toList.getLast? ≠ some '/' ∧ Path.Above directory path

theorem Path.OnWay.parent {directory parent path : String} (h : OnWay directory path)
    (hparent : parent? directory = some parent) : OnWay parent path := by
  rcases parent?_eq_some hparent with htop | htop | ⟨hends, habove⟩
  · exact .inl htop
  · exact .inr (.inl htop)
  · rcases h with rfl | rfl | ⟨-, h⟩
    · cases hparent
    · cases hparent
    · exact .inr (.inr ⟨hends, habove.trans h⟩)

namespace FileSystem

variable {fs fs₁ fs₂ : FileSystem} {path : String}

/-- What may have happened to a tree before a file in it is replaced. -/
structure Prepared (path : String) (fs fs₁ : FileSystem) : Prop where
  tree : fs₁.IsTree
  keeps : fs.KeepsDirectories fs₁
  /-- Directories on the way were made, and the temporary sibling was written. -/
  changed : ∀ key, fs₁.nodes.get? key = fs.nodes.get? key ∨
    (fs.nodes.get? key = none ∧ fs₁.nodes.get? key = some .directory ∧
      ∃ directory, Path.Above directory path ∧ fs₁.LeadsTo directory key) ∨
    (fs₁.LeadsTo (temporaryPath path) key ∧ ∃ bytes, fs₁.nodes.get? key = some (.file bytes))

theorem Prepared.refl (tree : fs.IsTree) (path : String) : Prepared path fs fs :=
  ⟨tree, .refl fs, fun _ => .inl rfl⟩

/-- What is put into the tree is a directory on the way, or the temporary sibling. -/
theorem Prepared.put {node : FileNode} {place : Place} (prepared : Prepared path fs fs₁)
    (clean : place.Clean) (hne : place ≠ []) (hparent : fs₁.node? place.parent = some .directory)
    (keeps : fs₁.KeepsDirectories fs₂) (h : fs₁.put node place = .ok fs₂)
    (hnode : (fs₁.node? place = none ∧ node = .directory ∧
        ∃ directory, Path.Above directory path ∧ fs₁.LeadsTo directory place.key) ∨
      fs₁.LeadsTo (temporaryPath path) place.key ∧ ∃ bytes, node = .file bytes) :
    Prepared path fs fs₂ := by
  refine ⟨prepared.tree.put keeps h hne clean hparent, prepared.keeps.trans keeps, fun key => ?_⟩
  rw [get?_put h]
  split_ifs with hkey
  · subst hkey
    rcases hnode with ⟨hnone, rfl, directory, habove, hleads⟩ | ⟨hleads, bytes, rfl⟩
    · rw [node?_eq _ hne] at hnone
      have hbefore : fs.nodes.get? place.key = none := by
        rcases prepared.changed place.key with hsame | ⟨-, hmade, -⟩ | ⟨-, bytes, hfile⟩
        · rw [← hsame, hnone]
        · rw [hnone] at hmade
          cases hmade
        · rw [hnone] at hfile
          cases hfile
      exact .inr (.inl ⟨hbefore, rfl, directory, habove, hleads.mono keeps⟩)
    · exact .inr (.inr ⟨hleads.mono keeps, bytes, rfl⟩)
  · refine (prepared.changed key).imp_right (Or.imp ?_ ?_)
    · rintro ⟨hnone, hmade, directory, habove, hleads⟩
      exact ⟨hnone, hmade, directory, habove, hleads.mono keeps⟩
    · exact And.imp_left (·.mono keeps)

/-! ### Making directories -/

theorem trimSlashes_eq_self (h : path.toList.getLast? ≠ some '/') : trimSlashes path = path := by
  unfold trimSlashes
  rw [← List.head?_reverse] at h
  cases hreversed : path.toList.reverse with
  | nil =>
    rw [List.reverse_eq_nil_iff, String.toList_eq_nil_iff] at hreversed
    rw [hreversed]
    rfl
  | cons c rest =>
    rw [hreversed, List.head?_cons] at h
    rw [List.dropWhile_cons_of_neg (by simpa using h), ← hreversed, List.reverse_reverse,
      String.ofList_toList]

/-- A failed attempt changes nothing. -/
theorem ensureDirectory_of_error {e : FileError} (h : fs₁.ensureDirectory path = (.error e, fs₂)) :
    fs₂ = fs₁ := by
  unfold ensureDirectory at h
  split at h
  · cases h
  · split at h <;> cases h
    rfl

theorem Prepared.createDirectory {directory : String} (prepared : Prepared path fs fs₁)
    (onWay : Path.OnWay directory path) (h : fs₁.createDirectory directory = .ok fs₂) :
    Prepared path fs fs₂ := by
  unfold FileSystem.createDirectory at h
  split at h
  · cases h
  rename_i place hplace
  split at h
  · cases h
  rename_i hnone
  split at h
  · cases h
  rename_i hparent
  -- nothing is made where every path starts
  have nowhere : fs₁.resolve "" ≠ .ok place := fun hempty => (resolve_eq_ok.mp hempty).1.2.2 rfl
  rcases onWay with rfl | rfl | ⟨hends, habove⟩
  · exact absurd hplace nowhere
  · exact absurd hplace nowhere
  · rw [trimSlashes_eq_self hends] at hplace
    have hne : place ≠ [] := ne_top (by rw [hnone]; simp)
    exact prepared.put (resolve_clean hplace) hne (isDirectory_of_checkParent hparent)
      (keepsDirectories_put_directory h) h
      (.inl ⟨hnone, rfl, directory, habove, place, hne, hplace, rfl⟩)

theorem Prepared.ensureDirectory {directory : String} {result : Except FileError Unit}
    (prepared : Prepared path fs fs₁) (onWay : Path.OnWay directory path)
    (h : fs₁.ensureDirectory directory = (result, fs₂)) : Prepared path fs fs₂ := by
  unfold FileSystem.ensureDirectory at h
  split at h
  · rename_i made hmade
    cases h
    exact prepared.createDirectory onWay hmade
  · split at h <;> cases h <;> exact prepared

/-! ### Writing the temporary sibling -/

theorem Prepared.write {bytes : Bytes} (prepared : Prepared path fs fs₁)
    (h : fs₁.write (temporaryPath path) bytes = .ok fs₂) : Prepared path fs fs₂ := by
  obtain ⟨place, hplace, hfile, hparent, hput⟩ := write_eq_ok h
  have hne : place ≠ [] := ne_top hfile
  exact prepared.put (resolve_clean hplace) hne hparent (write_ok h).1 hput
    (.inr ⟨⟨place, hne, hplace, rfl⟩, bytes, rfl⟩)

/-! ### Reading -/

/-- A file and its temporary sibling are at two places. -/
theorem temporary_apart (tree : fs.IsTree) {place place' : Place}
    (h : fs.resolve path = .ok place) (h' : fs.resolve (temporaryPath path) = .ok place')
    (hfile : fs.node? place' ≠ some .directory) : place ≠ place' := by
  rintro rfl
  obtain ⟨parent, name, rfl, hname⟩ := (resolve_ends tree h).resolve_left hfile
  obtain ⟨parent', name', hchild, hname'⟩ := (resolve_ends tree h').resolve_left hfile
  rw [fileName?_temporaryPath hname (Path.noSlash_of_fileName? hname),
    ← Place.eq_of_child_eq hchild] at hname'
  exact name_ne_append_tmp name (Option.some.inj hname').symm

/-- A directory on the way to a path starts where the path does. -/
theorem start_above {directory rest : String} (hne : directory ≠ "") :
    fs.start (directory ++ "/" ++ rest) = fs.start directory := by
  rw [String.append_assoc, fs.start_append hne]

/-- A path that led somewhere passed through a directory wherever one is on the way. -/
theorem above_isDirectory (keeps : fs.KeepsDirectories fs₁) {place above : Place}
    {directory : String} (h : fs.resolve path = .ok place) (habove : Path.Above directory path)
    (hdirectory : fs₁.resolve directory = .ok above) : fs.node? above = some .directory := by
  obtain ⟨rest, rfl, -⟩ := habove
  obtain ⟨⟨-, -, hne⟩, hwalk⟩ := resolve_eq_ok.mp hdirectory
  rw [keeps.start_eq] at hwalk
  have hpath := (resolve_eq_ok.mp h).2
  rw [start_above hne, Path.segments_append, walk_append] at hpath
  obtain ⟨mid, hmid, hrest⟩ := hpath
  have hsame := walk_of_keepsDirectories keeps _ _ hmid
  rw [hwalk] at hsame
  cases hsame
  obtain ⟨piece, pieces, hpieces⟩ := List.exists_cons_of_ne_nil (Path.segments_ne_nil rest)
  rw [hpieces] at hrest
  exact (walk_cons_eq_ok.mp hrest).1

/-- The temporary sibling starts where the file does. -/
theorem start_temporaryPath (fs : FileSystem) (path : String) :
    fs.start (temporaryPath path) = fs.start path := by
  unfold start
  rw [isAbsolute_temporaryPath]

variable (prepared : Prepared path fs fs₁) {place : Place}
include prepared

/-- No path leads to a place where the temporary sibling was written. -/
theorem Prepared.temporary_ne {bytes : Bytes} (hne : place ≠ []) (h : fs₁.resolve path = .ok place)
    (htemporary : fs₁.LeadsTo (temporaryPath path) place.key) :
    fs₁.nodes.get? place.key ≠ some (.file bytes) := by
  intro hfile
  have hresolve := htemporary.resolve_eq hne (resolve_clean h)
  refine temporary_apart prepared.tree h hresolve ?_ rfl
  rw [node?_eq _ hne, hfile]
  simp

/-- What a path led to is what it was. -/
theorem Prepared.node?_eq (h : fs.resolve path = .ok place) :
    fs₁.node? place = fs.node? place := by
  by_cases hne : place = []
  · rw [hne]
    rfl
  have hkept := resolve_of_keepsDirectories prepared.keeps h
  rw [FileSystem.node?_eq _ hne, FileSystem.node?_eq _ hne]
  rcases prepared.changed place.key with
    hsame | ⟨hnone, -, directory, habove, hleads⟩ | ⟨htemporary, bytes, hfile⟩
  · exact hsame
  · have hresolve := hleads.resolve_eq hne (resolve_clean h)
    have hdirectory := above_isDirectory prepared.keeps h habove hresolve
    rw [FileSystem.node?_eq _ hne, hnone] at hdirectory
    cases hdirectory
  · exact absurd hfile (prepared.temporary_ne hne hkept htemporary)

/-- What was a file still is one. -/
theorem Prepared.files (place : Place) (bytes : Bytes) (h : fs.node? place = some (.file bytes)) :
    ∃ bytes', fs₁.node? place = some (.file bytes') := by
  have hne : place ≠ [] := ne_top (by rw [h]; simp)
  rw [FileSystem.node?_eq _ hne] at h ⊢
  rcases prepared.changed place.key with hsame | ⟨hnone, -⟩ | ⟨-, hfile⟩
  · exact ⟨bytes, hsame.trans h⟩
  · rw [h] at hnone
    cases hnone
  · exact hfile

/-- **A path that led nowhere leads to nothing new**: what is read there was there before. -/
theorem Prepared.read_older {old : Bytes} (h : fs₁.read path = .ok old) :
    ∃ place, fs₁.resolve path = .ok place ∧ fs.node? place = some (.file old) := by
  obtain ⟨place, hplace, hnode⟩ := read_eq_ok.mp h
  refine ⟨place, hplace, ?_⟩
  have hne : place ≠ [] := ne_top (by rw [hnode]; simp)
  rw [FileSystem.node?_eq _ hne] at hnode ⊢
  rcases prepared.changed place.key with hsame | ⟨-, hmade, -⟩ | ⟨htemporary, -⟩
  · rw [← hsame, hnode]
  · rw [hnode] at hmade
    cases hmade
  · exact absurd hnode (prepared.temporary_ne hne hplace htemporary)

/-- Nothing is where a path leads down to, if nothing was there. -/
theorem Prepared.get?_eq_none (hne : place ≠ []) (down : ".." ∉ Path.names path)
    (h : fs₁.resolve path = .ok place) (hnone : fs.nodes.get? place.key = none) :
    fs₁.nodes.get? place.key = none := by
  rcases prepared.changed place.key with
    hsame | ⟨-, -, directory, ⟨rest, rfl, hrest⟩, hleads⟩ | ⟨htemporary, bytes, hfile⟩
  · rw [hsame, hnone]
  · -- the path has more names than a directory on the way
    exfalso
    have hresolve := hleads.resolve_eq hne (resolve_clean h)
    have hpath := names_of_resolve down h
    rw [Path.names_append] at down hpath
    have hdirectory := names_of_resolve (fun hup => down (List.mem_append_left _ hup)) hresolve
    rw [start_above (resolve_eq_ok.mp hresolve).1.2.2, ← List.append_assoc, ← hdirectory] at hpath
    exact hrest (List.append_right_eq_self.mp hpath.symm)
  · exact absurd hfile (prepared.temporary_ne hne h htemporary)

/-- A temporary sibling is in the way of no path that leads down. -/
theorem Prepared.not_file_of_prefix {names : List String} {bytes : Bytes}
    (down : ".." ∉ Path.names path) (hbegins : names <+: Path.names path)
    (hnone : fs.node? (fs.start path ++ names) = none) :
    fs₁.node? (fs.start path ++ names) ≠ some (.file bytes) := by
  intro hfile
  have hne : fs.start path ++ names ≠ [] := ne_top (by rw [hnone]; simp)
  rw [FileSystem.node?_eq _ hne] at hnone hfile
  rcases prepared.changed (Place.key (fs.start path ++ names)) with
    hsame | ⟨-, hmade, -⟩ | ⟨hleads, -⟩
  · rw [hsame, hnone] at hfile
    cases hfile
  · rw [hfile] at hmade
    cases hmade
  · have clean : Place.Clean (fs.start path ++ names) := by
      intro name hname
      rcases List.mem_append.mp hname with hname | hname
      · exact fs.start_clean path name hname
      · exact Place.clean_names path name (hbegins.subset hname)
    have hplace := names_of_resolve (up_not_mem_names_temporaryPath down)
      (hleads.resolve_eq hne clean)
    rw [start_temporaryPath, prepared.keeps.start_eq] at hplace
    refine names_temporaryPath_not_prefix path ?_
    rwa [← List.append_cancel_left hplace]

/-- **On a path that leads down, what was missing stays missing.** -/
theorem Prepared.read_of_missing (tree : fs.IsTree) (down : LeadsDown path)
    (h : fs.resolve path = .error .notFound) : fs₁.read path = .error .notFound := by
  by_cases hfollow : CanFollow path
  · have noUp : ".." ∉ Path.names path := fun hup => (down _ hup).1 rfl
    have hpieces : ∀ piece ∈ Path.segments path,
        '/' ∉ piece.toList ∧ piece ≠ ".." ∧ piece.utf8ByteSize ≤ maxName := by
      intro piece hpiece
      refine ⟨Path.noSlash_of_mem_segments hpiece, ?_⟩
      by_cases hidle : Path.IsIdle piece
      · rcases hidle with rfl | rfl <;> decide
      · exact down piece (List.mem_filter.mpr ⟨hpiece, by simpa using hidle⟩)
    have hresolve : fs₁.resolve path = fs₁.walk (fs.start path) (Path.segments path) := by
      rw [resolve_of_canFollow hfollow, prepared.keeps.start_eq]
    rw [resolve_of_canFollow hfollow] at h
    unfold read
    have hmissing := walk_missing tree prepared.keeps (fs.start_clean path) hpieces
      (fun names bytes hbegins hnone => prepared.not_file_of_prefix noUp hbegins hnone) (.inl h)
    rcases hmissing with hmissing | ⟨place, hwalk, hnone⟩
    · rw [hresolve, hmissing]
    · have hne : place ≠ [] := ne_top (by rw [hnone]; simp)
      rw [hwalk] at hresolve
      rw [FileSystem.node?_eq _ hne] at hnone
      have hnone₁ := prepared.get?_eq_none hne noUp hresolve hnone
      rw [← FileSystem.node?_eq _ hne] at hnone₁
      rw [hresolve]
      dsimp only
      rw [hnone₁]
  · obtain ⟨e, he⟩ := exists_error hfollow
    rw [he] at h
    cases h
    unfold read
    rw [he]

/-- **What is read at a path is what was read there**, unless a step up on the path, or a name
that is too long, hid behind something missing. -/
theorem Prepared.read_eq (tree : fs.IsTree)
    (h : fs.resolve path ≠ .error .notFound ∨ LeadsDown path) : fs₁.read path = fs.read path := by
  cases hresolve : fs.resolve path with
  | ok place =>
    unfold read
    rw [resolve_of_keepsDirectories prepared.keeps hresolve, hresolve]
    dsimp only
    rw [prepared.node?_eq hresolve]
  | error e =>
    by_cases he : e = .notFound
    · subst he
      rw [prepared.read_of_missing tree (h.resolve_left (not_not_intro hresolve)) hresolve]
      unfold read
      rw [hresolve]
    · have hresolve₁ : fs₁.resolve path = .error e := by
        by_cases hfollow : CanFollow path
        · rw [resolve_of_canFollow hfollow] at hresolve ⊢
          rw [prepared.keeps.start_eq]
          exact walk_error prepared.keeps prepared.files he hresolve
        · obtain ⟨e', he'⟩ := exists_error hfollow
          rw [he'] at hresolve ⊢
          exact hresolve
      unfold read
      rw [hresolve, hresolve₁]

end FileSystem
end TypedConfig
