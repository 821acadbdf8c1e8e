/-
# Where a path leads

A path is followed piece by piece, and every place on the way is a directory
(`FileSystem.walk_cons`). What it reaches at last is a directory, or the place of its last
name (`FileSystem.resolve_ends`), so a file and its temporary sibling are never at the same
place. A place is known by its key, the names with slashes between them, as no name has a slash
(`Place.key_injective`). A path that never steps up leads to its own names, from the top or from
the working directory (`FileSystem.names_of_resolve`), and what is missing in a tree has nothing
below it (`FileSystem.walk_missing`).

Key definitions: `Place.Clean`, `Place.follow`, `FileSystem.IsTree`, `FileSystem.LeadsTo`.
Key theorems: `Place.key_injective`, `FileSystem.resolve_ends`, `FileSystem.names_of_resolve`,
`FileSystem.walk_missing`, `FileSystem.node?_new`, `FileSystem.isTree_new`.
-/
import Mathlib
import TypedConfig.Proofs.Medium.Pieces
import TypedConfig.Proofs.Medium.Writing

namespace TypedConfig

/-! ### Places -/

namespace Place

/-- Whether the names of a place have no slash. -/
def Clean (place : Place) : Prop := ∀ name ∈ place, '/' ∉ name.toList

instance (place : Place) : Decidable place.Clean := inferInstanceAs (Decidable (∀ _ ∈ _, _))

theorem clean_nil : Clean [] := fun _ hmem => absurd hmem List.not_mem_nil

/-- Names without slashes are told by their key. -/
theorem key_injective {place place' : Place} (hne : place ≠ []) (hne' : place' ≠ [])
    (clean : place.Clean) (clean' : place'.Clean) (h : place.key = place'.key) :
    place = place' := by
  have hchars := congrArg (fun text : String => text.toList.splitOn '/') h
  simp only [key, String.toList_intercalate] at hchars
  have split {place : Place} (hne : place ≠ []) (clean : place.Clean) :
      (List.intercalate "/".toList (place.map String.toList)).splitOn '/' =
        place.map String.toList := by
    refine List.splitOn_intercalate '/' ?_ (by simpa using hne)
    intro cs hcs
    obtain ⟨name, hname, rfl⟩ := List.mem_map.mp hcs
    exact clean name hname
  rw [split hne clean, split hne' clean'] at hchars
  exact List.map_injective_iff.mpr (fun _ _ => String.toList_inj.mp) hchars

/-- Where a piece of a path leads from a directory. -/
def follow (piece : String) (place : Place) : Place :=
  if Path.IsIdle piece then place else if piece = ".." then place.parent else place.child piece

theorem child_ne_nil (name : String) (place : Place) : place.child name ≠ [] :=
  List.concat_ne_nil name place

theorem parent_child (name : String) (place : Place) : (place.child name).parent = place :=
  List.dropLast_concat

theorem eq_of_child_eq {name name' : String} {place place' : Place}
    (h : place.child name = place'.child name') : name = name' :=
  List.singleton_inj.mp (List.append_inj_right' h rfl)

theorem Clean.parent {place : Place} (clean : place.Clean) : place.parent.Clean :=
  fun name hname => clean name (List.mem_of_mem_dropLast hname)

theorem Clean.child {place : Place} {name : String} (clean : place.Clean)
    (noSlash : '/' ∉ name.toList) : (place.child name).Clean := by
  intro other hother
  rcases List.mem_append.mp hother with hother | hother
  · exact clean other hother
  · rwa [List.mem_singleton.mp hother]

theorem Clean.follow {place : Place} {piece : String} (clean : place.Clean)
    (noSlash : '/' ∉ piece.toList) : (place.follow piece).Clean := by
  unfold Place.follow
  split_ifs
  · exact clean
  · exact clean.parent
  · exact clean.child noSlash

theorem clean_names (path : String) : Clean (Path.names path) := fun _ hname =>
  Path.noSlash_of_mem_segments (List.mem_of_mem_filter hname)

end Place

namespace FileSystem

variable {fs fs' : FileSystem} {place place' : Place}

/-! ### Following a path -/

theorem walk_cons (h : fs.node? place = some .directory) (piece : String) (rest : List String) :
    fs.walk place (piece :: rest) =
      if maxName < piece.utf8ByteSize then .error .tooLong
      else fs.walk (place.follow piece) rest := by
  have short {piece : String} (hshort : piece.utf8ByteSize ≤ 2) :
      ¬ maxName < piece.utf8ByteSize := by
    unfold maxName
    omega
  rw [walk, h]
  dsimp only
  unfold Place.follow
  by_cases hidle : Path.IsIdle piece
  · rw [if_pos hidle, if_pos hidle, if_neg]
    rcases hidle with rfl | rfl <;> exact short (by decide)
  · rw [if_neg hidle, if_neg hidle]
    by_cases hup : piece = ".."
    · subst hup
      rw [if_pos rfl, if_pos rfl, if_neg (short (by decide))]
    · rw [if_neg hup, if_neg hup]

/-- Every place on the way is a directory. -/
theorem walk_cons_eq_ok {piece : String} {rest : List String} :
    fs.walk place (piece :: rest) = .ok place' ↔
      fs.node? place = some .directory ∧ piece.utf8ByteSize ≤ maxName ∧
        fs.walk (place.follow piece) rest = .ok place' := by
  constructor
  · intro h
    have hdirectory : fs.node? place = some .directory := by
      rw [walk] at h
      split at h
      · cases h
      · cases h
      · assumption
    rw [walk_cons hdirectory] at h
    split_ifs at h with hlong
    exact ⟨hdirectory, Nat.le_of_not_lt hlong, h⟩
  · rintro ⟨hdirectory, hshort, h⟩
    rw [walk_cons hdirectory, if_neg (Nat.not_lt.mpr hshort), h]

theorem walk_append {pieces pieces' : List String} :
    fs.walk place (pieces ++ pieces') = .ok place' ↔
      ∃ mid, fs.walk place pieces = .ok mid ∧ fs.walk mid pieces' = .ok place' := by
  induction pieces generalizing place with
  | nil => simp [walk]
  | cons piece rest ih =>
    rw [List.cons_append, walk_cons_eq_ok, ih]
    simp only [walk_cons_eq_ok]
    exact ⟨fun ⟨hdir, hshort, mid, hmid, hrest⟩ => ⟨mid, ⟨hdir, hshort, hmid⟩, hrest⟩,
      fun ⟨mid, ⟨hdir, hshort, hmid⟩, hrest⟩ => ⟨hdir, hshort, mid, hmid, hrest⟩⟩

theorem walk_clean {pieces : List String} (clean : place.Clean)
    (noSlash : ∀ piece ∈ pieces, '/' ∉ piece.toList) (h : fs.walk place pieces = .ok place') :
    place'.Clean := by
  induction pieces generalizing place with
  | nil =>
    cases h
    exact clean
  | cons piece rest ih =>
    rw [List.forall_mem_cons] at noSlash
    exact ih (clean.follow noSlash.1) noSlash.2 (walk_cons_eq_ok.mp h).2.2

/-! ### Where paths start -/

theorem start_clean (fs : FileSystem) (path : String) : (fs.start path).Clean := by
  unfold start
  split_ifs
  · exact Place.clean_nil
  · exact Place.clean_names _

/-- What stands behind the start of a path does not matter for where it starts. -/
theorem start_append (fs : FileSystem) {before : String} (hne : before ≠ "") (after : String) :
    fs.start (before ++ after) = fs.start before := by
  unfold start
  rw [Path.isAbsolute_append hne]

/-- Whether a path can be followed at all. -/
def CanFollow (path : String) : Prop :=
  Char.ofNat 0 ∉ path.toList ∧ path.utf8ByteSize ≤ maxPath ∧ path ≠ ""

theorem resolve_of_canFollow {path : String} (h : CanFollow path) :
    fs.resolve path = fs.walk (fs.start path) (Path.segments path) := by
  obtain ⟨hcode, hshort, hne⟩ := h
  unfold resolve
  rw [if_neg (by rwa [List.contains_iff_mem]), if_neg (Nat.not_lt.mpr hshort), if_neg hne]

/-- A path that cannot be followed fails wherever it is looked at. -/
theorem exists_error {path : String} (h : ¬ CanFollow path) :
    ∃ e, ∀ fs : FileSystem, fs.resolve path = .error e := by
  unfold CanFollow at h
  unfold resolve
  split_ifs with hcode hlong hempty
  · exact ⟨_, fun _ => rfl⟩
  · exact ⟨_, fun _ => rfl⟩
  · exact ⟨_, fun _ => rfl⟩
  · rw [List.contains_iff_mem] at hcode
    exact absurd ⟨hcode, Nat.le_of_not_lt hlong, hempty⟩ h

theorem resolve_eq_ok {path : String} :
    fs.resolve path = .ok place ↔
      CanFollow path ∧ fs.walk (fs.start path) (Path.segments path) = .ok place := by
  by_cases h : CanFollow path
  · rw [resolve_of_canFollow h]
    exact ⟨fun hwalk => ⟨h, hwalk⟩, And.right⟩
  · obtain ⟨e, he⟩ := exists_error h
    rw [he]
    constructor
    · intro herror
      cases herror
    · intro hfollow
      exact absurd hfollow.1 h

theorem resolve_clean {path : String} (h : fs.resolve path = .ok place) : place.Clean :=
  walk_clean (fs.start_clean path) (fun _ => Path.noSlash_of_mem_segments) (resolve_eq_ok.mp h).2

/-! ### Trees -/

/-- Whatever stands in a tree lies in a directory. -/
def IsTree (fs : FileSystem) : Prop :=
  ∀ place name, (Place.child name place).Clean →
    fs.node? (Place.child name place) ≠ none → fs.node? place = some .directory

/-- The directory that a directory lies in is one. -/
theorem parent_isDirectory (tree : fs.IsTree) (clean : place.Clean)
    (h : fs.node? place = some .directory) : fs.node? place.parent = some .directory := by
  rcases List.eq_nil_or_concat' place with rfl | ⟨before, name, rfl⟩
  · rfl
  · rw [← Place.child] at h clean ⊢
    rw [Place.parent_child]
    exact tree before name clean (by rw [h]; exact Option.some_ne_none _)

/-- **A path leads to a directory or to the place of its last name.** -/
theorem resolve_ends (tree : fs.IsTree) {path : String} (h : fs.resolve path = .ok place) :
    fs.node? place = some .directory ∨
      ∃ parent name, place = Place.child name parent ∧ Path.fileName? path = some name := by
  have hwalk := (resolve_eq_ok.mp h).2
  have noSlash : ∀ piece ∈ Path.segments path, '/' ∉ piece.toList :=
    fun _ => Path.noSlash_of_mem_segments
  obtain ⟨before, piece, hpieces⟩ :=
    (List.eq_nil_or_concat' (Path.segments path)).resolve_left (Path.segments_ne_nil path)
  have hlast : (Path.segments path).getLast? = some piece := by rw [hpieces]; simp
  rw [hpieces, walk_append] at hwalk
  obtain ⟨mid, hmid, hwalk⟩ := hwalk
  obtain ⟨hdirectory, -, hwalk⟩ := walk_cons_eq_ok.mp hwalk
  cases hwalk
  rw [hpieces] at noSlash
  have hmidClean : mid.Clean := walk_clean (fs.start_clean path)
    (fun other hother => noSlash other (List.mem_append_left _ hother)) hmid
  unfold Place.follow
  split_ifs with hidle hup
  · exact .inl hdirectory
  · exact .inl (parent_isDirectory tree hmidClean hdirectory)
  · exact .inr ⟨mid, piece, rfl, Path.fileName?_of_getLast? hlast hidle hup⟩

/-- Nothing is below what is missing in a tree. -/
theorem node?_child_eq_none (tree : fs.IsTree) {name : String} (clean : (place.child name).Clean)
    (h : fs.node? place = none) : fs.node? (place.child name) = none := by
  by_contra hne
  rw [tree place name clean hne] at h
  cases h

/-- What changes when something is put into a tree. -/
theorem get?_put {node : FileNode} (h : fs.put node place = .ok fs') (key : String) :
    fs'.nodes.get? key = if place.key = key then some node else fs.nodes.get? key := by
  obtain ⟨-, rfl⟩ := put_eq_ok.mp h
  exact SortedMap.get?_insert _ _ _ _

/-- What changes when something is taken out of a tree. -/
theorem get?_erase (h : fs.erase place = .ok fs') (key : String) :
    fs'.nodes.get? key = if place.key = key then none else fs.nodes.get? key := by
  obtain ⟨-, rfl⟩ := erase_eq_ok.mp h
  exact SortedMap.get?_erase _ _ _

theorem keepsDirectories_put_directory (h : fs.put .directory place = .ok fs') :
    fs.KeepsDirectories fs' := by
  obtain ⟨-, rfl⟩ := put_eq_ok.mp h
  refine .of_get? rfl fun key hkey => ?_
  rw [SortedMap.get?_insert, hkey, ite_self]

theorem IsTree.put {node : FileNode} (tree : fs.IsTree) (keeps : fs.KeepsDirectories fs')
    (h : fs.put node place = .ok fs') (hne : place ≠ []) (hclean : place.Clean)
    (hparent : fs.node? place.parent = some .directory) : fs'.IsTree := by
  intro place' name' clean' hnode
  apply keeps.kept
  have hne' := Place.child_ne_nil name' place'
  rw [node?_eq _ hne', get?_put h] at hnode
  split_ifs at hnode with hkey
  · -- what was put lies in its own directory
    rwa [Place.key_injective hne hne' hclean clean' hkey, Place.parent_child] at hparent
  · refine tree place' name' clean' ?_
    rwa [node?_eq _ hne']

theorem IsTree.erase (tree : fs.IsTree) (keeps : fs.KeepsDirectories fs')
    (h : fs.erase place = .ok fs') : fs'.IsTree := by
  intro place' name clean hnode
  obtain ⟨node, hnode⟩ := Option.ne_none_iff_exists'.mp hnode
  have hbefore := node?_of_erase h hnode
  exact keeps.kept _ (tree place' name clean (by rw [hbefore]; exact Option.some_ne_none _))

/-- The directories that a place lies in, and that place. -/
theorem get?_directories (place : Place) (key : String) :
    (Place.directories place).get? key =
      if ∃ count < place.length, Place.key (place.take (count + 1)) = key then some .directory
      else none := by
  unfold Place.directories
  induction place.length with
  | zero => exact (if_neg (by simp)).symm
  | succ length ih =>
    rw [List.range_succ, List.foldl_append, List.foldl_cons, List.foldl_nil,
      SortedMap.get?_insert, ih]
    simp only [Nat.lt_succ_iff_lt_or_eq, or_and_right, exists_or, exists_eq_left]
    by_cases hlast : Place.key (place.take (length + 1)) = key
    · rw [if_pos hlast, if_pos (.inr hlast)]
    · rw [if_neg hlast]
      exact if_congr (or_iff_left hlast).symm rfl rfl

/-- In a new system stand the directory that is listed and those it lies in. -/
theorem node?_new (root working : String) (locked : Place → Bool) (clean : place.Clean) :
    node? { root, working, locked } place =
      if place <+: Path.names root then some .directory else none := by
  rcases eq_or_ne place [] with rfl | hne
  · rw [if_pos List.nil_prefix]
    rfl
  rw [node?_eq _ hne, get?_directories]
  refine if_congr ⟨?_, fun hprefix => ?_⟩ rfl rfl
  · rintro ⟨count, hcount, hkey⟩
    have htake : (Path.names root).take (count + 1) ≠ [] := by
      rw [← List.length_pos_iff, List.length_take]
      omega
    have hclean : Place.Clean ((Path.names root).take (count + 1)) :=
      fun name hname => Place.clean_names root name (List.mem_of_mem_take hname)
    rw [← Place.key_injective htake hne hclean clean hkey]
    exact List.take_prefix _ _
  · have hpos := List.length_pos_iff.mpr hne
    have hlength := hprefix.length_le
    refine ⟨place.length - 1, by omega, ?_⟩
    rw [Nat.sub_add_cancel hpos, ← List.prefix_iff_eq_take.mp hprefix]

/-- **A new system is a tree.** -/
theorem isTree_new (root working : String) (locked : Place → Bool) :
    IsTree { root, working, locked } := by
  intro place name clean hnode
  rw [node?_new root working locked clean] at hnode
  split_ifs at hnode with hprefix
  · have hclean : place.Clean := fun other hother => clean other (List.mem_append_left _ hother)
    rw [node?_new root working locked hclean,
      if_pos ((List.prefix_append place [name]).trans hprefix)]
  · exact absurd rfl hnode

/-! ### Paths that lead down -/

/-- Whether no name on a path steps up or is too long. -/
def LeadsDown (path : String) : Prop :=
  ∀ name ∈ Path.names path, name ≠ ".." ∧ name.utf8ByteSize ≤ maxName

theorem walk_down {pieces : List String} (down : ∀ piece ∈ pieces, piece ≠ "..")
    (h : fs.walk place pieces = .ok place') :
    place' = place ++ pieces.filter fun piece => ¬ Path.IsIdle piece := by
  induction pieces generalizing place with
  | nil =>
    cases h
    rw [List.filter_nil, List.append_nil]
  | cons piece rest ih =>
    rw [List.forall_mem_cons] at down
    obtain ⟨-, -, h⟩ := walk_cons_eq_ok.mp h
    unfold Place.follow at h
    rw [if_neg down.1] at h
    split_ifs at h with hidle
    · rw [ih down.2 h, List.filter_cons_of_neg (by simpa using hidle)]
    · rw [ih down.2 h, List.filter_cons_of_pos (by simpa using hidle), Place.child,
        List.append_assoc]
      rfl

/-- A path that never steps up leads to its own names, from where it starts. -/
theorem names_of_resolve {path : String} (down : ".." ∉ Path.names path)
    (h : fs.resolve path = .ok place) : place = fs.start path ++ Path.names path := by
  refine walk_down ?_ (resolve_eq_ok.mp h).2
  rintro piece hpiece rfl
  exact down (List.mem_filter.mpr ⟨hpiece, by decide⟩)

/-- **What is missing on a path that leads down stays missing**, when other directories are
made: the path leads nowhere, or to its own names and to nothing there. -/
theorem walk_missing (tree : fs.IsTree) (keeps : fs.KeepsDirectories fs')
    {pieces : List String} (clean : place.Clean)
    (down : ∀ piece ∈ pieces, '/' ∉ piece.toList ∧ piece ≠ ".." ∧ piece.utf8ByteSize ≤ maxName)
    (noFile : ∀ names bytes, names <+: pieces.filter (fun piece => ¬ Path.IsIdle piece) →
      fs.node? (place ++ names) = none → fs'.node? (place ++ names) ≠ some (.file bytes))
    (h : fs.walk place pieces = .error .notFound ∨ fs.node? place = none) :
    fs'.walk place pieces = .error .notFound ∨
      ∃ place', fs'.walk place pieces = .ok place' ∧ fs.node? place' = none := by
  induction pieces generalizing place with
  | nil =>
    rcases h with h | h
    · cases h
    · exact .inr ⟨place, rfl, h⟩
  | cons piece rest ih =>
    rw [List.forall_mem_cons] at down
    obtain ⟨⟨noSlash, hup, hshort⟩, down⟩ := down
    -- what stands at the place before, and where the search goes on
    have hbefore : fs.node? place = some .directory ∧
        fs.walk (place.follow piece) rest = .error .notFound ∨ fs.node? place = none := by
      rcases h with h | h
      · cases hnode : fs.node? place with
        | none => exact .inr rfl
        | some node =>
          cases node with
          | file bytes =>
            rw [walk, hnode] at h
            cases h
          | directory =>
            rw [walk_cons hnode, if_neg (Nat.not_lt.mpr hshort)] at h
            exact .inl ⟨rfl, h⟩
      · exact .inr h
    have hfollow : place.follow piece =
        if Path.IsIdle piece then place else place.child piece := by
      unfold Place.follow
      rw [if_neg hup]
    cases hnode' : fs'.node? place with
    | none =>
      left
      rw [walk, hnode']
    | some node =>
      cases node with
      | file bytes =>
        exfalso
        rcases hbefore with ⟨hdirectory, -⟩ | hnone
        · rw [keeps.kept _ hdirectory] at hnode'
          cases hnode'
        · have hnoFile := noFile [] bytes List.nil_prefix
          rw [List.append_nil] at hnoFile
          exact hnoFile hnone hnode'
      | directory =>
        rw [walk_cons hnode', if_neg (Nat.not_lt.mpr hshort), hfollow]
        rw [hfollow] at hbefore
        split_ifs at hbefore ⊢ with hidle
        · refine ih clean down ?_ (hbefore.imp_left And.right)
          rwa [List.filter_cons_of_neg (by simpa using hidle)] at noFile
        · have hclean := clean.child noSlash
          refine ih hclean down ?_ ?_
          · rw [List.filter_cons_of_pos (by simpa using hidle)] at noFile
            intro names bytes hbegins
            rw [Place.child, List.append_assoc, List.singleton_append]
            exact noFile (piece :: names) bytes (List.cons_prefix_cons.mpr ⟨rfl, hbegins⟩)
          · exact hbefore.imp And.right (node?_child_eq_none tree hclean)

/-- A path that fails on its way for another reason still does, as long as what is a file on it
stays one. -/
theorem walk_error (keeps : fs.KeepsDirectories fs')
    (files : ∀ place bytes, fs.node? place = some (.file bytes) →
      ∃ bytes', fs'.node? place = some (.file bytes'))
    {pieces : List String} {e : FileError} (hne : e ≠ .notFound)
    (h : fs.walk place pieces = .error e) : fs'.walk place pieces = .error e := by
  induction pieces generalizing place with
  | nil => cases h
  | cons piece rest ih =>
    cases hnode : fs.node? place with
    | none =>
      rw [walk, hnode] at h
      cases h
      exact absurd rfl hne
    | some node =>
      cases node with
      | file bytes =>
        obtain ⟨bytes', hnode'⟩ := files place bytes hnode
        rw [walk, hnode] at h
        rw [walk, hnode']
        exact h
      | directory =>
        rw [walk_cons hnode] at h
        rw [walk_cons (keeps.kept _ hnode)]
        split_ifs at h ⊢
        · exact h
        · exact ih h

/-! ### Keys that a path leads to -/

/-- Whether a path leads to the key of a place below the top. -/
def LeadsTo (fs : FileSystem) (path key : String) : Prop :=
  ∃ place : Place, place ≠ [] ∧ fs.resolve path = .ok place ∧ key = place.key

theorem LeadsTo.mono (keeps : fs.KeepsDirectories fs') {path key : String}
    (h : fs.LeadsTo path key) : fs'.LeadsTo path key := by
  obtain ⟨place, hne, hresolve, hkey⟩ := h
  exact ⟨place, hne, resolve_of_keepsDirectories keeps hresolve, hkey⟩

/-- A path that leads to the key of a place leads to that place. -/
theorem LeadsTo.resolve_eq {path : String} (h : fs.LeadsTo path place.key) (hne : place ≠ [])
    (clean : place.Clean) : fs.resolve path = .ok place := by
  obtain ⟨place', hne', hresolve, hkey⟩ := h
  rw [Place.key_injective hne hne' clean (resolve_clean hresolve) hkey, hresolve]

end FileSystem
end TypedConfig
