/-
# Files are replaced whole

A file is replaced in steps. The directories it lies in are sought upwards until one is there and
made downwards from it, the new bytes are written to the temporary sibling, and that is renamed.
Any step can fail, the process can stop between two of them, and the write can break off after
some of the bytes. Up to the rename everything is still as `FileSystem.Prepared` has it
(`FileSystem.ReplaceRun.sound`), so a reader finds what was there before, and after the rename the
new bytes (`Media.write_atomic`).

Key definitions: `ReplacePhase`, `FileSystem.ReplaceStep`, `FileSystem.ReplaceRun`.
Key theorems: `FileSystem.ReplaceStep.sound`, `FileSystem.ReplaceRun.sound`, `Media.write_atomic`.
-/
import Mathlib
import TypedConfig.Proofs.Medium.Preparing

namespace TypedConfig
namespace FileSystem

/-- How far the replacement of a file has come. -/
inductive ReplacePhase where
  /-- A directory is sought, and below it others follow, the outermost first. -/
  | seeking (directory : String) (inner : List String)
  /-- The directories that are left are made, and then the temporary sibling is written. -/
  | making (directories : List String)
  /-- The temporary sibling is renamed. -/
  | moving
  | done
  /-- The write of the temporary sibling broke off. -/
  | broken

/-- The replacement begins with the directory that the file lies in. -/
def ReplacePhase.start (path : String) : ReplacePhase :=
  match Path.parent? path with
  | some directory => .seeking directory []
  | none => .making []

/-- One step of the replacement of a file. -/
inductive ReplaceStep (path : String) (bytes : Bytes) :
    FileSystem → ReplacePhase → FileSystem → ReplacePhase → Prop
  /-- The place where every path starts is there. -/
  | atTop {fs : FileSystem} {inner : List String} :
      ReplaceStep path bytes fs (.seeking "" inner) fs (.making inner)
  /-- The directory is there, or it is made. -/
  | reaches {fs fs₁ : FileSystem} {directory : String} {inner : List String}
      (h : fs.ensureDirectory directory = (.ok (), fs₁)) :
      ReplaceStep path bytes fs (.seeking directory inner) fs₁ (.making inner)
  /-- The directory it lies in is missing. -/
  | climbs {fs : FileSystem} {directory parent : String} {inner : List String}
      (h : fs.ensureDirectory directory = (.error .notFound, fs))
      (hparent : Path.parent? directory = some parent) :
      ReplaceStep path bytes fs (.seeking directory inner) fs
        (.seeking parent (directory :: inner))
  | makes {fs fs₁ : FileSystem} {directory : String} {rest : List String}
      (h : fs.ensureDirectory directory = (.ok (), fs₁)) :
      ReplaceStep path bytes fs (.making (directory :: rest)) fs₁ (.making rest)
  | writes {fs fs₁ : FileSystem} (h : fs.write (temporaryPath path) bytes = .ok fs₁) :
      ReplaceStep path bytes fs (.making []) fs₁ .moving
  /-- Only some of the bytes are written. -/
  | breaksOff {fs fs₁ : FileSystem} (count : ℕ)
      (h : fs.write (temporaryPath path) (bytes.extract 0 count) = .ok fs₁) :
      ReplaceStep path bytes fs (.making []) fs₁ .broken
  | moves {fs fs₁ : FileSystem} (h : fs.rename (temporaryPath path) path = .ok fs₁) :
      ReplaceStep path bytes fs .moving fs₁ .done

/-- What the replacement of a file may come to. A run may end anywhere: there a step failed, or
the process stopped. -/
inductive ReplaceRun (path : String) (bytes : Bytes) (fs : FileSystem) :
    FileSystem → ReplacePhase → Prop
  | start : ReplaceRun path bytes fs fs (.start path)
  | step {fs₁ fs₂ : FileSystem} {phase₁ phase₂ : ReplacePhase}
      (run : ReplaceRun path bytes fs fs₁ phase₁)
      (h : ReplaceStep path bytes fs₁ phase₁ fs₂ phase₂) : ReplaceRun path bytes fs fs₂ phase₂

variable {fs fs₁ fs₂ : FileSystem} {path directory : String} {bytes : Bytes}
  {inner : List String} {phase phase₁ phase₂ : ReplacePhase}

/-! ### The replacement as a run -/

/-- An attempt to have a directory there is a step, or changes nothing. -/
theorem ReplaceRun.attempt {result : Except FileError Unit}
    (run : ReplaceRun path bytes fs fs₁ phase) (hphase : phase ≠ .done)
    (h : fs₁.ensureDirectory directory = (result, fs₂))
    (hstep : result = .ok () → ReplaceStep path bytes fs₁ phase fs₂ (.making inner)) :
    (result = .ok () → ReplaceRun path bytes fs fs₂ (.making inner)) ∧
      ∃ phase, phase ≠ .done ∧ ReplaceRun path bytes fs fs₂ phase := by
  cases result with
  | ok =>
    have reached := run.step (hstep rfl)
    exact ⟨fun _ => reached, .making inner, nofun, reached⟩
  | error e =>
    rw [ensureDirectory_of_error h]
    exact ⟨nofun, phase, hphase, run⟩

/-- Creating the directories of a file is a part of a run. -/
theorem ReplaceRun.createDirectoriesWith (fuel : ℕ) {result : Except FileError Unit}
    (run : ReplaceRun path bytes fs fs₁ (.seeking directory inner))
    (h : fs₁.createDirectoriesWith fuel directory = (result, fs₂)) :
    (result = .ok () → ReplaceRun path bytes fs fs₂ (.making inner)) ∧
      ∃ phase, phase ≠ .done ∧ ReplaceRun path bytes fs fs₂ phase := by
  induction fuel generalizing directory inner result fs₂ with
  | zero =>
    cases h
    exact ⟨nofun, .seeking directory inner, nofun, run⟩
  | succ fuel ih =>
    unfold FileSystem.createDirectoriesWith at h
    split_ifs at h with htop
    · cases h
      subst htop
      exact ⟨fun _ => run.step .atTop, .seeking "" inner, nofun, run⟩
    · split at h
      · -- the directory that it lies in comes first
        rename_i fs' hmissing
        have hsame := ensureDirectory_of_error hmissing
        subst hsame
        split at h
        · cases h
          exact ⟨nofun, .seeking directory inner, nofun, run⟩
        · rename_i parent hparent
          have climbed := run.step (.climbs hmissing hparent)
          split at h
          · rename_i made hmade
            have reached := (ih climbed hmade).1 rfl
            exact reached.attempt nofun h fun hok => .makes (hok ▸ h)
          · rename_i hfailed
            refine ⟨fun hok => ?_, (ih climbed h).2⟩
            subst hok
            exact absurd h (hfailed _)
      · exact run.attempt nofun h fun hok => .reaches (hok ▸ h)

/-- So is preparing the place of a file. -/
theorem ReplaceRun.prepare {result : Except FileError Unit}
    (h : fs.prepare path = (result, fs₁)) :
    (result = .ok () → ReplaceRun path bytes fs fs₁ (.making [])) ∧
      ∃ phase, phase ≠ .done ∧ ReplaceRun path bytes fs fs₁ phase := by
  have run : ReplaceRun path bytes fs fs (.start path) := .start
  unfold FileSystem.prepare at h
  unfold ReplacePhase.start at run
  cases hparent : Path.parent? path with
  | none =>
    rw [hparent] at h run
    cases h
    exact ⟨fun _ => run, .making [], nofun, run⟩
  | some directory =>
    rw [hparent] at h run
    exact run.createDirectoriesWith _ h

/-- **The replacement of a file is one of the runs**, and it succeeds if it comes to the end. -/
theorem ReplaceRun.replace {result : Except FileError Unit}
    (h : fs.replace path bytes = (result, fs₁)) :
    ∃ phase, ReplaceRun path bytes fs fs₁ phase ∧ (result = .ok () ↔ phase = .done) := by
  unfold FileSystem.replace at h
  split at h
  · rename_i e prepared hprepare
    cases h
    have partly : ∃ phase, phase ≠ .done ∧ ReplaceRun path bytes fs fs₁ phase :=
      (ReplaceRun.prepare hprepare).2
    obtain ⟨phase, hphase, run⟩ := partly
    exact ⟨phase, run, nofun, fun hdone => absurd hdone hphase⟩
  rename_i prepared hprepare
  have run : ReplaceRun path bytes fs prepared (.making []) := (ReplaceRun.prepare hprepare).1 rfl
  split at h
  · cases h
    exact ⟨_, run, nofun, nofun⟩
  rename_i written hwrite
  have run := run.step (.writes hwrite)
  split at h
  · cases h
    exact ⟨_, run, nofun, nofun⟩
  rename_i moved hmove
  cases h
  exact ⟨_, run.step (.moves hmove), fun _ => rfl, fun _ => rfl⟩

/-! ### The rename -/

/-- The rename takes the temporary sibling away and puts its bytes in the place of the file. -/
theorem rename_changes (tree : fs.IsTree)
    (hread : fs.read (temporaryPath path) = .ok bytes)
    (h : fs.rename (temporaryPath path) path = .ok fs₁) :
    fs₁.IsTree ∧ ∃ source target, fs.LeadsTo (temporaryPath path) source ∧
      fs.LeadsTo path target ∧ source ≠ target ∧
      ∀ key, fs₁.nodes.get? key = if target = key then some (.file bytes) else
        if source = key then none else fs.nodes.get? key := by
  obtain ⟨from', to', taken, hsource, htarget, hfrom, hto, hparent, herase, hput⟩ :=
    rename_eq_ok hread h
  have hfile : fs.node? from' ≠ some .directory := by rw [hfrom]; simp
  have hfile' : taken.node? to' ≠ some .directory := fun hdirectory =>
    hto (node?_of_erase herase hdirectory)
  have apart := temporary_apart tree htarget hsource hfile
  have keepsErase := keepsDirectories_erase herase hfile
  have keepsPut := keepsDirectories_put hput hfile'
  have hne : from' ≠ [] := ne_top hfile
  have hne' : to' ≠ [] := ne_top hfile'
  refine ⟨(tree.erase keepsErase herase).put keepsPut hput hne' (resolve_clean htarget)
    (keepsErase.kept _ hparent), from'.key, to'.key, ⟨from', hne, hsource, rfl⟩,
    ⟨to', hne', htarget, rfl⟩, fun hsame => ?_, fun key => ?_⟩
  · exact apart (Place.key_injective hne hne' (resolve_clean hsource) (resolve_clean htarget)
      hsame).symm
  · rw [get?_put hput, get?_erase herase]

/-! ### What a run keeps -/

/-- What holds in each phase. -/
def ReplacePhase.Sound (path : String) (bytes : Bytes) (fs fs₁ : FileSystem) :
    ReplacePhase → Prop
  | .seeking directory inner =>
    Prepared path fs fs₁ ∧ ∀ d ∈ directory :: inner, Path.OnWay d path
  | .making directories => Prepared path fs fs₁ ∧ ∀ d ∈ directories, Path.OnWay d path
  | .moving => Prepared path fs fs₁ ∧ fs₁.read (temporaryPath path) = .ok bytes
  | .done => ∃ before, Prepared path fs before ∧ before.read (temporaryPath path) = .ok bytes ∧
      before.rename (temporaryPath path) path = .ok fs₁
  | .broken => Prepared path fs fs₁

theorem ReplaceStep.sound (h : ReplaceStep path bytes fs₁ phase₁ fs₂ phase₂)
    (sound : phase₁.Sound path bytes fs fs₁) : phase₂.Sound path bytes fs fs₂ := by
  cases h with
  | atTop =>
    obtain ⟨prepared, onWay⟩ := sound
    exact ⟨prepared, (List.forall_mem_cons.mp onWay).2⟩
  | reaches h =>
    obtain ⟨prepared, onWay⟩ := sound
    obtain ⟨hdirectory, hinner⟩ := List.forall_mem_cons.mp onWay
    exact ⟨prepared.ensureDirectory hdirectory h, hinner⟩
  | climbs h hparent =>
    obtain ⟨prepared, onWay⟩ := sound
    obtain ⟨hdirectory, -⟩ := List.forall_mem_cons.mp onWay
    exact ⟨prepared, List.forall_mem_cons.mpr ⟨hdirectory.parent hparent, onWay⟩⟩
  | makes h =>
    obtain ⟨prepared, onWay⟩ := sound
    obtain ⟨hdirectory, hrest⟩ := List.forall_mem_cons.mp onWay
    exact ⟨prepared.ensureDirectory hdirectory h, hrest⟩
  | writes h => exact ⟨sound.1.write h, (write_ok h).2⟩
  | breaksOff count h => exact sound.1.write h
  | moves h => exact ⟨fs₁, sound.1, sound.2, h⟩

theorem sound_start (tree : fs.IsTree) (path : String) (bytes : Bytes) :
    (ReplacePhase.start path).Sound path bytes fs fs := by
  unfold ReplacePhase.start
  have prepared := Prepared.refl tree path
  split
  · rename_i directory hparent
    exact ⟨prepared, List.forall_mem_singleton.mpr (Path.parent?_eq_some hparent)⟩
  · exact ⟨prepared, fun _ h => absurd h List.not_mem_nil⟩

/-- **Every run is sound in its phase.** -/
theorem ReplaceRun.sound (tree : fs.IsTree) (run : ReplaceRun path bytes fs fs₁ phase) :
    phase.Sound path bytes fs fs₁ := by
  induction run with
  | start => exact sound_start tree path bytes
  | step _ h ih => exact h.sound ih

/-- Before the rename everything is as it was prepared. -/
theorem ReplacePhase.Sound.prepared (sound : phase.Sound path bytes fs fs₁)
    (hphase : phase ≠ .done) : Prepared path fs fs₁ := by
  cases phase with
  | seeking directory inner => exact sound.1
  | making directories => exact sound.1
  | moving => exact sound.1
  | done => exact absurd rfl hphase
  | broken => exact sound

/-- Why something in the tree changed when a file was replaced. -/
inductive ReplaceChange (path : String) (bytes : Bytes) (phase : ReplacePhase)
    (fs fs₁ : FileSystem) (key : String) : Prop
  /-- The temporary sibling was written or taken away. -/
  | temporary (hleads : fs₁.LeadsTo (temporaryPath path) key)
      (hfile : fs₁.nodes.get? key ≠ some .directory)
  /-- The file was replaced. -/
  | target (hphase : phase = .done) (hleads : fs₁.LeadsTo path key)
      (hfile : fs₁.nodes.get? key = some (.file bytes))
  /-- A directory was missing on the way. -/
  | directory (hnone : fs.nodes.get? key = none) (hmade : fs₁.nodes.get? key = some .directory)
      (hway : ∃ directory, Path.Above directory path ∧ fs₁.LeadsTo directory key)

theorem Prepared.change (prepared : Prepared path fs fs₁) (key : String) :
    fs₁.nodes.get? key = fs.nodes.get? key ∨ ReplaceChange path bytes phase fs fs₁ key := by
  rcases prepared.changed key with hsame | ⟨hnone, hmade, hway⟩ | ⟨hleads, bytes', hfile⟩
  · exact .inl hsame
  · exact .inr (.directory hnone hmade hway)
  · exact .inr (.temporary hleads (by rw [hfile]; simp))

/-- What holds after the rename. -/
structure Replaced (path : String) (bytes : Bytes) (fs fs₁ : FileSystem) : Prop where
  tree : fs₁.IsTree
  keeps : fs.KeepsDirectories fs₁
  read : fs₁.read path = .ok bytes
  read_temporary : fs₁.read (temporaryPath path) = .error .notFound
  change : ∀ key, fs₁.nodes.get? key = fs.nodes.get? key ∨
    ReplaceChange path bytes .done fs fs₁ key

theorem Prepared.rename {before : FileSystem} (prepared : Prepared path fs before)
    (hread : before.read (temporaryPath path) = .ok bytes)
    (h : before.rename (temporaryPath path) path = .ok fs₁) : Replaced path bytes fs fs₁ := by
  obtain ⟨keeps, hreadTarget⟩ := rename_ok hread h
  obtain ⟨tree, source, target, hsource, htarget, apart, hget⟩ :=
    rename_changes prepared.tree hread h
  refine ⟨tree, prepared.keeps.trans keeps, hreadTarget, ?_, fun key => ?_⟩
  · obtain ⟨place, hne, hresolve, rfl⟩ := hsource.mono keeps
    have hnode : fs₁.node? place = none := by
      rw [FileSystem.node?_eq _ hne, hget, if_neg apart.symm, if_pos rfl]
    unfold FileSystem.read
    rw [hresolve]
    dsimp only
    rw [hnode]
  · by_cases hkey : target = key
    · subst hkey
      exact .inr (.target rfl (htarget.mono keeps) (by rw [hget, if_pos rfl]))
    by_cases hkey' : source = key
    · subst hkey'
      refine .inr (.temporary (hsource.mono keeps) ?_)
      rw [hget, if_neg hkey, if_pos rfl]
      simp
    have hsame : fs₁.nodes.get? key = before.nodes.get? key := by
      rw [hget, if_neg hkey, if_neg hkey']
    rcases prepared.changed key with hsame' | ⟨hnone, hmade, directory, habove, hleads⟩ |
      ⟨hleads, bytes', hfile⟩
    · exact .inl (hsame.trans hsame')
    · exact .inr (.directory hnone (hsame.trans hmade) ⟨directory, habove, hleads.mono keeps⟩)
    · exact .inr (.temporary (hleads.mono keeps) (by rw [hsame, hfile]; simp))

end FileSystem

namespace Media

theorem read_congr {m : Media} {files : FileSystem} {path : String}
    (h : files.read path = m.files.read path) :
    Media.read { m with files } (.file path) = m.read (.file path) := by
  unfold Media.read
  dsimp only
  rw [h]

theorem read_eq_some {m : Media} {path : String} {bytes : Bytes} :
    m.read (.file path) = .ok (some bytes) ↔ m.files.read path = .ok bytes := by
  unfold Media.read
  dsimp only
  split
  · rename_i bytes' hread
    rw [hread, Except.ok.injEq, Except.ok.injEq, Option.some.injEq]
  · rename_i hread
    rw [hread]
    exact ⟨nofun, nofun⟩
  · rename_i e _ hread
    rw [hread]
    exact ⟨nofun, nofun⟩

/-- **Files are replaced whole**, wherever it fails or stops. -/
theorem write_atomic {m : Media} (tree : m.files.IsTree) (path : String) (bytes : Bytes) :
    (∃ phase, m.files.ReplaceRun path bytes (m.write (.file path) bytes).2.files phase ∧
      ((m.write (.file path) bytes).1 = .ok () ↔ phase = .done)) ∧
    ∀ files phase, m.files.ReplaceRun path bytes files phase →
      (phase = .done → Media.read { m with files } (.file path) = .ok (some bytes) ∧
        files.read (temporaryPath path) = .error .notFound) ∧
      (phase ≠ .done →
        Media.read { m with files } (.file path) = m.read (.file path) ∨
        m.files.resolve path = .error .notFound ∧ ¬ FileSystem.LeadsDown path ∧
          ∀ old, Media.read { m with files } (.file path) = .ok (some old) →
            ∃ place, files.resolve path = .ok place ∧
              m.files.node? place = some (.file old)) ∧
      (∀ key, files.nodes.get? key = m.files.nodes.get? key ∨
        FileSystem.ReplaceChange path bytes phase m.files files key) ∧
      m.files.KeepsDirectories files ∧ files.IsTree := by
  constructor
  · rcases hreplace : m.files.replace path bytes with ⟨result, files⟩
    obtain ⟨phase, run, hdone⟩ := FileSystem.ReplaceRun.replace hreplace
    refine ⟨phase, ?_⟩
    simp only [write, hreplace]
    cases result with
    | ok => exact ⟨run, fun _ => hdone.mp rfl, fun _ => rfl⟩
    | error e =>
      refine ⟨run, fun hok => ?_, fun h => ?_⟩
      · cases hok
      · cases hdone.mpr h
  · intro files phase run
    have sound := run.sound tree
    by_cases hphase : phase = .done
    · subst hphase
      obtain ⟨before, prepared, hread, hrename⟩ := sound
      have replaced := prepared.rename hread hrename
      refine ⟨fun _ => ⟨?_, replaced.read_temporary⟩, fun h => absurd rfl h, replaced.change,
        replaced.keeps, replaced.tree⟩
      exact read_eq_some.mpr replaced.read
    · have prepared := sound.prepared hphase
      refine ⟨fun h => absurd h hphase, fun _ => ?_, prepared.change, prepared.keeps,
        prepared.tree⟩
      by_cases hmissing : m.files.resolve path ≠ .error .notFound ∨ FileSystem.LeadsDown path
      · exact .inl (read_congr (prepared.read_eq tree hmissing))
      · rw [not_or, not_not] at hmissing
        exact .inr ⟨hmissing.1, hmissing.2, fun old hold =>
          prepared.read_older (read_eq_some.mp hold)⟩

/-- A medium with a single file, in the working directory. -/
def oneFile : Media where
  memory := {}
  files :=
    { root := "/r"
      working := "/r"
      nodes := (Place.directories ["r"]).insert "r/x" (.file "old".toUTF8) }

theorem isTree_oneFile : oneFile.files.IsTree := by
  have hnames : Path.names "/r" = ["r"] := by decide +kernel
  have hput : FileSystem.put { root := "/r", working := "/r" } (.file "old".toUTF8) ["r", "x"] =
      .ok oneFile.files := by
    rw [FileSystem.put_eq_ok, hnames]
    exact ⟨rfl, rfl⟩
  have hmissing : FileSystem.node? { root := "/r", working := "/r" } ["r", "x"] = none := by
    rw [FileSystem.node?_new _ _ _ (by decide +kernel), hnames, if_neg (by decide)]
  have hparent : FileSystem.node? { root := "/r", working := "/r" } ["r"] = some .directory := by
    rw [FileSystem.node?_new _ _ _ (by decide +kernel), hnames, if_pos (by decide)]
  have keeps := FileSystem.keepsDirectories_put hput (by rw [hmissing]; nofun)
  exact (FileSystem.isTree_new _ _ _).put keeps hput (by simp) (by decide +kernel) hparent

/-- The file is as it was when the write breaks off after one byte, and new in the end, also where
its path is relative. -/
theorem write_atomic_oneFile :
    oneFile.files.IsTree ∧
      (∃ files, oneFile.files.ReplaceRun "/r/x" "new".toUTF8 files .broken ∧
        Media.read { oneFile with files } (.file "/r/x") = .ok (some "old".toUTF8)) ∧
      (∃ files, oneFile.files.ReplaceRun "/r/x" "new".toUTF8 files .done ∧
        Media.read { oneFile with files } (.file "/r/x") = .ok (some "new".toUTF8)) ∧
      ∃ files, oneFile.files.ReplaceRun "x" "new".toUTF8 files .done ∧
        Media.read { oneFile with files } (.file "x") = .ok (some "new".toUTF8) := by
  have tree := isTree_oneFile
  obtain ⟨⟨phase, run, hdone⟩, hruns⟩ := write_atomic tree "/r/x" "new".toUTF8
  obtain ⟨⟨phase', run', hdone'⟩, hruns'⟩ := write_atomic tree "x" "new".toUTF8
  refine ⟨tree, ?_, ?_, ?_⟩
  · have hstart : FileSystem.ReplacePhase.start "/r/x" = .seeking "/r" [] := by
      rw [FileSystem.ReplacePhase.start, show Path.parent? "/r/x" = some "/r" by decide +kernel]
    have run : oneFile.files.ReplaceRun "/r/x" "new".toUTF8 oneFile.files (.seeking "/r" []) :=
      hstart ▸ .start
    have hreaches : (oneFile.files.ensureDirectory "/r").1 = .ok () := by decide +kernel
    have run := run.step (.reaches (Prod.ext hreaches rfl))
    obtain ⟨files, hwrite⟩ : ∃ files, (oneFile.files.ensureDirectory "/r").2.write
        (temporaryPath "/r/x") ("new".toUTF8.extract 0 1) = .ok files := by
      have hok : ((oneFile.files.ensureDirectory "/r").2.write (temporaryPath "/r/x")
          ("new".toUTF8.extract 0 1)).isOk = true := by decide +kernel
      revert hok
      cases (oneFile.files.ensureDirectory "/r").2.write (temporaryPath "/r/x")
          ("new".toUTF8.extract 0 1) with
      | ok files => exact fun _ => ⟨files, rfl⟩
      | error e => nofun
    have run := run.step (.breaksOff 1 hwrite)
    refine ⟨files, run, ?_⟩
    have hread : oneFile.read (.file "/r/x") = .ok (some "old".toUTF8) := by decide +kernel
    rcases (hruns files .broken run).2.1 nofun with hsame | ⟨hmissing, -⟩
    · rw [hsame, hread]
    · exact absurd hmissing (by decide +kernel)
  · have hok : (oneFile.write (.file "/r/x") "new".toUTF8).1 = .ok () := by decide +kernel
    have hphase := hdone.mp hok
    subst hphase
    exact ⟨_, run, ((hruns _ .done run).1 rfl).1⟩
  · have hok : (oneFile.write (.file "x") "new".toUTF8).1 = .ok () := by decide +kernel
    have hphase := hdone'.mp hok
    subst hphase
    exact ⟨_, run', ((hruns' _ .done run').1 rfl).1⟩

/-- A failed write can uncover an older file: it made the directory that the path steps up from. -/
theorem write_uncovers_older :
    oneFile.files.IsTree ∧ oneFile.read (.file "/r/x.tmp/../x") = .ok none ∧
      (oneFile.write (.file "/r/x.tmp/../x") "new".toUTF8).1 = .error (.file .isADirectory) ∧
      (oneFile.write (.file "/r/x.tmp/../x") "new".toUTF8).2.read (.file "/r/x.tmp/../x") =
        .ok (some "old".toUTF8) :=
  ⟨isTree_oneFile, by decide +kernel, by decide +kernel, by decide +kernel⟩

end Media

end TypedConfig
