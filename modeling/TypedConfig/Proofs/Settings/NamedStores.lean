/-
# Where named stores lie

The file of a named store is the name and the extension of the encoding, put behind the
directory of the named stores (`namedStorePath_eq`). Joining leaves an absolute path as it
is, so an absolute name keeps its own place and the directory is not looked at. A path still
determines the extension and the place before it (`extended_eq_extended`), and two stores of
one directory have the same place only if they have the same name, or if the name of one is
relative and that of the other spells out where it lies (`namedPlace_eq_namedPlace`).

The temporary sibling of a store's file has an ending that the file of no store has, so saving
a store writes over no other store on the way (`fileName?_namedStorePath_ne`).

Key definitions: `storeRoot`, `namedPlace`, `SpellsOut`.
Key theorems: `namedStorePath_eq`, `storeRoot_prefix_namedStorePath`,
`fileName?_namedStorePath_ne`, `named_stores_apart`.
-/
import Mathlib
import TypedConfig.Proofs.Medium.Path
import TypedConfig.Settings.Basic

namespace TypedConfig

/-- The directory of the named stores, with the slash behind it. -/
def storeRoot (directory : String) : String := Path.opened directory ++ "cfg/"

/-- The path of a named store without its extension: the name in the directory of the named
stores, unless the name says for itself where it lies. -/
def namedPlace (directory name : String) : String :=
  if Path.isAbsolute name then name else storeRoot directory ++ name

/-- An absolute name is where a relative one lies. -/
structure SpellsOut (directory absolute relative : String) : Prop where
  isAbsolute : Path.isAbsolute absolute = true
  isRelative : Path.isAbsolute relative = false
  eq : absolute = storeRoot directory ++ relative

variable {directory name name' : String} {encoding encoding' : Encoding}

/-! ### The path of a store -/

theorem isAbsolute_append_dot (name suffix : String) :
    Path.isAbsolute (name ++ "." ++ suffix) = Path.isAbsolute name := by
  unfold Path.isAbsolute
  rw [String.append_assoc, String.toList_append]
  cases name.toList with
  | nil => rw [List.nil_append, String.toList_append]; rfl
  | cons c rest => rfl

/-- **The file of a named store is its place and the extension.** -/
theorem namedStorePath_eq (directory name : String) (encoding : Encoding) :
    namedStorePath directory name encoding =
      namedPlace directory name ++ "." ++ encoding.extension := by
  have hroot : Path.opened (Path.join directory storeDirectory) = storeRoot directory := by
    rw [Path.join_eq, show Path.isAbsolute storeDirectory = false from rfl]
    rw [if_neg Bool.false_ne_true, Path.opened_append_of_ends (by decide) (by decide)]
    rw [storeRoot, String.append_assoc]
    rfl
  unfold namedStorePath namedPlace
  rw [Path.join_eq, isAbsolute_append_dot, hroot]
  split_ifs
  · rfl
  · rw [String.append_assoc, String.append_assoc, String.append_assoc]

theorem getLast?_storeRoot (directory : String) :
    (storeRoot directory).toList.getLast? = some '/' := by
  rw [storeRoot, String.toList_append]
  exact List.getLast?_append_of_ne_nil _ (by decide)

theorem noSlash_extension (encoding : Encoding) : '/' ∉ ("." ++ encoding.extension).toList := by
  cases encoding with
  | plain => decide
  | encrypted => exact (by decide : '/' ∉ ("." ++ "ejs").toList)

/-- A path reaches into the directory of the named stores before its extension or not at all. -/
theorem storeRoot_prefix_extended (directory place : String) (encoding : Encoding) :
    (storeRoot directory).toList <+: (place ++ "." ++ encoding.extension).toList ↔
      (storeRoot directory).toList <+: place.toList := by
  rw [String.append_assoc, String.toList_append]
  constructor
  · intro h
    rcases List.prefix_or_prefix_of_prefix h (List.prefix_append _ _) with hplace | ⟨rest, hrest⟩
    · exact hplace
    -- what reaches beyond the place ends in the slash of the directory, and an extension has none
    · rcases List.eq_nil_or_concat rest with rfl | ⟨front, last, rfl⟩
      · rw [List.append_nil] at hrest
        rw [hrest]
      · have hslash := getLast?_storeRoot directory
        rw [← hrest, List.concat_eq_append, ← List.append_assoc, List.getLast?_concat] at hslash
        rw [← hrest, List.prefix_append_right_inj, List.concat_eq_append] at h
        have hmem := h.subset List.mem_concat_self
        exact absurd (Option.some.inj hslash ▸ hmem) (noSlash_extension encoding)
  · exact fun h => h.trans (List.prefix_append _ _)

/-- **A store lies in the directory of the named stores unless its name leads elsewhere.** -/
theorem storeRoot_prefix_namedStorePath (directory name : String) (encoding : Encoding) :
    (storeRoot directory).toList <+: (namedStorePath directory name encoding).toList ↔
      (Path.isAbsolute name = true → (storeRoot directory).toList <+: name.toList) := by
  rw [namedStorePath_eq, storeRoot_prefix_extended]
  unfold namedPlace
  split_ifs with habs
  · exact ⟨fun h _ => h, fun h => h habs⟩
  · rw [String.toList_append]
    exact ⟨fun _ h => absurd h habs, fun _ => List.prefix_append _ _⟩

/-! ### Paths of different stores -/

theorem extension_eq_extension :
    encoding.extension = encoding'.extension ↔ encoding.isPlain = encoding'.isPlain := by
  cases encoding <;> cases encoding' <;> simp [Encoding.extension, Encoding.isPlain]

theorem getLast?_extended (place : String) (encoding : Encoding) :
    (place ++ "." ++ encoding.extension).toList.getLast? =
      some (if encoding.isPlain then 'n' else 's') := by
  rw [String.toList_append]
  cases encoding with
  | plain => exact List.getLast?_append_of_ne_nil _ (by decide)
  | encrypted => exact List.getLast?_append_of_ne_nil _ (by decide : "ejs".toList ≠ [])

/-- A path with an extension determines the extension and what stands before it. -/
theorem extended_eq_extended {place place' : String} :
    place ++ "." ++ encoding.extension = place' ++ "." ++ encoding'.extension ↔
      place = place' ∧ encoding.isPlain = encoding'.isPlain := by
  constructor
  · intro h
    have hlast := congrArg (fun path => path.toList.getLast?) h
    simp only [getLast?_extended, Option.some.injEq] at hlast
    have hplain : encoding.isPlain = encoding'.isPlain := by
      cases hfirst : encoding.isPlain <;> cases hsecond : encoding'.isPlain <;>
        simp_all
    rw [extension_eq_extension.mpr hplain, String.append_left_inj, String.append_left_inj] at h
    exact ⟨h, hplain⟩
  · rintro ⟨rfl, hplain⟩
    rw [extension_eq_extension.mpr hplain]

/-- **Two names have one place only if one spells out where the other lies.** -/
theorem namedPlace_eq_namedPlace :
    namedPlace directory name = namedPlace directory name' ↔
      name = name' ∨ SpellsOut directory name name' ∨ SpellsOut directory name' name := by
  unfold namedPlace
  by_cases habs : Path.isAbsolute name = true <;> by_cases habs' : Path.isAbsolute name' = true
  · rw [if_pos habs, if_pos habs']
    refine ⟨.inl, ?_⟩
    rintro (h | h | h)
    · exact h
    · exact absurd habs' (by rw [h.isRelative]; exact Bool.false_ne_true)
    · exact absurd habs (by rw [h.isRelative]; exact Bool.false_ne_true)
  · rw [if_pos habs, if_neg habs']
    refine ⟨fun h => .inr (.inl ⟨habs, Bool.eq_false_iff.mpr habs', h⟩), ?_⟩
    rintro (rfl | h | h)
    · exact absurd habs habs'
    · exact h.eq
    · exact absurd h.isAbsolute habs'
  · rw [if_neg habs, if_pos habs']
    refine ⟨fun h => .inr (.inr ⟨habs', Bool.eq_false_iff.mpr habs, h.symm⟩), ?_⟩
    rintro (rfl | h | h)
    · exact absurd habs' habs
    · exact absurd h.isAbsolute habs
    · exact h.eq.symm
  · rw [if_neg habs, if_neg habs', String.append_right_inj]
    refine ⟨.inl, ?_⟩
    rintro (h | h | h)
    · exact h
    · exact absurd h.isAbsolute habs
    · exact absurd h.isAbsolute habs'

/-! ### The temporary sibling -/

/-- The last name of a store's path is a piece of its place and the extension. -/
theorem fileName?_namedStorePath (directory name : String) (encoding : Encoding) :
    ∃ last, '/' ∉ last.toList ∧ Path.fileName? (namedStorePath directory name encoding) =
      some (last ++ "." ++ encoding.extension) := by
  obtain ⟨before, last, hplace, noSlash, ends⟩ :=
    Path.exists_last (namedPlace directory name).toList
  have hlength : 2 < ("." ++ encoding.extension).toList.length := by
    cases encoding with
    | plain => decide
    | encrypted => exact (by decide : 2 < ("." ++ "ejs").toList.length)
  have hname : Path.IsName (last ++ ("." ++ encoding.extension).toList) := by
    refine .of_length ?_ ?_
    · rw [List.length_append]
      exact Nat.lt_add_left _ hlength
    · rw [List.mem_append, not_or]
      exact ⟨noSlash, noSlash_extension encoding⟩
  refine ⟨String.ofList last, by rwa [String.toList_ofList], ?_⟩
  have hpath : namedStorePath directory name encoding =
      String.ofList (before ++ (last ++ ("." ++ encoding.extension).toList)) := by
    rw [namedStorePath_eq, ← String.toList_inj, String.toList_ofList, String.append_assoc,
      String.toList_append, hplace, List.append_assoc]
  rw [hpath, Path.fileName?_eq_some hname ends, String.ofList_append, String.ofList_toList,
    String.append_assoc]

/-- **A store's file is never the temporary sibling of a store's file**, whatever the
directories. -/
theorem fileName?_namedStorePath_ne (directory directory' name name' : String)
    (encoding encoding' : Encoding) :
    Path.fileName? (namedStorePath directory name encoding) ≠
      Path.fileName? (temporaryPath (namedStorePath directory' name' encoding')) := by
  obtain ⟨last, -, hfile⟩ := fileName?_namedStorePath directory name encoding
  obtain ⟨last', noSlash, hfile'⟩ := fileName?_namedStorePath directory' name' encoding'
  have hsibling : '/' ∉ (last' ++ "." ++ encoding'.extension).toList := by
    rw [String.append_assoc, String.toList_append, List.mem_append, not_or]
    exact ⟨noSlash, noSlash_extension encoding'⟩
  rw [hfile, fileName?_temporaryPath hfile' hsibling]
  intro h
  have hends := congrArg (fun name => name.toList.getLast?) (Option.some.inj h)
  have htemporary : (last' ++ "." ++ encoding'.extension ++ ".tmp").toList.getLast? = some 'p' := by
    rw [String.toList_append]
    exact List.getLast?_append_of_ne_nil _ (by decide)
  rw [getLast?_extended, htemporary] at hends
  split_ifs at hends <;> simp at hends

/-- **Where named stores lie, and which of them share a file.** A relative name is put behind the
directory of the named stores, and an absolute one is a place of its own, which lies in that
directory only if the name says so. Two stores of one directory have the same path exactly if
their encodings are of one kind and their names are the same, or one of them spells out where
the other lies. No store's path is the temporary sibling of a store's. -/
theorem named_stores_apart (directory : String) :
    (∀ name encoding, namedStorePath directory name encoding =
      (if Path.isAbsolute name then name
        else (if directory = "" ∨ directory.toList.getLast? = some '/' then directory
          else directory ++ "/") ++ "cfg/" ++ name)
        ++ "." ++ (if encoding.isPlain then "json" else "ejs")) ∧
    (∀ name encoding,
      (storeRoot directory).toList <+: (namedStorePath directory name encoding).toList ↔
        (Path.isAbsolute name = true → (storeRoot directory).toList <+: name.toList)) ∧
    (∀ name name' encoding encoding',
      namedStorePath directory name encoding = namedStorePath directory name' encoding' ↔
        (name = name' ∨ SpellsOut directory name name' ∨ SpellsOut directory name' name) ∧
          encoding.isPlain = encoding'.isPlain) ∧
    ∀ directory' name name' encoding encoding',
      namedStorePath directory name encoding ≠
          temporaryPath (namedStorePath directory' name' encoding') ∧
        Path.fileName? (namedStorePath directory name encoding) ≠
          Path.fileName? (temporaryPath (namedStorePath directory' name' encoding')) := by
  refine ⟨?formula, storeRoot_prefix_namedStorePath directory, ?apart, ?sibling⟩
  case formula =>
    intro name encoding
    have hextension : encoding.extension = if encoding.isPlain then "json" else "ejs" := by
      cases encoding <;> rfl
    rw [namedStorePath_eq, hextension]
    rfl
  case apart =>
    intro name name' encoding encoding'
    rw [namedStorePath_eq, namedStorePath_eq, extended_eq_extended, namedPlace_eq_namedPlace]
  case sibling =>
    intro directory' name name' encoding encoding'
    have hname := fileName?_namedStorePath_ne directory directory' name name' encoding encoding'
    exact ⟨fun h => hname (congrArg Path.fileName? h), hname⟩

/-- An absolute name leaves the directory, and one that leads back into it meets a relative one
there. -/
theorem named_stores_apart_absolute :
    namedStorePath "/srv/app" "/etc/x" .plain = "/etc/x.json" ∧
      ¬ (storeRoot "/srv/app").toList <+: (namedStorePath "/srv/app" "/etc/x" .plain).toList ∧
      namedStorePath "/srv/app" "/srv/app/cfg/ui" .plain = namedStorePath "/srv/app" "ui" .plain ∧
      namedStorePath "/srv/app" "ui" .plain ≠
        namedStorePath "/srv/app" "ui" (.encrypted (.ofPassphrase "correct horse")) ∧
      namedStorePath "/srv/app" "ui.json.tmp" .plain ≠
        temporaryPath (namedStorePath "/srv/app" "ui" .plain) := by
  obtain ⟨hformula, hinside, hapart, hsibling⟩ := named_stores_apart "/srv/app"
  refine ⟨?_, ?_, ?_, ?_, (hsibling "/srv/app" "ui.json.tmp" "ui" .plain .plain).1⟩
  · rw [hformula]
    decide
  · rw [hinside]
    decide
  · exact (hapart _ _ _ _).mpr ⟨.inr (.inl ⟨rfl, rfl, by decide⟩), rfl⟩
  · rw [Ne, hapart]
    exact fun h => Bool.false_ne_true h.2.symm

end TypedConfig
