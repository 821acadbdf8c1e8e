/-
# The last name of a path

Joining puts a path behind another one, with a slash between them where there is none,
and leaves an absolute path as it is (`Path.join_eq`). The last name of a path is what
stands behind its last slash, if that is a name at all (`Path.fileName?_eq_some`), and it
can be replaced by another name (`Path.fileName?_withFileName`). So the temporary sibling
of a file has the name of the file with an ending of its own (`fileName?_temporaryPath`).

Key definitions: `Path.opened`, `Path.IsName`.
Key theorems: `Path.join_eq`, `Path.fileName?_eq_some`, `Path.fileName?_withFileName`,
`fileName?_temporaryPath`.
-/
import Mathlib
import TypedConfig.Medium.Basic

namespace TypedConfig
namespace Path

/-! ### Joining -/

/-- A path to which a name can be appended: it is empty or ends in a slash. -/
def opened (path : String) : String :=
  if path = "" ∨ path.toList.getLast? = some '/' then path else path ++ "/"

theorem join_eq (base path : String) :
    join base path = if isAbsolute path then path else opened base ++ path := by
  unfold join opened
  split_ifs <;> rfl

/-- What stands behind a path does not make it absolute. -/
theorem isAbsolute_append {before : String} (hne : before ≠ "") (after : String) :
    isAbsolute (before ++ after) = isAbsolute before := by
  unfold isAbsolute
  rw [String.toList_append, List.head?_append_of_ne_nil _ (by simpa using hne)]

/-- An opened path is empty or ends in a slash. -/
theorem opened_ends (path : String) :
    (opened path).toList = [] ∨ (opened path).toList.getLast? = some '/' := by
  unfold opened
  split_ifs with h
  · rcases h with rfl | h
    · exact .inl rfl
    · exact .inr h
  · right
    rw [String.toList_append]
    exact List.getLast?_append_cons _ _ []

theorem opened_append_of_ends {base name : String} (h : name.toList.getLast? ≠ some '/')
    (hne : name ≠ "") : opened (base ++ name) = base ++ name ++ "/" := by
  have hlist : name.toList ≠ [] := fun hnil => hne (String.toList_eq_nil_iff.mp hnil)
  unfold opened
  rw [if_neg]
  rintro (hempty | hslash)
  · rw [← String.toList_eq_nil_iff, String.toList_append, List.append_eq_nil_iff] at hempty
    exact hlist hempty.2
  · rw [String.toList_append, List.getLast?_append_of_ne_nil _ hlist] at hslash
    exact h hslash

/-! ### The last name -/

/-- A name that a file may have: it is not empty, names no directory on the way, and has no
slash. -/
structure IsName (name : List Char) : Prop where
  ne_nil : name ≠ []
  ne_dot : name ≠ ['.']
  ne_dots : name ≠ ['.', '.']
  noSlash : '/' ∉ name

variable {before name : List Char}

/-- What leads elsewhere is short. -/
theorem IsName.of_length (h : 2 < name.length) (noSlash : '/' ∉ name) : IsName name := by
  refine ⟨?_, ?_, ?_, noSlash⟩ <;> rintro rfl
  · exact absurd h (by decide)
  · exact absurd h (by decide)
  · exact absurd h (by decide)

theorem IsName.not_isAbsolute {name : String} (h : IsName name.toList) :
    isAbsolute name = false := by
  unfold isAbsolute
  cases hname : name.toList with
  | nil => rfl
  | cons c rest =>
    have hc : c ≠ '/' := fun hslash => h.noSlash (by simp [hname, hslash])
    simp [hc]

/-- A name behind a path is where the path is. -/
theorem isAbsolute_join (base : String) {name : String} (h : IsName name.toList) :
    isAbsolute (join base name) = isAbsolute base := by
  rw [join_eq, h.not_isAbsolute, if_neg Bool.false_ne_true]
  by_cases hempty : base = ""
  · rw [hempty]
    exact h.not_isAbsolute
  · unfold opened
    split_ifs
    · exact isAbsolute_append hempty name
    · rw [String.append_assoc, isAbsolute_append hempty]

theorem takeWhile_reverse_of_noSlash (h : '/' ∉ name) {rest : List Char}
    (hrest : rest = [] ∨ rest.head? = some '/') :
    (name.reverse ++ rest).takeWhile (· ≠ '/') = name.reverse := by
  have hname : ∀ c ∈ name.reverse, decide (c ≠ '/') = true := by
    intro c hc
    rw [List.mem_reverse] at hc
    exact decide_eq_true fun hslash => h (hslash ▸ hc)
  rw [List.takeWhile_append_of_pos hname]
  rcases hrest with rfl | hrest
  · simp
  · cases rest with
    | nil => cases hrest
    | cons c rest =>
      cases hrest
      simp

theorem lastPiece_of_noSlash (h : '/' ∉ name) {rest : List Char}
    (hrest : rest = [] ∨ rest.head? = some '/') :
    (lastPiece (name.reverse ++ rest)).1 = name := by
  rw [lastPiece, takeWhile_reverse_of_noSlash h hrest, List.reverse_reverse]

theorem dropIdle_of_isName (h : IsName name) {rest : List Char}
    (hrest : rest = [] ∨ rest.head? = some '/') (fuel : ℕ) :
    dropIdle fuel (name.reverse ++ rest) = name.reverse ++ rest := by
  have hpiece := lastPiece_of_noSlash h.noSlash hrest
  cases fuel with
  | zero => rfl
  | succ fuel =>
    unfold dropIdle
    rcases hlast : lastPiece (name.reverse ++ rest) with ⟨piece, left⟩
    rw [hlast] at hpiece
    dsimp only at hpiece ⊢
    rw [if_neg]
    rintro ⟨-, hempty | hdot⟩
    · exact h.ne_nil (hpiece ▸ hempty)
    · exact h.ne_dot (hpiece ▸ hdot)

/-- What is cut off at the start of a path does not reach into its last name. -/
theorem exists_cut (h : IsName name) (ends : before = [] ∨ before.getLast? = some '/') :
    ∃ rest, (cut (String.ofList (before ++ name))).2 = name.reverse ++ rest ∧
      (rest = [] ∨ rest.head? = some '/') := by
  -- after some characters in front are cut off, what is left of `before` still ends in a slash
  have hkeep : ∀ n, (before.drop n).reverse = [] ∨ (before.drop n).reverse.head? = some '/' := by
    intro n
    rw [List.head?_reverse, List.getLast?_drop]
    split
    · rename_i hlen
      exact .inl (by rw [List.drop_eq_nil_of_le hlen, List.reverse_nil])
    · rcases ends with rfl | hlast
      · exact .inl (by simp)
      · exact .inr hlast
  unfold cut
  rw [String.toList_ofList]
  split
  · rename_i rest hpath
    cases before with
    | nil =>
      rw [List.nil_append] at hpath
      exact absurd (hpath ▸ List.mem_cons_self) h.noSlash
    | cons c before =>
      cases hpath
      exact ⟨before.reverse, List.reverse_append, hkeep 1⟩
  · rename_i hpath
    cases before with
    | nil => exact absurd hpath h.ne_dot
    | cons c before =>
      rw [List.cons_append, List.cons.injEq, List.append_eq_nil_iff] at hpath
      exact absurd hpath.2.2 h.ne_nil
  · rename_i rest hpath
    match before, hpath with
    | [], hpath =>
      rw [List.nil_append] at hpath
      exact absurd (hpath ▸ List.mem_cons_of_mem _ List.mem_cons_self) h.noSlash
    | [c], hpath =>
      rw [List.singleton_append, List.cons.injEq] at hpath
      exact absurd (hpath.2 ▸ List.mem_cons_self) h.noSlash
    | c :: c' :: before, hpath =>
      cases hpath
      have hsplit := @List.reverse_append _ ('/' :: before) name
      exact ⟨('/' :: before).reverse, hsplit, hkeep 1⟩
  · exact ⟨before.reverse, List.reverse_append, hkeep 0⟩

/-- **What stands behind the last slash is the last name.** -/
theorem fileName?_eq_some (h : IsName name) (ends : before = [] ∨ before.getLast? = some '/') :
    fileName? (String.ofList (before ++ name)) = some (String.ofList name) := by
  obtain ⟨rest, hcut, hrest⟩ := exists_cut h ends
  have hne : name.reverse ++ rest ≠ [] := by
    simp [h.ne_nil]
  unfold fileName?
  rw [hcut, dropIdle_of_isName h hrest]
  dsimp only
  rw [lastPiece_of_noSlash h.noSlash hrest, if_neg (by simp [hne, h.ne_dots])]

/-- A text up to its last slash, and what stands behind it. -/
theorem exists_last (text : List Char) :
    ∃ before last, text = before ++ last ∧ '/' ∉ last ∧
      (before = [] ∨ before.getLast? = some '/') := by
  induction text with
  | nil => exact ⟨[], [], rfl, List.not_mem_nil, .inl rfl⟩
  | cons c text ih =>
    obtain ⟨before, last, rfl, hlast, ends⟩ := ih
    by_cases hbefore : before = []
    · subst hbefore
      by_cases hc : c = '/'
      · exact ⟨[c], last, rfl, hlast, .inr (hc ▸ rfl)⟩
      · exact ⟨[], c :: last, rfl, by simp [hlast, Ne.symm hc], .inl rfl⟩
    · have hslash := ends.resolve_left hbefore
      refine ⟨c :: before, last, rfl, hlast, .inr ?_⟩
      rw [List.getLast?_cons_of_ne_nil hbefore]
      exact hslash

/-- **A path whose last name was replaced has the new one.** -/
theorem fileName?_withFileName {path name : String} (h : IsName name.toList) :
    fileName? (withFileName path name) = some name := by
  have hjoin : ∀ base, fileName? (join base name) = some name := by
    intro base
    have hname := fileName?_eq_some h (opened_ends base)
    rw [join_eq, h.not_isAbsolute]
    rwa [← String.toList_append, String.ofList_toList, String.ofList_toList] at hname
  unfold withFileName
  cases fileName? path <;> exact hjoin _

end Path

theorem isName_append_tmp {name : String} (noSlash : '/' ∉ name.toList) :
    Path.IsName (name ++ ".tmp").toList := by
  refine .of_length ?_ ?_
  · rw [String.toList_append, List.length_append]
    exact Nat.lt_add_left _ (by decide)
  · rw [String.toList_append, List.mem_append, not_or]
    exact ⟨noSlash, by decide⟩

/-- **The temporary sibling of a file has its name and an ending.** -/
theorem fileName?_temporaryPath {path name : String} (h : Path.fileName? path = some name)
    (noSlash : '/' ∉ name.toList) :
    Path.fileName? (temporaryPath path) = some (name ++ ".tmp") := by
  unfold temporaryPath
  rw [h, Option.getD_some]
  exact Path.fileName?_withFileName (isName_append_tmp noSlash)

end TypedConfig
