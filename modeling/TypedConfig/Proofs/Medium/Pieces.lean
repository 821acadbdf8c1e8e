/-
# The names on a path

The pieces of a path that name something are its names: what is put behind a slash adds its
own (`Path.names_append`). The directory of a path has all of them but the last
(`Path.names_eq_of_fileName?`), so the temporary sibling of a file has as many as the file,
and another one at the end (`names_temporaryPath`). A directory on the way to a file is its
path up to a slash (`Path.Above`), and all directories that are made for a file are on the
way to it (`Path.parent?_eq_some`). The directory and the temporary sibling start at the top
exactly if the file does (`Path.isAbsolute_parent`, `isAbsolute_temporaryPath`).

Key definitions: `Path.Above`.
Key theorems: `Path.names_eq_of_fileName?`, `names_temporaryPath`, `Path.parent?_eq_some`,
`isAbsolute_temporaryPath`.
-/
import Mathlib
import TypedConfig.Proofs.Medium.Path

namespace TypedConfig
namespace Path

/-! ### Pieces -/

theorem segments_append (before after : String) :
    segments (before ++ "/" ++ after) = segments before ++ segments after := by
  unfold segments
  rw [String.toList_append, String.toList_append, List.append_assoc, ← List.map_append]
  exact congrArg _ (List.splitOn_append_cons_self _ _)

theorem segments_of_noSlash {name : String} (h : '/' ∉ name.toList) : segments name = [name] := by
  unfold segments
  rw [List.splitOn_eq_singleton h, List.map_singleton, String.ofList_toList]

theorem segments_ne_nil (path : String) : segments path ≠ [] := by
  unfold segments
  simp [List.splitOn_ne_nil]

theorem noSlash_of_mem_splitOn (cs : List Char) : ∀ piece ∈ cs.splitOn '/', '/' ∉ piece := by
  induction cs with
  | nil => simp
  | cons c cs ih =>
    rw [List.splitOn_cons_eq_if_modifyHead]
    split
    · simpa using ih
    · rename_i hc
      cases hsplit : cs.splitOn '/' with
      | nil => exact absurd hsplit (List.splitOn_ne_nil _ _)
      | cons piece rest =>
        rw [hsplit, List.forall_mem_cons] at ih
        rw [List.modifyHead_cons, List.forall_mem_cons]
        refine ⟨?_, ih.2⟩
        rw [List.mem_cons, not_or]
        exact ⟨fun hslash => hc (beq_iff_eq.mpr hslash.symm), ih.1⟩

/-- No piece has a slash. -/
theorem noSlash_of_mem_segments {path piece : String} (h : piece ∈ segments path) :
    '/' ∉ piece.toList := by
  obtain ⟨cs, hcs, rfl⟩ := List.mem_map.mp h
  rw [String.toList_ofList]
  exact noSlash_of_mem_splitOn _ _ hcs

/-! ### Names -/

@[simp]
theorem names_empty : names "" = [] := by decide

theorem names_append (before after : String) :
    names (before ++ "/" ++ after) = names before ++ names after := by
  unfold names
  rw [segments_append, List.filter_append]

theorem names_slash_append (after : String) : names ("/" ++ after) = names after := by
  have h := names_append "" after
  rwa [String.empty_append, names_empty, List.nil_append] at h

theorem names_of_noSlash {name : String} (h : '/' ∉ name.toList) (named : ¬ IsIdle name) :
    names name = [name] := by
  unfold names
  rw [segments_of_noSlash h, List.filter_singleton, decide_eq_true named]
  rfl

/-- Opening a path names nothing more, and a name behind it is its last one. -/
theorem names_opened_append (base : String) {name : String} (h : '/' ∉ name.toList)
    (named : ¬ IsIdle name) : names (opened base ++ name) = names base ++ [name] := by
  unfold opened
  split_ifs with hopen
  · rcases hopen with rfl | hslash
    · rw [String.empty_append, names_of_noSlash h named, names_empty, List.nil_append]
    · -- the slash at the end of the base is the one that the name stands behind
      obtain ⟨before, hbefore⟩ := List.getLast?_eq_some_iff.mp hslash
      have hbase : base = String.ofList before ++ "/" ++ "" := by
        rw [← String.toList_inj, hbefore]
        simp
      have hname := names_append (String.ofList before) name
      have hempty := names_append (String.ofList before) ""
      rw [← hbase, names_empty, List.append_nil] at hempty
      rw [hempty, ← names_of_noSlash h named, ← hname, hbase, String.append_empty]
  · rw [names_append, names_of_noSlash h named]

/-- A name behind a path is its last one. -/
theorem names_join (base : String) {name : String} (h : IsName name.toList) :
    names (join base name) = names base ++ [name] := by
  have named : ¬ IsIdle name := by
    rintro (rfl | rfl)
    · exact h.ne_nil rfl
    · exact h.ne_dot rfl
  rw [join_eq, h.not_isAbsolute]
  exact names_opened_append base h.noSlash named

/-! ### The directory of a path -/

theorem lastPiece_spec (reversed : List Char) :
    '/' ∉ (lastPiece reversed).1 ∧
      ((reversed = (lastPiece reversed).1.reverse ∧ (lastPiece reversed).2 = []) ∨
        reversed = (lastPiece reversed).1.reverse ++ '/' :: (lastPiece reversed).2) := by
  unfold lastPiece
  refine ⟨?_, ?_⟩
  · intro hslash
    have := List.mem_takeWhile_imp (List.mem_reverse.mp hslash)
    simp at this
  · rw [List.reverse_reverse]
    have happend := List.takeWhile_append_dropWhile (p := (decide <| · ≠ '/')) (l := reversed)
    cases hdrop : reversed.dropWhile (· ≠ '/') with
    | nil =>
      rw [hdrop, List.append_nil] at happend
      exact .inl ⟨happend.symm, rfl⟩
    | cons c rest =>
      have hc : c = '/' := by
        have := List.head?_dropWhile_not (decide <| · ≠ '/') reversed
        rw [hdrop] at this
        simpa using this
      rw [hdrop, hc] at happend
      exact .inr happend.symm

theorem length_lastPiece_lt {reversed : List Char} (h : reversed ≠ []) :
    (lastPiece reversed).2.length < reversed.length := by
  have hpos := List.length_pos_iff.mpr h
  rcases (lastPiece_spec reversed).2 with ⟨-, hrest⟩ | hrest
  · rwa [hrest]
  · have hlength := congrArg List.length hrest
    rw [List.length_append, List.length_cons] at hlength
    omega

/-- The text of a reversed path. -/
def forward (reversed : List Char) : String := String.ofList reversed.reverse

theorem forward_append (after before : List Char) :
    forward (after ++ before) = forward before ++ forward after := by
  unfold forward
  rw [List.reverse_append, String.ofList_append]

theorem forward_append_slash (after before : List Char) :
    forward (after ++ '/' :: before) = forward before ++ "/" ++ forward after := by
  rw [← List.singleton_append, ← List.append_assoc, forward_append, forward_append,
    String.append_assoc]
  rfl

theorem forward_reverse (cs : List Char) : forward cs.reverse = String.ofList cs := by
  unfold forward
  rw [List.reverse_reverse]

/-- What is passed over at the end of a path names nothing and stands behind a slash, and what
is left ends in a name. -/
theorem dropIdle_spec (fuel : ℕ) (reversed : List Char) (hfuel : reversed.length ≤ fuel) :
    ∃ idle, reversed = idle ++ dropIdle fuel reversed ∧ names (forward idle) = [] ∧
      (dropIdle fuel reversed ≠ [] →
        (idle = [] ∨ idle.getLast? = some '/') ∧
          ¬ IsIdle (String.ofList (lastPiece (dropIdle fuel reversed)).1)) := by
  induction fuel generalizing reversed with
  | zero =>
    rw [Nat.le_zero, List.length_eq_zero_iff] at hfuel
    subst hfuel
    exact ⟨[], rfl, names_empty, fun h => absurd rfl h⟩
  | succ fuel ih =>
    unfold dropIdle
    dsimp only
    split_ifs with h
    · obtain ⟨hne, hidle⟩ := h
      have hpiece : names (String.ofList (lastPiece reversed).1) = [] := by
        rcases hidle with hidle | hidle <;> rw [hidle] <;> decide
      have hlt := length_lastPiece_lt hne
      obtain ⟨idle, hreversed, hnames, hrest⟩ := ih (lastPiece reversed).2 (by omega)
      rcases (lastPiece_spec reversed).2 with ⟨hlast, hnil⟩ | hlast
      · -- no slash is left
        have hdrop : dropIdle fuel (lastPiece reversed).2 = [] := by
          rw [hnil] at hreversed ⊢
          exact (List.append_eq_nil_iff.mp hreversed.symm).2
        rw [hdrop]
        refine ⟨reversed, (List.append_nil _).symm, ?_, fun hne => absurd rfl hne⟩
        rw [hlast, forward_reverse, hpiece]
      · refine ⟨(lastPiece reversed).1.reverse ++ '/' :: idle, ?_, ?_, fun hne => ⟨?_, ?_⟩⟩
        · rw [List.append_assoc, List.cons_append, ← hreversed, ← hlast]
        · rw [forward_append_slash, names_append, hnames, forward_reverse, hpiece,
            List.append_nil]
        · right
          rw [List.getLast?_append_cons]
          rcases (hrest hne).1 with rfl | hslash
          · rfl
          · rw [List.getLast?_cons, hslash]
            rfl
        · exact (hrest hne).2
    · refine ⟨[], rfl, names_empty, fun hne => ⟨.inl rfl, fun hidle => h ⟨hne, ?_⟩⟩⟩
      rcases hidle with hidle | hidle
      · exact .inl (String.ofList_eq_empty_iff.mp hidle)
      · exact .inr (String.ofList_injective hidle)

theorem cut_spec (path : String) :
    path = String.ofList (cut path).1 ++ forward (cut path).2 ∧
      ((cut path).1 = [] ∨ (cut path).1 = ['/'] ∨
        (cut path).1 = ['.'] ∧ ((cut path).2 = [] ∨ (cut path).2.getLast? = some '/')) := by
  have hpath : path = String.ofList path.toList := String.ofList_toList.symm
  unfold cut
  split
  · rename_i rest hrest
    refine ⟨?_, .inr (.inl rfl)⟩
    rw [forward_reverse, ← String.ofList_append, List.singleton_append, ← hrest, ← hpath]
  · rename_i hrest
    refine ⟨?_, .inr (.inr ⟨rfl, .inl rfl⟩)⟩
    rw [hpath, hrest]
    rfl
  · rename_i rest hrest
    refine ⟨?_, .inr (.inr ⟨rfl, .inr ?_⟩)⟩
    · rw [forward_reverse, ← String.ofList_append, List.singleton_append, ← hrest, ← hpath]
    · rw [List.getLast?_reverse, List.head?_cons]
  · refine ⟨?_, .inl rfl⟩
    rw [forward_reverse, ← String.ofList_append, List.nil_append, ← hpath]

theorem length_cut_le (path : String) : (cut path).2.length ≤ path.length := by
  have hlength := congrArg (fun text : String => text.toList.length) (cut_spec path).1
  simp only [String.toList_append, List.length_append, forward, String.toList_ofList,
    List.length_reverse, String.length_toList] at hlength
  omega

theorem forward_of_ends {idle : List Char} (h : idle = [] ∨ idle.getLast? = some '/') :
    forward idle = "" ∨ ∃ after, forward idle = "/" ++ after := by
  rcases h with rfl | h
  · exact .inl rfl
  · obtain ⟨before, rfl⟩ := List.getLast?_eq_some_iff.mp h
    exact .inr ⟨_, forward_append before ['/']⟩

theorem names_append_forward (before : String) {idle : List Char}
    (h : idle = [] ∨ idle.getLast? = some '/') :
    names (before ++ forward idle) = names before ++ names (forward idle) := by
  rcases forward_of_ends h with hempty | ⟨after, hafter⟩
  · rw [hempty, String.append_empty, names_empty, List.append_nil]
  · rw [hafter, ← String.append_assoc, names_append, names_slash_append]

theorem head?_ne_slash {reversed : List Char}
    (h : ¬ IsIdle (String.ofList (lastPiece reversed).1)) : reversed.head? ≠ some '/' := by
  intro hslash
  obtain ⟨rest, rfl⟩ := List.head?_eq_some_iff.mp hslash
  refine h (.inl ?_)
  unfold lastPiece
  rw [List.takeWhile_cons_of_neg (by decide)]
  rfl

/-- What a reversed path loses with its last name: that name, behind a slash if something is
left. -/
theorem removeLast_spec {fuel : ℕ} {reversed : List Char} (hfuel : reversed.length ≤ fuel)
    (named : ¬ IsIdle (String.ofList (lastPiece reversed).1)) :
    let left := dropIdle fuel (lastPiece reversed).2
    ∃ taken, forward reversed = forward left ++ taken ∧
      names taken = [String.ofList (lastPiece reversed).1] ∧
      (left ≠ [] → left.head? ≠ some '/' ∧ ∃ after, taken = "/" ++ after) := by
  intro left
  obtain ⟨noSlash, hlast⟩ := lastPiece_spec reversed
  have hname : names (String.ofList (lastPiece reversed).1) =
      [String.ofList (lastPiece reversed).1] := by
    refine names_of_noSlash ?_ named
    rwa [String.toList_ofList]
  have hlength : (lastPiece reversed).2.length ≤ fuel := by
    rcases hlast with ⟨-, hnil⟩ | hlast
    · simp [hnil]
    · have := congrArg List.length hlast
      rw [List.length_append, List.length_cons] at this
      omega
  obtain ⟨idle, hidle, hidleNames, hends⟩ := dropIdle_spec fuel _ hlength
  change _ = idle ++ left at hidle
  rcases hlast with ⟨hlast, hnil⟩ | hlast
  · -- no slash stands before the name
    rw [hnil] at hidle
    have hleft : left = [] := (List.append_eq_nil_iff.mp hidle.symm).2
    have hforward : forward reversed = String.ofList (lastPiece reversed).1 :=
      (congrArg forward hlast).trans (forward_reverse _)
    refine ⟨forward reversed, ?_, ?_, fun hne => absurd hleft hne⟩
    · rw [hleft]
      exact String.empty_append.symm
    · rw [hforward, hname]
  · refine ⟨forward idle ++ "/" ++ String.ofList (lastPiece reversed).1, ?_, ?_, fun hne => ?_⟩
    · calc forward reversed
          = forward (lastPiece reversed).2 ++ "/" ++ String.ofList (lastPiece reversed).1 := by
            rw [hlast, forward_append_slash, forward_reverse, ← hlast]
        _ = _ := by
            rw [hidle, forward_append]
            simp only [String.append_assoc]
    · rw [names_append, hidleNames, hname, List.nil_append]
    · obtain ⟨hidleEnds, hnamed⟩ := hends hne
      refine ⟨head?_ne_slash hnamed, ?_⟩
      rcases forward_of_ends hidleEnds with hempty | ⟨after, hafter⟩
      · exact ⟨_, by rw [hempty, String.empty_append]⟩
      · exact ⟨_, by rw [hafter, String.append_assoc, String.append_assoc]⟩

/-- A path is that of its directory, and behind it stands the last name. -/
theorem exists_parent {path : String} (h : dropIdle path.length (cut path).2 ≠ []) :
    ∃ directory rest, parent? path = some directory ∧ path = directory ++ rest ∧
      names rest = [String.ofList (lastPiece (dropIdle path.length (cut path).2)).1] ∧
      (directory = "" ∨ directory = "/" ∨
        directory.toList.getLast? ≠ some '/' ∧ ∃ after, rest = "/" ++ after) := by
  obtain ⟨hpath, hstart⟩ := cut_spec path
  obtain ⟨idle, hidle, hidleNames, hends⟩ := dropIdle_spec _ _ (length_cut_le path)
  obtain ⟨hidleEnds, hnamed⟩ := hends h
  have hlength : (dropIdle path.length (cut path).2).length ≤ path.length := by
    have hle := length_cut_le path
    rw [hidle, List.length_append] at hle
    omega
  obtain ⟨taken, htaken, hname, hbehind⟩ := removeLast_spec hlength hnamed
  set left := dropIdle path.length (lastPiece (dropIdle path.length (cut path).2)).2
  have hdirectory : assemble (cut path).1 left = String.ofList (cut path).1 ++ forward left :=
    String.ofList_append
  have hrest : forward (cut path).2 = forward left ++ (taken ++ forward idle) := by
    rw [hidle, forward_append, htaken, String.append_assoc]
  refine ⟨assemble (cut path).1 left, taken ++ forward idle, if_pos h, ?_, ?_, ?_⟩
  · rw [hdirectory, String.append_assoc, ← hrest]
    exact hpath
  · rw [names_append_forward _ hidleEnds, hname, hidleNames, List.append_nil]
  · by_cases hleft : left = []
    · -- the directory is what is never taken off the path
      rw [hleft] at hdirectory hrest
      have hdirectory := hdirectory.trans String.append_empty
      rw [hleft]
      rcases hstart with hstart | hstart | ⟨hstart, hdot⟩
      · exact .inl (by rw [hdirectory, hstart])
      · exact .inr (.inl (by rw [hdirectory, hstart]))
      · refine .inr (.inr ⟨by rw [hdirectory, hstart]; decide, ?_⟩)
        rcases forward_of_ends hdot with hempty | ⟨after, hafter⟩
        · have hnil : (cut path).2 = [] := by simpa [forward] using hempty
          rw [hnil] at hidle
          rw [hnil] at h
          exact absurd (List.append_eq_nil_iff.mp hidle.symm).2 h
        · exact ⟨after, by rw [← hafter, hrest]; exact String.empty_append.symm⟩
    · obtain ⟨hhead, after, hafter⟩ := hbehind hleft
      refine .inr (.inr ⟨?_, after ++ forward idle, by rw [hafter, String.append_assoc]⟩)
      rw [hdirectory, String.toList_append, forward, String.toList_ofList, String.toList_ofList,
        List.getLast?_append_of_ne_nil _ (List.reverse_ne_nil_iff.mpr hleft),
        List.getLast?_reverse]
      exact hhead

theorem isAbsolute_eq (path : String) : isAbsolute path = decide ((cut path).1 = ['/']) := by
  unfold isAbsolute cut
  split
  · rename_i hpath
    simp [hpath]
  · rename_i hpath
    simp [hpath]
  · rename_i hpath
    simp [hpath]
  · rename_i hslash _ _
    cases hpath : path.toList with
    | nil => rfl
    | cons c rest =>
      have hc : c ≠ '/' := by
        rintro rfl
        exact hslash rest hpath
      simp [hc]

/-- The directory of a path starts where the path does. -/
theorem isAbsolute_parent {path directory : String} (h : parent? path = some directory) :
    isAbsolute directory = isAbsolute path := by
  by_cases hempty : directory = ""
  · -- nothing is left of what is never taken off a path
    subst hempty
    rw [isAbsolute_eq path]
    refine (decide_eq_false fun hslash => ?_).symm
    unfold parent? at h
    simp [hslash, assemble] at h
  · by_cases hne : dropIdle path.length (cut path).2 = []
    · unfold parent? at h
      dsimp only at h
      rw [if_neg (not_not_intro hne)] at h
      split_ifs at h
      exact absurd (Option.some.inj h).symm hempty
    · obtain ⟨directory', rest, hparent, hpath, -⟩ := exists_parent hne
      rw [h] at hparent
      cases hparent
      rw [hpath, isAbsolute_append hempty]

/-- A directory on the way to a path: the path up to a slash that a name stands behind. -/
def Above (directory path : String) : Prop :=
  ∃ rest, path = directory ++ "/" ++ rest ∧ names rest ≠ []

theorem Above.trans {first second path : String} (h : Above first second)
    (h' : Above second path) : Above first path := by
  obtain ⟨rest, rfl, hrest⟩ := h
  obtain ⟨rest', rfl, -⟩ := h'
  refine ⟨rest ++ "/" ++ rest', by simp only [String.append_assoc], ?_⟩
  rw [names_append]
  exact List.append_ne_nil_of_left_ne_nil hrest _

/-- **The directory of a path is on the way to it**, if it is not where every path starts. -/
theorem parent?_eq_some {path directory : String} (h : parent? path = some directory) :
    directory = "" ∨ directory = "/" ∨
      directory.toList.getLast? ≠ some '/' ∧ Above directory path := by
  by_cases hne : dropIdle path.length (cut path).2 = []
  · -- only a dot is left
    unfold parent? at h
    dsimp only at h
    rw [if_neg (not_not_intro hne)] at h
    split_ifs at h
    cases h
    exact .inl rfl
  · obtain ⟨directory', rest, hparent, hpath, hnames, hdirectory⟩ := exists_parent hne
    rw [h] at hparent
    cases hparent
    refine hdirectory.imp_right (Or.imp_right (And.imp_right ?_))
    rintro ⟨after, rfl⟩
    rw [names_slash_append] at hnames
    rw [← String.append_assoc] at hpath
    exact ⟨after, hpath, by simp [hnames]⟩

theorem exists_parent_of_fileName? {path name : String} (h : fileName? path = some name) :
    ∃ directory, parent? path = some directory := by
  unfold fileName? at h
  dsimp only at h
  split_ifs at h with hnone
  rw [not_or] at hnone
  obtain ⟨directory, -, hparent, -⟩ := exists_parent hnone.1
  exact ⟨directory, hparent⟩

/-- **The last name of a path stands behind those of its directory.** -/
theorem names_eq_of_fileName? {path name : String} (h : fileName? path = some name) :
    names path = names ((parent? path).getD "") ++ [name] := by
  unfold fileName? at h
  dsimp only at h
  split_ifs at h with hnone
  rw [not_or] at hnone
  obtain ⟨directory, rest, hparent, hpath, hnames, hdirectory⟩ := exists_parent hnone.1
  cases h
  rw [hparent, Option.getD_some, ← hnames]
  rcases hdirectory with rfl | rfl | ⟨-, after, rfl⟩
  · rw [hpath, String.empty_append, names_empty, List.nil_append]
  · rw [hpath, names_slash_append]
    rfl
  · rw [hpath, ← String.append_assoc, names_append, names_slash_append]

theorem noSlash_of_fileName? {path name : String} (h : fileName? path = some name) :
    '/' ∉ name.toList := by
  have hmem : name ∈ names path := by simp [names_eq_of_fileName? h]
  exact noSlash_of_mem_segments (List.mem_of_mem_filter hmem)

/-- The last piece of a path is its last name, if it names something and does not step up. -/
theorem fileName?_of_getLast? {path piece : String} (h : (segments path).getLast? = some piece)
    (named : ¬ IsIdle piece) (hup : piece ≠ "..") : fileName? path = some piece := by
  obtain ⟨before, last, hpath, noSlash, ends⟩ := exists_last path.toList
  have hlast : piece = String.ofList last := by
    have hsegments : segments (String.ofList last) = [String.ofList last] :=
      segments_of_noSlash (by rwa [String.toList_ofList])
    rcases ends with rfl | hslash
    · rw [← @String.ofList_toList path, hpath, List.nil_append, hsegments] at h
      exact (Option.some.inj h).symm
    · obtain ⟨before, rfl⟩ := List.getLast?_eq_some_iff.mp hslash
      have hsplit : path = String.ofList before ++ "/" ++ String.ofList last := by
        apply String.toList_inj.mp
        rw [hpath]
        simp
      rw [hsplit, segments_append, hsegments, List.getLast?_concat] at h
      exact (Option.some.inj h).symm
  have isName : IsName last := by
    refine ⟨?_, ?_, ?_, noSlash⟩ <;> rintro rfl
    · exact named (.inl hlast)
    · exact named (.inr hlast)
    · exact hup hlast
  have hname := fileName?_eq_some isName ends
  rwa [← hpath, String.ofList_toList, ← hlast] at hname

end Path

/-- **The temporary sibling of a file has its names, with another one at the end.** -/
theorem names_temporaryPath (path : String) :
    ∃ before name, Path.names (temporaryPath path) = before ++ [name ++ ".tmp"] ∧
      (Path.names path = before ∨ Path.names path = before ++ [name]) := by
  unfold temporaryPath Path.withFileName
  cases h : Path.fileName? path with
  | none =>
    exact ⟨Path.names path, "", Path.names_join path (isName_append_tmp List.not_mem_nil), .inl rfl⟩
  | some name =>
    have isName := isName_append_tmp (Path.noSlash_of_fileName? h)
    exact ⟨Path.names ((Path.parent? path).getD ""), name, Path.names_join _ isName,
      .inr (Path.names_eq_of_fileName? h)⟩

/-- The temporary sibling of a file starts where the file does. -/
theorem isAbsolute_temporaryPath (path : String) :
    Path.isAbsolute (temporaryPath path) = Path.isAbsolute path := by
  unfold temporaryPath Path.withFileName
  cases h : Path.fileName? path with
  | none => exact Path.isAbsolute_join path (isName_append_tmp List.not_mem_nil)
  | some name =>
    have isName := isName_append_tmp (Path.noSlash_of_fileName? h)
    obtain ⟨directory, hdirectory⟩ := Path.exists_parent_of_fileName? h
    dsimp only
    rw [hdirectory, Option.getD_some, Option.getD_some, Path.isAbsolute_join _ isName,
      Path.isAbsolute_parent hdirectory]

theorem name_ne_append_tmp (name : String) : name ≠ name ++ ".tmp" := by
  intro h
  have hlength := congrArg String.length h
  rw [String.length_append] at hlength
  have : ".tmp".length = 4 := rfl
  omega

/-- So it is not on the way to the file. -/
theorem names_temporaryPath_not_prefix (path : String) :
    ¬ Path.names (temporaryPath path) <+: Path.names path := by
  obtain ⟨before, name, htemporary, hpath⟩ := names_temporaryPath path
  rintro ⟨rest, hrest⟩
  rw [htemporary, List.append_assoc] at hrest
  rcases hpath with hpath | hpath <;> rw [hpath] at hrest
  · simp at hrest
  · have hsame := List.append_cancel_left hrest
    rw [List.singleton_append, List.cons.injEq] at hsame
    exact name_ne_append_tmp name hsame.1.symm

/-- The temporary sibling steps up no more than the file. -/
theorem up_not_mem_names_temporaryPath {path : String} (h : ".." ∉ Path.names path) :
    ".." ∉ Path.names (temporaryPath path) := by
  obtain ⟨before, name, htemporary, hpath⟩ := names_temporaryPath path
  have hbefore : ".." ∉ before := by
    rcases hpath with hpath | hpath <;> rw [hpath] at h
    · exact h
    · exact fun hmem => h (List.mem_append_left _ hmem)
  have hname : ".." ≠ name ++ ".tmp" := by
    intro hup
    have hlength := congrArg String.length hup
    rw [String.length_append] at hlength
    have : "..".length = 2 := rfl
    have : ".tmp".length = 4 := rfl
    omega
  rw [htemporary, List.mem_append, List.mem_singleton, not_or]
  exact ⟨hbefore, hname⟩

end TypedConfig
