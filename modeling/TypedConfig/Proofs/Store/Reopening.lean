/-
# What a save leaves for the next opening

A store whose marks are equal is on its medium: what is there is a document that is
written like the entries (`Workspace.Kept.stored`). Every operation keeps that, and a
save that succeeds ends with equal marks. So a store that is opened after it finds
every entry again, as it was written, unless some value is nested too deep: storing
does not look at the depth, reading does, and then the whole document is dropped
(`Workspace.reopened_after_save`).

Key definitions: `Media.IsVacant`, `Media.Holds`, `Workspace.Kept`.
Key theorems: `Workspace.Kept.run`, `Workspace.reopened_after_save`.
-/
import Mathlib
import TypedConfig.Proofs.Document.RoundTrip
import TypedConfig.Proofs.Store.Keeping

namespace TypedConfig

/-! ### What a medium holds -/

namespace Media

/-- Nothing is at a location, or no bytes. -/
def IsVacant (m : Media) (location : Location) : Prop :=
  m.read location = .ok none ∨ ∃ bytes, m.read location = .ok (some bytes) ∧ bytes.size = 0

/-- What is at a location was written for the document; for the empty one, nothing need be
there. -/
def Holds (m : Media) (location : Location) (encoding : Encoding) (d : Document) : Prop :=
  (∃ nonce bytes, m.read location = .ok (some bytes) ∧ encoding.encode nonce d = .ok bytes) ∨
    d = SortedMap.empty ∧ m.IsVacant location

/-- Nothing reads as the empty document. -/
theorem IsVacant.documentOrEmpty {m : Media} {location : Location} (vacant : m.IsVacant location)
    (encoding : Encoding) :
    ∃ stored?, m.read location = .ok stored? ∧
      encoding.documentOrEmpty stored? = SortedMap.empty := by
  rcases vacant with hnone | ⟨bytes, hread, hsize⟩
  · exact ⟨none, hnone, rfl⟩
  · refine ⟨some bytes, hread, ?_⟩
    unfold Encoding.documentOrEmpty Encoding.decode
    simp only [if_pos hsize]

/-- A document that was written is read again, unless it is nested too deep. -/
theorem read_of_holds {m : Media} {location : Location} {encoding : Encoding} {d : Document}
    (h : m.Holds location encoding d) (finite : d.AllFinite) :
    ∃ stored?, m.read location = .ok stored? ∧ encoding.documentOrEmpty stored? =
      if d.depth ≤ Document.maxDepth then d.persisted else SortedMap.empty := by
  rcases h with ⟨nonce, bytes, hread, hencode⟩ | ⟨rfl, hvacant⟩
  · refine ⟨some bytes, hread, ?_⟩
    have hdecode := Encoding.decode_of_encode finite hencode
    by_cases hdepth : d.depth ≤ Document.maxDepth
    · rw [if_pos hdepth] at hdecode ⊢
      simp only [Encoding.documentOrEmpty, hdecode]
    · rw [if_neg hdepth] at hdecode ⊢
      simp only [Encoding.documentOrEmpty, hdecode]
  · have hdepth : Document.depth SortedMap.empty ≤ Document.maxDepth := Nat.zero_le _
    rw [if_pos hdepth]
    exact hvacant.documentOrEmpty encoding

end Media

/-! ### What the operations keep -/

/-- After at most `n` operations: the entries are finite, no mark is above the set mark nor that
above `n`, and with equal marks the medium holds a document that is written like the entries. -/
structure Workspace.Kept (n : ℕ) (w : Workspace) : Prop where
  finite : w.store.entries.AllFinite
  few : w.store.marks.set.toNat ≤ n
  write_le : w.store.marks.write ≤ w.store.marks.set
  stored : w.store.marks.write = w.store.marks.set →
    ∃ d, d.WrittenAlike w.store.entries ∧ w.media.Holds w.store.location w.store.encoding d

namespace Media

/-- That the medium holds a document which is written like the entries is kept by every
operation. -/
theorem holds_isBacking : IsBacking fun s m =>
    ∃ d, Document.WrittenAlike d s.entries ∧ m.Holds s.location s.encoding d where
  alike := by
    rintro s s' m ⟨d, halike, hholds⟩ home hsame
    refine ⟨d, halike.trans hsame, ?_⟩
    rw [home.location, home.encoding]
    exact hholds
  written := by
    intro s nonce bytes m _ hencode hread
    exact ⟨s.entries, .refl _, .inl ⟨nonce, bytes, hread, hencode⟩⟩

end Media

namespace Workspace.Kept

variable {n : ℕ} {w : Workspace}

theorem iff_keptBy : Kept n w ↔ KeptBy
    (fun s m => ∃ d, Document.WrittenAlike d s.entries ∧ m.Holds s.location s.encoding d) n w :=
  ⟨fun h => ⟨h.finite, h.few, h.write_le, h.stored⟩,
    fun h => ⟨h.finite, h.few, h.write_le, h.stored⟩⟩

/-- An operation on the entries: it counts a change, after which the marks differ, or leaves the
document written as it was. -/
theorem change (kept : Kept n w) (room : n + 1 < 2 ^ 64) {counted : Bool} {store : Store}
    (counts : w.store.Counts counted store) (home : w.store.SameHome store)
    (finite : store.entries.AllFinite) : Kept (n + 1) { w with store } :=
  iff_keptBy.mpr ((iff_keptBy.mp kept).change Media.holds_isBacking room counts home finite)

/-- A save leaves the marks different, or the entries on the medium. -/
theorem save (kept : Kept n w) : Kept n (w.perform .save).2 :=
  iff_keptBy.mpr ((iff_keptBy.mp kept).save Media.holds_isBacking)

/-- Operations, one after another. -/
theorem run (kept : Kept n w) (cs : List StoreCommand) (room : n + cs.length < 2 ^ 64) :
    Kept (n + cs.length) (w.run cs).2 :=
  iff_keptBy.mpr ((iff_keptBy.mp kept).run Media.holds_isBacking cs room)

/-- A save that succeeds leaves nothing to write. -/
theorem marks_of_saved (kept : Kept n w) {wrote : Bool} {w' : Workspace}
    (h : w.perform .save = (.saved wrote, w')) : w'.store.marks.write = w'.store.marks.set :=
  (iff_keptBy.mp kept).marks_of_saved h

end Workspace.Kept

/-! ### Opening -/

/-- A store that is opened without a seed has what its medium holds, and nothing to write. -/
theorem Store.opened_unseeded {o : OpenOptions} {env : Environment} {media : Media}
    {location : Location} {stored? : Option Bytes} (unseeded : o.seed? = none)
    (hlocation : o.location env = .ok location) (hread : media.read location = .ok stored?) :
    ∃ s, Store.opened o env media = .ok s ∧ s.marks = {} ∧ s.location = location ∧
      s.encoding = o.encoding ∧ s.entries = o.encoding.documentOrEmpty stored? := by
  refine ⟨Store.load o location stored?, ?_, rfl, rfl, rfl, ?_⟩
  · simp only [Store.opened, hlocation, hread]
  · simp only [Store.load, unseeded, Encoding.documentOrEmpty]
    exact SortedMap.empty_merge _

/-- A store that is opened over nothing is on its medium. -/
theorem Workspace.kept_of_opened {o : OpenOptions} {env : Environment} {media : Media}
    {nonces : NonceSupply} {w : Workspace} (unseeded : o.seed? = none)
    (opened : Workspace.opened o env media nonces = .ok w)
    (vacant : media.IsVacant w.store.location) :
    Workspace.Kept 0 w ∧ o.location env = .ok w.store.location ∧ w.store.encoding = o.encoding := by
  cases hlocation : o.location env with
  | error e =>
    simp only [Workspace.opened, Store.opened, hlocation, Except.map] at opened
    cases opened
  | ok location =>
    cases hread : media.read location with
    | error e =>
      simp only [Workspace.opened, Store.opened, hlocation, hread, Except.map] at opened
      cases opened
    | ok stored? =>
      obtain ⟨s, hopened, hmarks, hplace, hencoding, hentries⟩ :=
        Store.opened_unseeded unseeded hlocation hread
      rw [Workspace.opened, hopened] at opened
      cases opened
      rw [hplace] at vacant
      obtain ⟨found?, hfound, hempty⟩ := vacant.documentOrEmpty o.encoding
      rw [hread] at hfound
      cases hfound
      rw [hempty] at hentries
      refine ⟨⟨?_, ?_, ?_, fun _ => ⟨SortedMap.empty, ?_, .inr ⟨rfl, ?_⟩⟩⟩, ?_, hencoding⟩
      · show s.entries.AllFinite
        rw [hentries]
        exact Document.allFinite_empty
      · show s.marks.set.toNat ≤ 0
        rw [hmarks]
        exact Nat.le_refl 0
      · show s.marks.write ≤ s.marks.set
        rw [hmarks]
        exact UInt64.le_refl 0
      · show Document.WrittenAlike SortedMap.empty s.entries
        rw [hentries]
        exact .refl _
      · show media.IsVacant s.location
        rw [hplace]
        exact vacant
      · rw [hplace]

/-- **What a save leaves is found by the next opening, or nothing is.** After any operations on
a store that was opened over nothing, and a save that succeeded, a store that is opened over the
same medium has nothing to write, and it has the same keys with values that are written alike if
and only if no value is nested deeper than can be read; otherwise it is empty. -/
theorem Workspace.reopened_after_save {o o' : OpenOptions} {env env' : Environment}
    {media : Media} {nonces : NonceSupply} {w₀ w : Workspace} (cs : List StoreCommand) {wrote : Bool}
    (unseeded : o.seed? = none) (opened : Workspace.opened o env media nonces = .ok w₀)
    (vacant : media.IsVacant w₀.store.location) (few : cs.length < 2 ^ 64)
    (saved : (w₀.run cs).2.perform .save = (.saved wrote, w))
    (unseeded' : o'.seed? = none) (location : o'.location env' = o.location env)
    (encoding : o'.encoding = o.encoding) :
    ∃ s, Store.opened o' env' w.media = .ok s ∧ s.isDirty = false ∧
      (s.entries.WrittenAlike w.store.entries ↔ w.store.entries.depth ≤ Document.maxDepth) ∧
      (Document.maxDepth < w.store.entries.depth → s.entries = SortedMap.empty) := by
  obtain ⟨kept₀, hlocation, hencoding⟩ := Workspace.kept_of_opened unseeded opened vacant
  have keptRun := kept₀.run cs (by omega)
  have kept := keptRun.save
  have home := (w₀.run_sameHome cs).trans ((w₀.run cs).2.perform_sameHome .save)
  rw [saved] at kept home
  dsimp only at kept home
  obtain ⟨d, halike, hholds⟩ := kept.stored (keptRun.marks_of_saved saved)
  obtain ⟨stored?, hread, hdocument⟩ := Media.read_of_holds hholds (halike.symm.allFinite kept.finite)
  rw [halike.depth_eq] at hdocument
  have hlocation' : o'.location env' = .ok w.store.location := by
    rw [location, hlocation, home.location]
  have hencoding' : w.store.encoding = o'.encoding := by
    rw [home.encoding, hencoding, encoding]
  obtain ⟨s, hopened, hmarks, -, -, hentries⟩ := Store.opened_unseeded unseeded' hlocation' hread
  rw [← hencoding', hdocument] at hentries
  refine ⟨s, hopened, ?_, ?_, fun hdeep => ?_⟩
  · rw [Store.isDirty, hmarks]
    rfl
  · constructor
    · intro hsame
      by_contra hdeep
      rw [if_neg hdeep] at hentries
      rw [hentries] at hsame
      have hdepth := hsame.depth_eq
      -- the empty document is nested not at all
      exact hdeep (hdepth ▸ Nat.zero_le _)
    · intro hdepth
      rw [if_pos hdepth] at hentries
      rw [hentries]
      exact d.persisted_writtenAlike.trans halike
  · rw [hentries, if_neg (by omega)]

/-- A store in memory that holds nothing. -/
def Workspace.blank : Workspace :=
  { store := { name := "s", location := .memory, encoding := .plain }
    media := { memory := {}, files := { root := "/r" } } }

set_option maxRecDepth 4096 in
/-- The store accepts a value that is nested too deep, saves it, and has lost all entries when
it is opened again. -/
theorem Workspace.reopened_after_save_tooDeep :
    ∃ w s, Workspace.opened { address := .named "s", inMemory := true } {} blank.media {} =
        .ok blank ∧
      (blank.run [.putValue "a" (.int 1), .putValue "k" (Value.nested 127)]).1 =
        [.changed true, .changed true] ∧
      (blank.run [.putValue "a" (.int 1), .putValue "k" (Value.nested 127)]).2.perform .save =
        (.saved true, w) ∧
      w.store.entries.keys = ["a", "k"] ∧
      Store.opened { address := .named "s", inMemory := true } {} w.media = .ok s ∧
      s.isDirty = false ∧ s.entries = SortedMap.empty := by
  have opened : Workspace.opened { address := .named "s", inMemory := true } {} blank.media {} =
      .ok blank := rfl
  obtain ⟨w, saved⟩ : ∃ w, (blank.run [.putValue "a" (.int 1),
      .putValue "k" (Value.nested 127)]).2.perform .save = (.saved true, w) := ⟨_, rfl⟩
  have hentries : w.store.entries = (SortedMap.empty.insert "a" (Value.int 1)).insert "k"
      (Value.nested 127) := by
    cases saved
    rfl
  have hdeep : Document.maxDepth < w.store.entries.depth := by
    rw [hentries]
    show 126 < max 0 (max (Value.nested 127).depth 0)
    rw [Value.depth_nested]
    decide
  obtain ⟨s, hopened, hclean, -, hlost⟩ :=
    reopened_after_save [.putValue "a" (.int 1), .putValue "k" (Value.nested 127)] rfl opened
      (.inl rfl) (by decide) saved rfl rfl rfl
  refine ⟨w, s, opened, rfl, saved, ?_, hopened, hclean, hlost hdeep⟩
  rw [hentries]
  rfl

end TypedConfig
