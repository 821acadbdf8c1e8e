/-
# What is put is read back

A typed value is stored unless one of its floats is not finite, and then its entry
reads at the type as the same value (`Store.reads_put`). A save carries it to the next
opening with everything else, or with nothing: what the medium holds for a store gives
every entry back as long as none of them is nested too deep for the reader
(`Media.Restores`), however the store was opened and whatever was done with it
(`Workspace.keptBy_of_opened`).

Key definitions: `Media.Restores`.
Key theorems: `Store.exists_put`, `Store.put_of_not_finite`, `Store.reads_put`,
`Workspace.reopened_of_saved`, `Workspace.put_then_get`.
-/
import Mathlib
import TypedConfig.Proofs.Schema.Writing
import TypedConfig.Proofs.Store.Reopening
import TypedConfig.Proofs.Store.Rereading

namespace TypedConfig

/-! ### Putting -/

namespace Store

variable {s s' : Store} {t : SettingType} {key : String} {v : t.Val}

/-- **A value with finite floats is stored.** -/
theorem exists_put (hkey : key ≠ "") (hopen : s.closed = false) (finite : t.isFinite v = true) :
    ∃ changed s', s.put t key v = .ok (changed, s') := by
  refine ⟨_, _, put_eq_ok_iff.mpr ⟨hkey, hopen, ?_, rfl⟩⟩
  rw [t.checkPersistable_toValue v, if_pos finite]

/-- **A value with a float that is not finite is refused for that.** -/
theorem put_of_not_finite (hkey : key ≠ "") (hopen : s.closed = false)
    (infinite : t.isFinite v = false) :
    s.put t key v = .error (.persistence .nonFiniteFloat) := by
  have hcheck : (s.memoryForm t v).checkPersistable = .error .nonFiniteFloat := by
    rw [checkPersistable_memoryForm, t.checkPersistable_toValue v, infinite]
    rfl
  have hwritable : s.checkWritable key = .ok () := by
    unfold checkWritable
    rw [if_neg hkey, hopen]
    rfl
  unfold put putValue
  simp only [hwritable, hcheck]

/-- **What was put is what the entry reads as.** -/
theorem reads_put (finite : t.isFinite v = true) {changed : Bool}
    (h : s.put t key v = .ok (changed, s')) : s'.Reads t key v := by
  refine ⟨s.memoryForm t v, ?_, ?_⟩
  · rw [get?_of_put h, if_pos rfl]
  · exact SettingType.fromValue_eq_of_written (s.memoryForm_persisted t v)
      ((t.isFinite_iff v).mp finite)

/-- **To put a value again is no change.** -/
theorem put_again {changed : Bool} (h : s.put t key v = .ok (changed, s')) :
    ∃ s'', s'.put t key v = .ok (false, s'') := by
  obtain ⟨hkey, -, hcheck, -⟩ := put_eq_ok_iff.mp h
  have hentry : s'.get? key = some (s.memoryForm t v) := by
    rw [get?_of_put h, if_pos rfl]
  have hsame : (s.memoryForm t v).samePersisted (s'.memoryForm t v) = true := by
    rw [Value.samePersisted_iff, memoryForm_persisted, memoryForm_persisted]
  have hunchanged : (s'.setEntry key (s'.memoryForm t v)).1 = false := by
    show isChange (s'.get? key) (s'.memoryForm t v) = false
    simp only [isChange, hentry, hsame, Bool.not_true]
  refine ⟨(s'.setEntry key (s'.memoryForm t v)).2, put_eq_ok_iff.mpr ⟨hkey, ?_, hcheck, ?_⟩⟩
  · exact (closed_of_put h).2
  · exact Prod.ext hunchanged rfl

end Store

/-! ### Opening again -/

/-- A store that is opened with the seed over the medium finds every entry again as it is written,
if none is nested too deep. Otherwise it finds what the seed has. -/
def Media.Restores (seed : Document) (s : Store) (m : Media) : Prop :=
  ∃ stored?, m.read s.location = .ok stored? ∧
    (s.entries.depth ≤ Document.maxDepth → ∀ key value, s.get? key = some value →
      ∃ found, (seed.merge (s.encoding.documentOrEmpty stored?)).get? key = some found ∧
        found.persisted = value.persisted) ∧
    (Document.maxDepth < s.entries.depth →
      s.encoding.documentOrEmpty stored? = SortedMap.empty)

/-- Whatever the seed, every operation keeps that the entries are restored. -/
theorem Media.restores_isBacking (seed : Document) : IsBacking (Restores seed) where
  alike := by
    rintro s s' m ⟨stored?, hread, hshallow, hdeep⟩ home halike
    refine ⟨stored?, ?_, fun hdepth key value hvalue => ?_, fun hdepth => ?_⟩
    · rw [home.location]
      exact hread
    · have hentry := halike key
      rw [show s'.entries.get? key = some value from hvalue] at hentry
      cases hold : s.entries.get? key with
      | none =>
        rw [hold] at hentry
        cases hentry
      | some old =>
        rw [hold, Option.rel_some_some, Value.samePersisted_iff] at hentry
        rw [← halike.depth_eq] at hdepth
        obtain ⟨found, hfound, hpersisted⟩ := hshallow hdepth key old hold
        rw [home.encoding]
        exact ⟨found, hfound, hpersisted.trans hentry⟩
    · rw [← halike.depth_eq] at hdepth
      rw [home.encoding]
      exact hdeep hdepth
  written := by
    intro s nonce bytes m finite hencode hread
    obtain ⟨stored?, hread, hdocument⟩ :=
      Media.read_of_holds (.inl ⟨nonce, bytes, hread, hencode⟩) finite
    refine ⟨stored?, hread, fun hdepth key value hvalue => ?_, fun hdepth => ?_⟩
    · rw [if_pos hdepth] at hdocument
      have hvalue : s.entries.get? key = some value := hvalue
      refine ⟨value.persisted, ?_, value.persisted_persisted⟩
      rw [hdocument, SortedMap.get?_merge, Document.get?_persisted, hvalue]
      rfl
    · rw [hdocument, if_neg (by omega)]

namespace Workspace

variable {o : OpenOptions} {env : Environment} {media : Media} {nonces : NonceSupply}
  {w₀ w w' : Workspace}

/-- A store that was opened is restored: nothing is to be written, and nothing that was read is
nested too deep. -/
theorem keptBy_of_opened (opened : Workspace.opened o env media nonces = .ok w₀) :
    KeptBy (Media.Restores (o.encoding.documentOrEmpty o.seed?)) 0 w₀ ∧
      o.location env = .ok w₀.store.location ∧ w₀.store.encoding = o.encoding := by
  have finite : w₀.store.entries.AllFinite := run_allFinite opened []
  obtain ⟨location, stored?, hlocation, hread, rfl⟩ := eq_of_opened opened
  refine ⟨⟨finite, Nat.le_refl 0, UInt64.le_refl 0, fun _ => ⟨stored?, hread, ?shallow, ?deep⟩⟩,
    hlocation, rfl⟩
  case shallow =>
    intro _ key value hvalue
    exact ⟨value, hvalue, rfl⟩
  case deep =>
    intro hdeep
    -- the entries come from documents that were read
    have hdepth : Document.depth ((o.encoding.documentOrEmpty o.seed?).merge
        (o.encoding.documentOrEmpty stored?)) ≤ Document.maxDepth := by
      rw [Document.depth_le_iff]
      intro key value hvalue
      rw [SortedMap.get?_merge, Option.or_eq_some_iff] at hvalue
      rcases hvalue with hstored | ⟨-, hseed⟩
      · exact (isSound_documentOrEmpty o.encoding stored? key value hstored).shallow
      · exact (isSound_documentOrEmpty o.encoding o.seed? key value hseed).shallow
    exact absurd hdepth (Nat.not_le.mpr hdeep)

/-- So it is after any operations. -/
theorem keptBy_of_run (opened : Workspace.opened o env media nonces = .ok w₀)
    (cs : List StoreCommand) (few : cs.length < 2 ^ 64) :
    KeptBy (Media.Restores (o.encoding.documentOrEmpty o.seed?)) cs.length (w₀.run cs).2 ∧
      o.location env = .ok (w₀.run cs).2.store.location ∧
      (w₀.run cs).2.store.encoding = o.encoding := by
  have backing := Media.restores_isBacking (o.encoding.documentOrEmpty o.seed?)
  obtain ⟨kept₀, hlocation, hencoding⟩ := keptBy_of_opened opened
  have home := w₀.run_sameHome cs
  have kept := kept₀.run backing cs (by omega)
  rw [Nat.zero_add] at kept
  exact ⟨kept, hlocation.trans (congrArg Except.ok home.location.symm),
    home.encoding.trans hencoding⟩

/-- **After a save that succeeded, a store that is opened in its place has every entry again, or
nothing but its seed.** -/
theorem reopened_of_saved {n : ℕ} {wrote : Bool}
    (kept : KeptBy (Media.Restores (o.encoding.documentOrEmpty o.seed?)) n w)
    (saved : w.perform .save = (.saved wrote, w')) (location : o.location env = .ok w.store.location)
    (encoding : o.encoding = w.store.encoding) (nonces : NonceSupply) :
    ∃ w'', Workspace.opened o env w'.media nonces = .ok w'' ∧ w''.store.closed = false ∧
      (w.store.entries.depth ≤ Document.maxDepth → ∀ key value, w.store.get? key = some value →
        ∃ found, w''.store.get? key = some found ∧ found.persisted = value.persisted) ∧
      (Document.maxDepth < w.store.entries.depth →
        w''.store.entries = o.encoding.documentOrEmpty o.seed?) := by
  have backing := Media.restores_isBacking (o.encoding.documentOrEmpty o.seed?)
  have kept' := kept.save backing
  have home := w.perform_sameHome .save
  have entries := w.save_entries
  rw [saved] at kept' home entries
  dsimp only at kept' home entries
  obtain ⟨stored?, hread, hshallow, hdeep⟩ := kept'.stored (kept.marks_of_saved saved)
  rw [home.location] at hread
  rw [home.encoding, ← encoding] at hshallow hdeep
  rw [entries] at hshallow hdeep
  refine ⟨⟨Store.load o w.store.location stored?, w'.media, nonces⟩, ?_, rfl, ?_, ?_⟩
  · simp only [Workspace.opened, Store.opened, location, hread, Except.map]
  · intro hdepth key value hvalue
    refine hshallow hdepth key value ?_
    show w'.store.entries.get? key = some value
    rw [entries]
    exact hvalue
  · intro hdepth
    have hempty := hdeep hdepth
    show (o.encoding.documentOrEmpty o.seed?).merge (o.encoding.documentOrEmpty stored?) = _
    rw [hempty]
    rfl

/-! ### A value of a type, from hand to hand -/

theorem perform_get_of_reads {t : SettingType} {key : String} {v : t.Val}
    (reads : w.store.Reads t key v) (hkey : key ≠ "") (hopen : w.store.closed = false)
    (default : t.Val) : (w.perform (.get t key default)).1 = .typed t v := by
  obtain ⟨entry, hentry, hread⟩ := reads
  have hget := Store.get_of_reads hkey hopen hentry hread default
  exact congrArg (fun a => StoreReply.typed t a.1) hget

/-- **What is put at a type is read back at the type.** In an open store and under a key, a value
is refused exactly if one of its floats is not finite, for that reason and with everything left as
it was. Otherwise every read of the key answers the same value down to the bits of its floats,
putting it again is no change, and the other entries are those that were there. If the store was
opened in some way and worked on, and is then saved, a store that is opened in its place answers
the same value too, provided that no entry is nested too deep for the reader. If one is, that
store has the entries of the seed only. -/
theorem put_then_get (w : Workspace) (t : SettingType) (key : String) (v : t.Val)
    (hkey : key ≠ "") (hopen : w.store.closed = false) :
    (t.isFinite v = false →
      w.perform (.put t key v) = (.refused (.persistence .nonFiniteFloat), w)) ∧
    (t.isFinite v = true → ∃ changed w₁, w.perform (.put t key v) = (.changed changed, w₁) ∧
      (∀ default, (w₁.perform (.get t key default)).1 = .typed t v) ∧
      (w₁.perform (.put t key v)).1 = .changed false ∧
      (∀ other, other ≠ key → w₁.store.get? other = w.store.get? other) ∧
      ∀ (o o' : OpenOptions) (env env' : Environment) (media : Media) (nonces : NonceSupply)
        (w₀ w₂ : Workspace) (cs : List StoreCommand) (wrote : Bool),
        Workspace.opened o env media nonces = .ok w₀ → (w₀.run cs).2 = w →
        cs.length + 1 < 2 ^ 64 → w₁.perform .save = (.saved wrote, w₂) →
        o'.location env' = o.location env → o'.encoding = o.encoding → o'.seed? = o.seed? →
        ∃ w₃, Workspace.opened o' env' w₂.media w₂.nonces = .ok w₃ ∧
          (w₁.store.entries.depth ≤ Document.maxDepth →
            ∀ default, (w₃.perform (.get t key default)).1 = .typed t v) ∧
          (Document.maxDepth < w₁.store.entries.depth →
            w₃.store.entries = o.encoding.documentOrEmpty o.seed?)) := by
  refine ⟨fun infinite => ?refused, fun finite => ?stored⟩
  case refused =>
    have hput := Store.put_of_not_finite hkey hopen infinite
    simp only [Workspace.perform, hput, Workspace.settled]
  case stored =>
    obtain ⟨changed, s', hput⟩ := Store.exists_put (v := v) hkey hopen finite
    have hopen' : s'.closed = false := (Store.closed_of_put hput).2
    have hperform : w.perform (.put t key v) = (.changed changed, { w with store := s' }) := by
      simp only [Workspace.perform, hput, Workspace.settled]
    refine ⟨changed, { w with store := s' }, hperform, fun default => ?_, ?_, ?_, ?reopened⟩
    · exact perform_get_of_reads (Store.reads_put finite hput) hkey hopen' default
    · obtain ⟨s'', hagain⟩ := Store.put_again hput
      simp only [Workspace.perform, hagain, Workspace.settled]
    · intro other hother
      show s'.get? other = w.store.get? other
      rw [Store.get?_of_put hput, if_neg (Ne.symm hother)]
    case reopened =>
      intro o o' env env' media nonces w₀ w₂ cs wrote opened ran few saved location encoding seed
      obtain ⟨kept, hlocation, hencoding⟩ := keptBy_of_run opened (cs ++ [.put t key v]) (by
        rw [List.length_append]
        exact few)
      rw [run_append, ran] at kept hlocation hencoding
      have hran : (w.run [.put t key v]).2 = { w with store := s' } :=
        congrArg Prod.snd hperform
      rw [hran] at kept hlocation hencoding
      rw [← location] at hlocation
      rw [← encoding] at hencoding
      rw [← encoding, ← seed] at kept ⊢
      obtain ⟨w₃, hopened, hopen₃, hshallow, hdeep⟩ :=
        reopened_of_saved kept saved hlocation hencoding.symm w₂.nonces
      refine ⟨w₃, hopened, fun hdepth default => ?_, hdeep⟩
      have hentry : s'.get? key = some (w.store.memoryForm t v) := by
        rw [Store.get?_of_put hput, if_pos rfl]
      obtain ⟨found, hfound, hpersisted⟩ := hshallow hdepth key _ hentry
      rw [Store.memoryForm_persisted] at hpersisted
      have hread : t.fromValue found = .ok v :=
        SettingType.fromValue_eq_of_written hpersisted ((t.isFinite_iff v).mp finite)
      exact perform_get_of_reads ⟨found, hfound, hread⟩ hkey hopen₃ default

set_option maxRecDepth 4096 in
/-- A truth value is read back at once, but with another entry nested too deep it is lost on the
way through the medium. -/
theorem put_then_get_besideDeep :
    ∃ w₁ w₂ w₃, (blank.run [.putValue "deep" (Value.nested 127)]).2.perform
        (.put .boolean "k" true) = (.changed true, w₁) ∧
      (w₁.perform (.get .boolean "k" false)).1 = .typed .boolean true ∧
      w₁.perform .save = (.saved true, w₂) ∧
      Workspace.opened { address := .named "s", inMemory := true } {} w₂.media w₂.nonces =
        .ok w₃ ∧
      (w₃.perform (.get .boolean "k" false)).1 = .typed .boolean false := by
  have opened : Workspace.opened { address := .named "s", inMemory := true } {} blank.media {} =
      .ok blank := rfl
  obtain ⟨changed, w₁, hput, hget, -, -, reopened⟩ :=
    (put_then_get (blank.run [.putValue "deep" (Value.nested 127)]).2 .boolean "k" true
      (by decide) rfl).2 rfl
  have hchanged : changed = true := by
    cases hput
    rfl
  have hentries : w₁.store.entries = (SortedMap.empty.insert "deep" (Value.nested 127)).insert "k"
      (Value.bool true) := by
    cases hput
    rfl
  have hdeep : Document.maxDepth < w₁.store.entries.depth := by
    rw [hentries]
    show 126 < max (Value.nested 127).depth (max 0 0)
    rw [Value.depth_nested]
    decide
  obtain ⟨w₂, saved⟩ : ∃ w₂, w₁.perform .save = (.saved true, w₂) := by
    cases hput
    exact ⟨_, rfl⟩
  obtain ⟨w₃, hopened, -, hlost⟩ := reopened _ _ _ _ _ _ _ w₂ _ true opened rfl (by decide) saved
    rfl rfl rfl
  have hempty : w₃.store.entries = SortedMap.empty := hlost hdeep
  refine ⟨w₁, w₂, w₃, hchanged ▸ hput, hget false, saved, hopened, ?_⟩
  obtain ⟨location, stored?, -, -, rfl⟩ := eq_of_opened hopened
  have hentry : (Store.load { address := .named "s", inMemory := true } location stored?).get? "k" =
      none := congrArg (fun d : Document => d.get? "k") hempty
  simp only [Workspace.perform, Store.get, hentry]
  rfl

end Workspace

end TypedConfig
