/-
# A thread that is not interrupted

The steps of a thread are those of the store's own operations: where no other thread
comes between, they lead to the reply, the store and the medium that the operation
gives (`Run.perform_alone`), and so do the steps of one operation after another
(`Run.run_alone`). Each operation has one effect at most.

Key definitions: `Workspace.shared`.
Key theorems: `Run.perform_alone`, `Run.run_alone`.
-/
import Mathlib
import TypedConfig.Proofs.Sharing.Machine
import TypedConfig.Proofs.Store.Frame
import TypedConfig.Proofs.Store.Saving

namespace TypedConfig

/-- A workspace that no thread is at work on. -/
def Workspace.shared (w : Workspace) : SharedStore :=
  { store := w.store, medium := w.media.memory, holder? := none, phase := fun _ => .idle }

/-! ### Single steps -/

namespace Run

variable {start s : SharedStore} {es : List Effect} {i : ℕ} {p q : Phase}

theorem begin (idle : s.phase i = .idle) (c : StoreCommand) :
    Run s [] ({ s with store := (Phase.begin s.store c).1 }.put i (Phase.begin s.store c).2) :=
  .step .start (.begins c idle)

theorem look (h : Run start es (s.put i p)) (hl : p.look s.store = some q) :
    Run start es (s.put i q) := by
  have hstep := h.step (.looks (i := i) (p := q) (by simpa using hl))
  rwa [s.put_put] at hstep

theorem change {counted : Bool} {store : Store} (h : Run start es (s.put i p))
    (hc : p.change s.store = some (counted, store, q)) :
    Run start (Effect.ofChange counted ++ es) ({ s with store }.put i q) := by
  have hstep := h.step (.changes (i := i) (p := q) (by simpa using hc))
  have he : ({ s.put i p with store } : SharedStore).put i q = { s with store }.put i q := by
    simp [SharedStore.put]
  rwa [he] at hstep

end Run

namespace Store

/-- Storing a default where nothing came between is the section of what was found. -/
theorem populate_eq (s : Store) (t : SettingType) (key : String) (default : t.Val) :
    s.populate t key (s.get? key) default =
      if (s.memoryForm t default).isPersistable then
        (s.populateSection key (s.get? key) (s.memoryForm t default)).2
      else s := by
  simp only [populate, populateSection, setEntry]
  by_cases hp : (s.memoryForm t default).isPersistable = true <;>
    by_cases hs : s.isStill key (s.get? key) = true <;> simp [hp, hs]

theorem remove_eq (s : Store) (key : String) :
    s.remove key = (s.checkWritable key).map fun _ => s.removeSection key := by
  simp only [remove, removeSection]
  cases s.checkWritable key with
  | error e => rfl
  | ok u => cases s.get? key <;> rfl

end Store

namespace Run

variable {s : SharedStore} {i : ℕ}

/-- A read that no other thread comes between. -/
theorem get_alone (idle : s.phase i = .idle) (t : SettingType) (key : String) (default : t.Val) :
    ∃ es, Run s es ({ s with store := (s.store.get t key default).2 }.put i
      (.done (.typed t (s.store.get t key default).1))) ∧ es.length ≤ 1 := by
  have hbegin := Run.begin idle (.get t key default)
  simp only [Phase.begin] at hbegin
  unfold Store.get
  by_cases hclosed : key = "" ∨ s.store.closed = true
  · rw [if_pos hclosed] at hbegin ⊢
    exact ⟨[], hbegin, by simp⟩
  rw [if_neg hclosed] at hbegin ⊢
  -- what stores the default, after a look that found `found?`
  have hlack : ∀ found?, s.store.get? key = found? →
      Run s [] (s.put i (.lacking t key default found?)) →
      ∃ es, Run s es ({ s with
          store := (if s.store.autoPopulate then s.store.populate t key found? default
            else s.store) }.put i (.done (.typed t default))) ∧ es.length ≤ 1 := by
    intro found? hfound hrun
    cases hauto : s.store.autoPopulate with
    | false => exact ⟨[], hrun.look (by simp [Phase.look, hauto]), by simp⟩
    | true =>
      have hrun := hrun.look (q := .defaulting t key default found?) (by simp [Phase.look, hauto])
      subst hfound
      rw [if_pos rfl, Store.populate_eq]
      by_cases hp : (s.store.memoryForm t default).isPersistable = true
      · rw [if_pos hp]
        have hrun := hrun.look (q := .populating t key default (s.store.get? key)
          (s.store.memoryForm t default)) (by simp [Phase.look, hp])
        refine ⟨_, hrun.change rfl, ?_⟩
        unfold Effect.ofChange
        split <;> simp
      · rw [if_neg hp]
        exact ⟨[], hrun.look (by simp [Phase.look, hp]), by simp⟩
  cases hget : s.store.get? key with
  | none =>
    exact hlack none hget (hbegin.look (by simp [Phase.look, hget]))
  | some found =>
    cases hread : t.fromValue found with
    | error e =>
      simp only [hread]
      exact hlack (some found) hget (hbegin.look (by simp [Phase.look, hget, hread]))
    | ok v =>
      simp only [hread]
      have hrun := hbegin.look (q := .resolved t key v found) (by simp [Phase.look, hget, hread])
      cases hcache : s.store.enumCache with
      | false => exact ⟨[], hrun.look (by simp [Phase.look, hcache]), by simp⟩
      | true =>
        have hrun := hrun.look (q := .caching t key v found) (by simp [Phase.look, hcache])
        exact ⟨_, hrun.change rfl, by simp [Effect.ofChange]⟩

/-- Storing a value that no other thread comes between. -/
theorem checking_alone {w : Workspace} {key : String} {value : Value}
    (h : Run w.shared [] (w.shared.put i (.checking key value))) :
    ∃ es, Run w.shared es
      ((w.settled .changed (w.store.putValue key value)).2.shared.put i
        (.done (w.settled .changed (w.store.putValue key value)).1)) ∧ es.length ≤ 1 := by
  unfold Store.putValue
  cases hwritable : w.store.checkWritable key with
  | error e =>
    exact ⟨[], h.look (by simp [Phase.look, Workspace.shared, Workspace.settled, hwritable]),
      by simp⟩
  | ok u =>
    cases hcheck : value.checkPersistable with
    | error e =>
      exact ⟨[], h.look
        (by simp [Phase.look, Workspace.shared, Workspace.settled, hwritable, hcheck]), by simp⟩
    | ok u =>
      have hrun := h.look (q := .putting key value)
        (by simp [Phase.look, Workspace.shared, hwritable, hcheck])
      refine ⟨_, hrun.change rfl, ?_⟩
      unfold Effect.ofChange
      split <;> simp

/-- A removal that no other thread comes between. -/
theorem remove_alone (w : Workspace) (key : String) :
    ∃ es, Run w.shared es
      ((w.settled .removed (w.store.remove key)).2.shared.put i
        (.done (w.settled .removed (w.store.remove key)).1)) ∧ es.length ≤ 1 := by
  have hbegin := Run.begin (s := w.shared) (i := i) rfl (.remove key)
  simp only [Phase.begin] at hbegin
  rw [Store.remove_eq]
  cases hwritable : w.store.checkWritable key with
  | error e =>
    simp only [Workspace.shared, hwritable] at hbegin
    exact ⟨[], hbegin, by simp⟩
  | ok u =>
    simp only [show w.shared.store = w.store from rfl, hwritable] at hbegin
    cases hget : w.store.get? key with
    | none =>
      refine ⟨[], ?_, by simp⟩
      have hrun := hbegin.look (q := .done (.removed none)) (by simp [Phase.look, hget])
      simpa [Except.map, Workspace.settled, Store.removeSection, Workspace.shared, hget] using hrun
    | some value =>
      have hrun := hbegin.look (q := .removing key) (by simp [Phase.look, hget])
      refine ⟨_, hrun.change rfl, ?_⟩
      unfold Effect.ofChange
      split <;> simp

/-- The end of a save that could not write: it takes its claim back and lets go of the lock. -/
theorem failed_alone {start : SharedStore} {previous snapshot : UInt64} {e : StoreError}
    (h : Run start es (s.put i (.saving (.failed previous snapshot e)))) :
    Run start es ({ s with
      store.marks := s.store.marks.rollback snapshot previous, holder? := none }.put i
      (.done (.refused e))) := by
  have hrun := h.step (.rollsBack (s.put_phase i _))
  have hrun := hrun.step (.releases (SharedStore.put_phase _ i _))
  simpa [SharedStore.put, Phase.afterSave] using hrun

/-- A save with changes to write, up to the publication of its mark. -/
theorem published_alone {w : Workspace} (nonce : Nonce) (hopen : w.store.closed = false)
    (dirty : w.store.marks.write < w.store.marks.set) :
    Run w.shared [] ({ w.shared with
      store.marks.write := w.store.marks.set, holder? := some i }.put i
      (.saving (.published w.store.marks.write w.store.marks.set (w.store.encoded nonce)))) := by
  have hbegin := Run.begin (s := w.shared) (i := i) rfl .save
  simp only [Phase.begin, Workspace.shared, hopen] at hbegin
  have hrun := (hbegin.look (q := .saving (.loaded w.store.marks.set)) rfl).step
    (.claims (SharedStore.put_phase _ i _))
  have hclaim : w.store.marks.claimAt w.store.marks.set =
    (some w.store.marks.write, { w.store.marks with write := w.store.marks.set }) :=
    DirtyMarks.claim_of_lt dirty
  simp only [SharedStore.put_store, hclaim] at hrun
  have hrun := hrun.step (.locks (SharedStore.put_phase _ i _) rfl)
  have hrun := hrun.step (.snaps nonce (SharedStore.put_phase _ i _))
  have hrun := hrun.step (.publishes (SharedStore.put_phase _ i _))
  have hpublish : { w.store.marks with write := w.store.marks.set }.publish w.store.marks.set =
      { w.store.marks with write := w.store.marks.set } := DirtyMarks.raise_of_le (by grind)
  simp only [SharedStore.put, Function.update_idem, hpublish] at hrun
  exact hrun

/-- A save that no other thread comes between. -/
theorem save_alone (w : Workspace) (hl : w.store.location = .memory) :
    ∃ es, Run w.shared es ((w.perform .save).2.shared.put i (.done (w.perform .save).1)) ∧
      es.length ≤ 1 := by
  cases hclosed : w.store.closed with
  | true =>
    have hbegin := Run.begin (s := w.shared) (i := i) rfl .save
    refine ⟨[], ?_, by simp⟩
    simpa [Phase.begin, Workspace.shared, Workspace.perform, Workspace.save,
      Store.save_of_closed hclosed, hclosed] using hbegin
  | false =>
  by_cases dirty : w.store.marks.write < w.store.marks.set
  · have hrun := published_alone (i := i) w.nonces.next.1 hclosed dirty
    cases henc : w.store.encoded w.nonces.next.1 with
    | error e =>
      rw [henc] at hrun
      have hrun := hrun.step (.givesUp (SharedStore.put_phase _ i _))
      rw [SharedStore.put_put] at hrun
      have hrun := failed_alone hrun
      refine ⟨[], ?_, by simp⟩
      simpa [Workspace.shared, Workspace.perform, Workspace.save,
        Store.save_of_unencodable hclosed dirty henc, DirtyMarks.rollback] using hrun
    | ok bytes =>
      rw [henc] at hrun
      cases hwrite : w.media.memory.write bytes with
      | error e =>
        have hrun := hrun.step (.misses (SharedStore.put_phase _ i _) hwrite)
        rw [SharedStore.put_put] at hrun
        have hrun := failed_alone hrun
        refine ⟨[.wrote w.store.marks.set false], ?_, by simp⟩
        have hsave : w.store.save w.nonces.next.1 w.media =
            (.error (.medium w.store.location e), w.store, w.media) :=
          Store.save_of_failed hclosed dirty henc (by simp [Media.write, hl, hwrite])
        simpa [Workspace.shared, Workspace.perform, Workspace.save, hsave, DirtyMarks.rollback]
          using hrun
      | ok memory =>
        have hrun := hrun.step (.writes (SharedStore.put_phase _ i _) hwrite)
        have hrun := hrun.step (.releases (SharedStore.put_phase _ i _))
        refine ⟨[.wrote w.store.marks.set true], ?_, by simp⟩
        have hsave : w.store.save w.nonces.next.1 w.media =
            (.ok true, { w.store with marks.write := w.store.marks.set }, { w.media with memory }) :=
          Store.save_of_written hclosed dirty henc (by simp [Media.write, hl, hwrite])
        simpa [Workspace.shared, Workspace.perform, Workspace.save, hsave, SharedStore.put,
          Phase.afterSave] using hrun
  · have clean : w.store.marks.set ≤ w.store.marks.write := by grind
    have hbegin := Run.begin (s := w.shared) (i := i) rfl .save
    simp only [Phase.begin, Workspace.shared, hclosed] at hbegin
    have hrun := (hbegin.look (q := .saving (.loaded w.store.marks.set)) rfl).step
      (.claims (SharedStore.put_phase _ i _))
    have hclaim : w.store.marks.claimAt w.store.marks.set = (none, w.store.marks) :=
      DirtyMarks.claim_of_le clean
    simp only [SharedStore.put_store, hclaim] at hrun
    refine ⟨[], ?_, by simp⟩
    simpa [Workspace.shared, Workspace.perform, Workspace.save, Store.save_of_clean hclosed clean,
      SharedStore.put, Phase.afterClaim] using hrun

/-! ### Operations one after another -/

/-- **A thread that no other one comes between does what the operation does.** -/
theorem perform_alone (w : Workspace) (hl : w.store.location = .memory) (i : ℕ)
    (c : StoreCommand) :
    ∃ es, Run w.shared es ((w.perform c).2.shared.put i (.done (w.perform c).1)) ∧
      es.length ≤ 1 := by
  cases c with
  | get t key default => exact get_alone rfl t key default
  | put t key v => exact checking_alone (.begin rfl (.put t key v))
  | putValue key value => exact checking_alone (.begin rfl (.putValue key value))
  | remove key => exact remove_alone w key
  | clear =>
    have hbegin := Run.begin (s := w.shared) (i := i) rfl .clear
    cases hclosed : w.store.closed with
    | true =>
      refine ⟨[], ?_, by simp⟩
      simpa [Phase.begin, Workspace.perform, Workspace.settled, Store.clear, hclosed, Except.map,
        Workspace.shared] using hbegin
    | false =>
      have hrun : Run w.shared [] (w.shared.put i .clearing) := by
        simpa [Phase.begin, Workspace.shared, hclosed] using hbegin
      refine ⟨[.counted], ?_, by simp⟩
      simpa [Workspace.perform, Workspace.settled, Store.clear, hclosed, Except.map,
        Workspace.shared, Store.clearSection, Effect.ofChange] using hrun.change rfl
  | save => exact save_alone w hl
  | close => exact ⟨[], .begin rfl .close, by simp⟩
  | setAutoPopulate on => exact ⟨[], .begin rfl (.setAutoPopulate on), by simp⟩
  | setEnumCache on => exact ⟨[], .begin rfl (.setEnumCache on), by simp⟩

theorem trans {start s s' : SharedStore} {es fs : List Effect} (h : Run start es s)
    (h' : Run s fs s') : Run start (fs ++ es) s' := by
  induction h' with
  | start => exact h
  | step run step ih =>
    rw [List.append_assoc]
    exact .step ih step

/-- **Operations that a thread carries out one after another, alone.** -/
theorem run_alone (i : ℕ) : ∀ (w : Workspace) (cs : List StoreCommand),
    w.store.location = .memory →
    ∃ es, Run w.shared es (w.run cs).2.shared ∧ es.length ≤ cs.length
  | w, [], _ => ⟨[], .start, by simp⟩
  | w, c :: cs, hl => by
    obtain ⟨es, hrun, hes⟩ := perform_alone w hl i c
    obtain ⟨fs, hrest, hfs⟩ := run_alone i (w.perform c).2 cs
      ((w.perform_sameHome c).location.trans hl)
    -- the thread gives its answer and is idle again
    have hrun := hrun.step (.looks (i := i) (p := .idle) (by simp [Phase.look]))
    rw [SharedStore.put_put] at hrun
    have hidle : (w.perform c).2.shared.put i .idle = (w.perform c).2.shared := by
      simp [SharedStore.put, Workspace.shared]
    rw [hidle] at hrun
    refine ⟨_, hrun.trans hrest, ?_⟩
    simp only [List.length_append, List.length_cons, List.nil_append]
    omega

end Run

end TypedConfig
