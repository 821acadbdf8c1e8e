/-
# Threads that carry out programs

Every thread has operations to call, one after another. It calls the next of them when it is done
with the one before, and the atomic steps of the calls come in any order. Any such run is one
of the shared store (`Threads.Run.shared`), so what holds of every run of it holds here.

No order of steps gets stuck: a thread that waits for the lock of the saves waits for one that can
go on, and every step of a call leaves less of it (`Threads.exists_step`). When all threads are
done, the workspace that they leave is one that operations on a store can go on from
(`SaveInvariant.kept`).

Key definitions: `Threads`, `Threads.Step`, `Threads.Run`, `Threads.Finished`, `Phase.left`,
`Threads.left`, `SavePhase.Succeeds`, `SharedStore.workspace`.
Key theorems: `Threads.Run.shared`, `Threads.exists_step`, `SaveInvariant.kept`.
-/
import Mathlib
import TypedConfig.Proofs.Sharing.Saving
import TypedConfig.Proofs.Store.Reopening

namespace TypedConfig

/-! ### Programs -/

/-- A shared store, and what every thread has still to call. -/
structure Threads where
  shared : SharedStore
  todo : ℕ → List StoreCommand

namespace Threads

/-- One atomic step of a thread, with its effects. -/
inductive Step : Threads → List Effect → Threads → Prop
  /-- A thread that is done with a call makes the next one. -/
  | calls {s : Threads} {i : ℕ} {c : StoreCommand} {rest : List StoreCommand}
    (idle : s.shared.phase i = .idle) (next : s.todo i = c :: rest) :
    Step s []
      { shared := { s.shared with store := (Phase.begin s.shared.store c).1 }.put i
          (Phase.begin s.shared.store c).2
        todo := Function.update s.todo i rest }
  /-- A thread goes on with its call. No thread makes one on its own, and the medium works or fails
  as before. -/
  | goesOn {s : Threads} {es : List Effect} {shared : SharedStore}
    (step : TypedConfig.Step s.shared es shared)
    (uncalled : ∀ i, s.shared.phase i = .idle → shared.phase i = .idle)
    (medium : shared.medium.failWrites = s.shared.medium.failWrites) :
    Step s es { s with shared }

/-- Steps in any order, with their effects, the last one first. -/
inductive Run (start : Threads) : List Effect → Threads → Prop
  | start : Run start [] start
  | step {es fs : List Effect} {s s' : Threads} (run : Run start es s) (step : Step s fs s') :
    Run start (fs ++ es) s'

/-- Every thread made its calls and is done with the last one. -/
def Finished (s : Threads) : Prop := ∀ i, s.todo i = [] ∧ s.shared.phase i = .idle

/-- **Threads that carry out programs are threads that call operations.** -/
theorem Run.shared {start s : Threads} {es : List Effect} (h : Run start es s) :
    TypedConfig.Run start.shared es s.shared := by
  induction h with
  | start => exact .start
  | step run step ih =>
    cases step with
    | calls idle next => exact ih.step (.begins _ idle)
    | goesOn step uncalled medium => exact ih.step step

theorem Run.trans {start s s' : Threads} {es fs : List Effect} (h : Run start es s)
    (h' : Run s fs s') : Run start (fs ++ es) s' := by
  induction h' with
  | start => exact h
  | step run step ih =>
    rw [List.append_assoc]
    exact .step ih step

theorem Finished.noSave {s : Threads} (h : s.Finished) : s.shared.NoSave := fun i p hp => by
  rw [(h i).2] at hp
  cases hp

end Threads

/-- A thread that is at a call goes on with it. -/
theorem Threads.Step.of_busy {s : Threads} {es : List Effect} {shared : SharedStore} {i : ℕ}
    {p : Phase} (step : TypedConfig.Step s.shared es (shared.put i p))
    (busy : s.shared.phase i ≠ .idle) (phase : shared.phase = s.shared.phase)
    (medium : shared.medium.failWrites = s.shared.medium.failWrites) :
    Threads.Step s es { s with shared := shared.put i p } := by
  refine .goesOn step (fun j hj => ?_) medium
  have hji : j ≠ i := by
    rintro rfl
    exact busy hj
  rw [shared.put_phase_of_ne hji, phase]
  exact hj

/-- A call leaves a thread with something to do. -/
theorem Phase.begin_ne_idle (s : Store) (c : StoreCommand) : (begin s c).2 ≠ .idle := by
  cases c with
  | get t key default => simp only [begin]; split <;> exact Phase.noConfusion
  | remove key => simp only [begin]; split <;> exact Phase.noConfusion
  | clear => simp only [begin]; split <;> exact Phase.noConfusion
  | save => simp only [begin]; split <;> exact Phase.noConfusion
  | _ => exact Phase.noConfusion

/-! ### How much is left to do -/

/-- How many steps a save takes at most, up to letting go of the lock. -/
@[simp] def SavePhase.left : SavePhase → ℕ
  | .admitted => 8
  | .loaded _ => 7
  | .claimed _ => 6
  | .locked _ => 5
  | .snapped _ _ _ => 4
  | .published _ _ _ => 3
  | .failed _ _ _ => 2
  | .settled _ => 1

namespace Phase

/-- How many steps a thread takes at most, up to its rest. -/
@[simp] def left : Phase → ℕ
  | .idle => 0
  | .done _ => 1
  | .populating _ _ _ _ _ => 2
  | .caching _ _ _ _ => 2
  | .putting _ _ => 2
  | .removing _ => 2
  | .clearing => 2
  | .defaulting _ _ _ _ => 3
  | .resolved _ _ _ _ => 3
  | .checking _ _ => 3
  | .seeking _ => 3
  | .lacking _ _ _ _ => 4
  | .reading _ _ _ => 5
  | .saving p => p.left + 1

theorem left_begin_lt (s : Store) (c : StoreCommand) : (begin s c).2.left < 10 := by
  cases c with
  | get t key default => simp only [begin]; split <;> simp
  | remove key => simp only [begin]; split <;> simp
  | clear => simp only [begin]; split <;> simp
  | save => simp only [begin]; split <;> simp
  | _ => simp [begin]

theorem left_look_lt {s : Store} {p q : Phase} (h : p.look s = some q) : q.left < p.left := by
  cases p with
  | reading t key default =>
    simp only [look] at h
    split at h
    · cases h; simp
    · split at h <;> cases h <;> simp
  | lacking t key default found? =>
    simp only [look, Option.some.injEq] at h
    subst h
    split <;> simp
  | defaulting t key default found? =>
    simp only [look, Option.some.injEq] at h
    subst h
    split <;> simp
  | resolved t key v found =>
    simp only [look, Option.some.injEq] at h
    subst h
    split <;> simp
  | checking key value =>
    simp only [look] at h
    split at h
    · cases h; simp
    · split at h <;> cases h <;> simp
  | seeking key =>
    simp only [look, Option.some.injEq] at h
    subst h
    split <;> simp
  | saving p =>
    cases p with
    | admitted => cases h; simp
    | _ => cases h
  | done reply => cases h; simp
  | _ => cases h

theorem left_change_lt {s s' : Store} {p q : Phase} {counted : Bool}
    (h : p.change s = some (counted, s', q)) : q.left < p.left := by
  cases p with
  | populating t key default found? value => cases h; simp
  | caching t key v found => cases h; simp
  | putting key value => cases h; simp
  | removing key => cases h; simp
  | clearing => cases h; simp
  | _ => cases h

/-- A thread that is at a call, but not in a save, reads or changes the entries. -/
theorem exists_look_or_change (s : Store) {p : Phase} (busy : p ≠ .idle)
    (nosave : ∀ sp, p ≠ .saving sp) :
    (∃ q, p.look s = some q) ∨ ∃ counted s' q, p.change s = some (counted, s', q) := by
  cases p with
  | idle => exact absurd rfl busy
  | saving sp => exact absurd rfl (nosave sp)
  | reading t key default =>
    left
    simp only [look]
    split
    · exact ⟨_, rfl⟩
    · split <;> exact ⟨_, rfl⟩
  | checking key value =>
    left
    simp only [look]
    split
    · exact ⟨_, rfl⟩
    · split <;> exact ⟨_, rfl⟩
  | lacking t key default found? => exact .inl ⟨_, rfl⟩
  | defaulting t key default found? => exact .inl ⟨_, rfl⟩
  | resolved t key v found => exact .inl ⟨_, rfl⟩
  | seeking key => exact .inl ⟨_, rfl⟩
  | done reply => exact .inl ⟨_, rfl⟩
  | populating t key default found? value => exact .inr ⟨_, _, _, rfl⟩
  | caching t key v found => exact .inr ⟨_, _, _, rfl⟩
  | putting key value => exact .inr ⟨_, _, _, rfl⟩
  | removing key => exact .inr ⟨_, _, _, rfl⟩
  | clearing => exact .inr ⟨_, _, _, rfl⟩

end Phase

/-- A step of thread `i` with its call, after which less is left of it. -/
def SharedStore.GoesOn (s : SharedStore) (i : ℕ) : Prop :=
  ∃ (es : List Effect) (shared : SharedStore) (p : Phase), Step s es (shared.put i p) ∧
    shared.phase = s.phase ∧ shared.medium.failWrites = s.medium.failWrites ∧
    p.left < (s.phase i).left

namespace SharedStore

variable {s : SharedStore} {i : ℕ}

/-- A saver goes on, unless it waits for the lock. -/
theorem saver_goesOn {sp : SavePhase} (h : s.phase i = .saving sp)
    (unwaiting : ∀ previous, sp = .claimed previous → s.holder? = none) : s.GoesOn i := by
  unfold GoesOn
  rw [h]
  cases sp with
  | admitted =>
    have hlook : (s.phase i).look s.store = some (.saving (.loaded s.store.marks.set)) := by
      rw [h]
      rfl
    exact ⟨_, s, _, .looks hlook, rfl, rfl, by simp⟩
  | loaded current =>
    refine ⟨_, _, _, .claims h, rfl, rfl, ?_⟩
    cases (s.store.marks.claimAt current).1 <;> simp [Phase.afterClaim]
  | claimed previous =>
    exact ⟨_, _, _, .locks h (unwaiting previous rfl), rfl, rfl, by simp⟩
  | locked previous => exact ⟨_, s, _, .snaps (NonceSupply.nonce 0) h, rfl, rfl, by simp⟩
  | snapped previous snapshot encoded => exact ⟨_, _, _, .publishes h, rfl, rfl, by simp⟩
  | published previous snapshot encoded =>
    cases encoded with
    | error e => exact ⟨_, s, _, .givesUp h, rfl, rfl, by simp⟩
    | ok bytes =>
      cases hwrite : s.medium.write bytes with
      | error e => exact ⟨_, s, _, .misses h hwrite, rfl, rfl, by simp⟩
      | ok medium =>
        refine ⟨_, _, _, .writes h hwrite, rfl, ?_, by simp⟩
        unfold MemoryMedium.write at hwrite
        split at hwrite <;> cases hwrite
        rfl
  | failed previous snapshot reason => exact ⟨_, _, _, .rollsBack h, rfl, rfl, by simp⟩
  | settled result =>
    refine ⟨_, _, _, .releases h, rfl, rfl, ?_⟩
    cases result <;> simp [Phase.afterSave]

/-- **No thread waits forever.** Where some thread is at a call, some thread can go on with one:
a saver that waits for the lock waits for a thread that can. -/
theorem exists_goesOn (lock : ∀ i, s.holder? = some i ↔ (s.phase i).HasLock)
    (busy : s.phase i ≠ .idle) : ∃ j, s.phase j ≠ .idle ∧ s.GoesOn j := by
  by_cases hsave : ∃ sp, s.phase i = .saving sp
  · obtain ⟨sp, hsp⟩ := hsave
    cases hholder : s.holder? with
    | none => exact ⟨i, busy, saver_goesOn hsp fun _ _ => hholder⟩
    | some j =>
      have hj := (lock j).mp hholder
      cases hpj : s.phase j with
      | saving sp =>
        rw [hpj] at hj
        refine ⟨j, by rw [hpj]; exact Phase.noConfusion, saver_goesOn hpj ?_⟩
        rintro previous rfl
        exact hj.elim
      | _ => rw [hpj] at hj; exact hj.elim
  · refine ⟨i, busy, ?_⟩
    rcases Phase.exists_look_or_change s.store busy fun sp hsp => hsave ⟨sp, hsp⟩ with
      ⟨q, hq⟩ | ⟨counted, store, q, hq⟩
    · exact ⟨_, s, q, .looks hq, rfl, rfl, Phase.left_look_lt hq⟩
    · exact ⟨_, _, q, .changes hq, rfl, rfl, Phase.left_change_lt hq⟩

end SharedStore

namespace Threads

/-- How many steps the first `n` threads take at most. -/
def left (n : ℕ) (s : Threads) : ℕ :=
  ∑ i ∈ Finset.range n, (10 * (s.todo i).length + (s.shared.phase i).left)

/-- A step of thread `i` leaves the others what they have left. -/
theorem left_lt {s s' : Threads} {n i : ℕ} (hi : i < n)
    (others : ∀ j, j ≠ i → s'.todo j = s.todo j ∧ s'.shared.phase j = s.shared.phase j)
    (lt : 10 * (s'.todo i).length + (s'.shared.phase i).left <
      10 * (s.todo i).length + (s.shared.phase i).left) : s'.left n < s.left n := by
  refine Finset.sum_lt_sum (fun j _ => ?_) ⟨i, Finset.mem_range.mpr hi, lt⟩
  by_cases hj : j = i
  · subst hj; exact lt.le
  · rw [(others j hj).1, (others j hj).2]

/-- **Threads that are not finished can go on.** After some step less is left. -/
theorem exists_step {s : Threads} {n : ℕ}
    (lock : ∀ i, s.shared.holder? = some i ↔ (s.shared.phase i).HasLock)
    (absent : ∀ i, n ≤ i → s.todo i = [] ∧ s.shared.phase i = .idle) (unfinished : ¬ s.Finished) :
    ∃ es s', Step s es s' ∧ s'.left n < s.left n := by
  have hin : ∀ i, ¬ (s.todo i = [] ∧ s.shared.phase i = .idle) → i < n := fun i hi =>
    not_le.mp fun hle => hi (absent i hle)
  obtain ⟨i, hi⟩ := not_forall.mp unfinished
  by_cases idle : s.shared.phase i = .idle
  · cases next : s.todo i with
    | nil => exact absurd ⟨next, idle⟩ hi
    | cons c rest =>
      refine ⟨_, _, .calls idle next, left_lt (hin i hi) (fun j hj => ?_) ?_⟩
      · exact ⟨Function.update_of_ne hj _ _, SharedStore.put_phase_of_ne _ hj _⟩
      · have hbegin := Phase.left_begin_lt s.shared.store c
        simp only [Function.update_self, SharedStore.put_phase, next, List.length_cons]
        omega
  · obtain ⟨j, hbusy, es, shared, p, hstep, hphase, hmedium, hlt⟩ :=
      SharedStore.exists_goesOn lock idle
    refine ⟨_, _, .of_busy hstep hbusy hphase hmedium,
      left_lt (hin j fun h => hbusy h.2) (fun k hk => ⟨rfl, ?_⟩) ?_⟩
    · show (shared.put j p).phase k = _
      rw [shared.put_phase_of_ne hk, hphase]
    · show 10 * (s.todo j).length + ((shared.put j p).phase j).left < _
      rw [shared.put_phase]
      omega

end Threads

/-! ### Saves that succeed -/

/-- Whether nothing went wrong in a save so far. -/
def SavePhase.Succeeds : SavePhase → Prop
  | .snapped _ _ encoded => ∃ bytes, encoded = .ok bytes
  | .published _ _ encoded => ∃ bytes, encoded = .ok bytes
  | .failed _ _ _ => False
  | .settled result => ∃ wrote, result = .ok wrote
  | _ => True

/-! ### What the threads leave -/

/-- The workspace of a shared store, with any files and nonces. -/
def SharedStore.workspace (s : SharedStore) (files : FileSystem) (nonces : NonceSupply) :
    Workspace where
  store := s.store
  media := { memory := s.medium, files }
  nonces := nonces

/-- **A shared store that is at rest can be gone on from.** With no save under way, and changes
counted, equal marks tell that the medium holds the entries. -/
theorem SaveInvariant.kept {es : List Effect} {s : SharedStore} (inv : SaveInvariant es s)
    (nosave : s.NoSave) (home : s.store.location = .memory) (changed : 0 < Effect.changes es)
    (finite : s.store.entries.AllFinite) (files : FileSystem) (nonces : NonceSupply) :
    (s.workspace files nonces).Kept (Effect.changes es) := by
  refine ⟨finite, inv.counted.le, inv.write_le_set, fun heq => ?_⟩
  have hpos : 0 < s.store.marks.set := by
    rw [UInt64.lt_iff_toNat_lt, inv.counted]
    exact changed
  have hwritten : s.store.marks.set ≤ Effect.lastWritten es := by
    rcases inv.covered heq with hle | ⟨i, hi⟩
    · exact hle
    · cases hp : s.phase i with
      | saving p => exact absurd hp (nosave i p)
      | _ => rw [hp] at hi; exact hi.elim
  have h1 := inv.written_le_attempt
  have h2 := inv.attempt_le_set
  obtain ⟨bytes, hb, d, nonce, henc, hd⟩ := inv.stored (by grind) hpos
  refine ⟨d, hd, .inl ⟨nonce, bytes, ?_, henc⟩⟩
  show Media.read _ s.store.location = _
  rw [home]
  exact congrArg Except.ok hb

end TypedConfig
