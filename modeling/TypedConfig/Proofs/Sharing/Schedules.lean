/-
# Schedules of threads that count

The threads of `Counters` leave the same, whatever the order of their steps: the shared key, the
last number of each thread, and one change counted for the key and one for every number. A last
save then finds equal marks or makes them equal, and the medium reads as the entries
(`Counters.Steady.settled`). Running the threads one after another is one more way to get there
(`Counters.Steady.inOrder`), so it leaves the same store and the same document.

Key definitions: `Counters.Steady`, `Counters.inOrder`, `Counters.Settled`.
Key theorems: `Counters.Steady.settled`, `Counters.Steady.inOrder`,
`Counters.schedule_independent`.
-/
import Mathlib
import TypedConfig.Proofs.Sharing.Counters
import TypedConfig.Proofs.Store.Tally

namespace TypedConfig

/-! ### Runs in parts -/

namespace Workspace

/-- Whether operations one after another are all carried out. -/
def Accepts (w : Workspace) (cs : List StoreCommand) : Prop := ∀ e, .refused e ∉ (w.run cs).1

theorem accepts_nil (w : Workspace) : w.Accepts [] := fun _ => List.not_mem_nil

theorem accepts_cons (w : Workspace) (c : StoreCommand) (cs : List StoreCommand) :
    w.Accepts (c :: cs) ↔ (∀ e, (w.perform c).1 ≠ .refused e) ∧ (w.perform c).2.Accepts cs := by
  simp only [Accepts, run, List.mem_cons, not_or, forall_and, eq_comm, ne_eq]

theorem accepts_append (w : Workspace) (as bs : List StoreCommand) :
    w.Accepts (as ++ bs) ↔ w.Accepts as ∧ (w.run as).2.Accepts bs := by
  simp only [Accepts, run_append, List.mem_append, not_or, forall_and]

end Workspace

namespace Counters

/-! ### Between two operations -/

theorem total_full (n rounds : ℕ) : total n true (full n rounds) = 1 + n * rounds := by
  have hall : ∀ t ∈ Finset.range n, full n rounds t = rounds := fun t ht =>
    if_pos (Finset.mem_range.mp ht)
  rw [total, Finset.sum_congr rfl hall]
  simp

/-- A workspace that threads may be left in, with the shared key stored. -/
structure Steady (start : Store) (n : ℕ) (counts : ℕ → ℕ) (w : Workspace) : Prop where
  tally : Tally start n true counts w.store
  works : w.media.memory.failWrites = false
  /-- Equal marks tell that the medium is right, as long as there are marks. -/
  kept : total n true counts < 2 ^ 64 → w.Kept (total n true counts)

/-- **What threads leave that are done is steady.** -/
theorem Progress.steady {n rounds : ℕ} {w : Workspace} {es : List Effect} {s : Threads}
    (fresh : IsFresh w) (h : Progress w.store n rounds true (full n rounds) es s)
    (run : Threads.Run ⟨w.shared, programs n rounds⟩ es s) (finished : s.Finished)
    (files : FileSystem) (nonces : NonceSupply) :
    Steady w.store n (full n rounds) (s.shared.workspace files nonces) := by
  refine ⟨h.tally, h.works, fun few => ?_⟩
  rw [← h.counted] at few ⊢
  have hchanged : 0 < Effect.changes es := by
    rw [h.counted, total_full]
    omega
  exact (run.shared.saveInvariant fresh.shared few).kept finished.noSave
    (h.tally.location_eq.trans fresh.location) hchanged h.tally.tallied.allFinite files nonces

namespace Steady

variable {start : Store} {n rounds t : ℕ} {counts : ℕ → ℕ} {w : Workspace}

/-- The operation changes nothing: the shared key is stored. -/
theorem get (h : Steady start n counts w) (ho : IsOpen start) :
    w.perform (.get .integer sharedKey (7 : Int32)) = (.typed .integer (7 : Int32), w) := by
  have hshared : w.store.get? sharedKey = some (number 7) := h.tally.tallied.shared
  have hread : SettingType.integer.fromValue (number 7) = .ok (7 : Int32) := rfl
  have hsame : w.store.cacheResolved sharedKey (number 7)
      (SettingType.integer.toCachedValue (7 : Int32)) = w.store := cacheResolved_number _ _ 7
  have hget : w.store.get .integer sharedKey (7 : Int32) = ((7 : Int32), w.store) := by
    unfold Store.get
    simp only [if_neg (h.tally.isOpen ho).readable, hshared, hread, hsame, ite_self]
  simp only [Workspace.perform, hget]

/-- A thread puts its next number. -/
theorem put (h : Steady start n counts w) (ho : IsOpen start) (ht : t < n) :
    (w.perform (.put .long (ownKey t) (Int64.ofNat (counts t)))).1 = .changed true ∧
      Steady start n (Function.update counts t (counts t + 1))
        (w.perform (.put .long (ownKey t) (Int64.ofNat (counts t)))).2 := by
  have hset := h.tally.tallied.setEntry_own t
  have hput : w.store.put .long (ownKey t) (Int64.ofNat (counts t)) =
      .ok (w.store.setEntry (ownKey t) (number (counts t))) := by
    rw [Store.put, memoryForm_long, Store.putValue, (h.tally.isOpen ho).checkWritable]
    rfl
  have hsection := w.store.setEntry_counts (ownKey t) (number (counts t))
  simp only [Workspace.perform, hput, Workspace.settled]
  have hfinite : (w.store.setEntry (ownKey t) (number (counts t))).2.entries.AllFinite := by
    rw [hset]
    exact (h.tally.tallied.put t).allFinite
  have htally : Tally start n true (Function.update counts t (counts t + 1))
      (w.store.setEntry (ownKey t) (number (counts t))).2 := by
    rw [hset]
    exact h.tally.change (h.tally.tallied.put t) (total_put ht true counts)
  refine ⟨by rw [hset], htally, h.works, fun few => ?_⟩
  rw [total_put ht] at few ⊢
  exact (h.kept (by omega)).change few hsection (w.store.setEntry_sameHome _ _) hfinite

/-- A save is carried out, and leaves the entries and the set mark alone. -/
theorem save (h : Steady start n counts w) (ho : IsOpen start) (home : start.location = .memory)
    (room : start.encoding.HasRoom w.store.entries) :
    (∃ wrote, (w.perform .save).1 = .saved wrote) ∧ Steady start n counts (w.perform .save).2 := by
  have hkept := fun few => (h.kept few).save
  have hclosed := (h.tally.isOpen ho).closed
  have hlocation := h.tally.location_eq.trans home
  obtain ⟨bytes, hbytes⟩ := (Encoding.exists_encode_iff start.encoding w.nonces.next.1 _).mpr room
  have hencoded : w.store.encoded w.nonces.next.1 = .ok bytes := by
    rw [Store.encoded, h.tally.encoding_eq, hbytes]
  have hwritten : w.media.write w.store.location bytes = (.ok (), { w.media with
      memory.contents? := some bytes, memory.writes := w.media.memory.writes + 1 }) := by
    rw [hlocation]
    simp [Media.write, MemoryMedium.write, h.works]
  by_cases dirty : w.store.marks.write < w.store.marks.set
  · have hperform : w.perform .save = (.saved true, {
        store := { w.store with marks.write := w.store.marks.set }
        media := { w.media with
          memory.contents? := some bytes, memory.writes := w.media.memory.writes + 1 }
        nonces := w.nonces.next.2 }) := by
      simp only [Workspace.perform, Workspace.save,
        Store.save_of_written hclosed dirty hencoded hwritten]
    rw [hperform] at hkept ⊢
    exact ⟨⟨true, rfl⟩, h.tally.write rfl, h.works, hkept⟩
  · have clean : w.store.marks.set ≤ w.store.marks.write := by grind
    have hperform : w.perform .save = (.saved false, { w with nonces := w.nonces.next.2 }) := by
      simp only [Workspace.perform, Workspace.save, Store.save_of_clean hclosed clean]
    rw [hperform] at hkept ⊢
    exact ⟨⟨false, rfl⟩, h.tally, h.works, hkept⟩

end Steady

/-! ### One after another -/

/-- The operations of the first `n` threads, one thread after another. -/
def inOrder (n rounds : ℕ) : List StoreCommand := (List.range n).flatMap (program rounds)

theorem inOrder_succ (n rounds : ℕ) :
    inOrder (n + 1) rounds = inOrder n rounds ++ program rounds n := by
  simp [inOrder, List.range_succ]

/-- The first read stores the shared key. -/
theorem IsFresh.get {w : Workspace} (fresh : IsFresh w) (n : ℕ) :
    (w.perform (.get .integer sharedKey (7 : Int32))).1 = .typed .integer (7 : Int32) ∧
      Steady w.store n (fun _ => 0) (w.perform (.get .integer sharedKey (7 : Int32))).2 := by
  have hshared : w.store.get? sharedKey = none := by rw [Store.get?, fresh.entries]; rfl
  have hstill : w.store.isStill sharedKey none = true := by
    unfold Store.isStill
    rw [hshared]
  have hset : w.store.setEntry sharedKey (number 7) = (true, { w.store with
      entries := w.store.entries.insert sharedKey (number 7)
      marks := w.store.marks.markDirty }) := by
    simp only [Store.setEntry, hshared]
    rfl
  have hget : w.store.get .integer sharedKey (7 : Int32) = ((7 : Int32), { w.store with
      entries := w.store.entries.insert sharedKey (number 7)
      marks := w.store.marks.markDirty }) := by
    unfold Store.get
    simp only [if_neg fresh.isOpen.readable, hshared, fresh.isOpen.autoPopulate, if_true,
      Store.populate, memoryForm_integer, hstill, hset]
    rfl
  simp only [Workspace.perform, hget]
  have htally := fresh.tally n
  have htally := htally.change htally.tallied.populate (total_populate n _)
  refine ⟨trivial, htally, fresh.works,
    fun few => ⟨htally.tallied.allFinite, ?_, ?_, fun heq => ?_⟩⟩
  · show w.store.marks.markDirty.set.toNat ≤ _
    rw [fresh.marks]
    simp [total, DirtyMarks.markDirty]
  · show w.store.marks.markDirty.write ≤ w.store.marks.markDirty.set
    rw [fresh.marks]
    decide
  · have heq : w.store.marks.markDirty.write = w.store.marks.markDirty.set := heq
    rw [fresh.marks] at heq
    exact absurd heq (by decide)

namespace Steady

variable {start : Store} {n rounds t : ℕ} {counts : ℕ → ℕ} {w : Workspace}

/-- A thread puts `m` numbers and saves after each. -/
theorem counting {m : ℕ} (ho : IsOpen start) (home : start.location = .memory)
    (room : RoomFor start.encoding n rounds) (ht : t < n) (few : ∀ u, counts u ≤ full n rounds u)
    (most : counts t + m ≤ rounds) (h : Steady start n counts w) :
    w.Accepts (roundsFrom t (counts t) m) ∧
      Steady start n (Function.update counts t (counts t + m))
        (w.run (roundsFrom t (counts t) m)).2 := by
  induction m generalizing counts w with
  | zero =>
    rw [roundsFrom_zero, Nat.add_zero, Function.update_eq_self]
    exact ⟨w.accepts_nil, h⟩
  | succ m ih =>
    obtain ⟨hreply, hput⟩ := h.put ho ht
    have few' : ∀ u, Function.update counts t (counts t + 1) u ≤ full n rounds u := by
      intro u
      by_cases hu : u = t
      · subst hu
        rw [Function.update_self, full, if_pos ht]
        omega
      · rw [Function.update_of_ne hu]
        exact few u
    obtain ⟨⟨wrote, hsaved⟩, hsave⟩ := hput.save ho home (room _ _ _ hput.tally.tallied few')
    have hrest := ih few' (by rw [Function.update_self]; omega) hsave
    rw [Function.update_self, Function.update_idem] at hrest
    rw [roundsFrom_succ, Workspace.accepts_cons, Workspace.accepts_cons, hreply, hsaved]
    refine ⟨⟨nofun, nofun, hrest.1⟩, ?_⟩
    rw [show counts t + (m + 1) = counts t + 1 + m by omega]
    exact hrest.2

/-- A thread that read the shared key puts all its numbers. -/
theorem program (ho : IsOpen start) (home : start.location = .memory)
    (room : RoomFor start.encoding n rounds) (ht : t < n) (few : ∀ u, counts u ≤ full n rounds u)
    (none : counts t = 0)
    (reply : (w.perform (.get .integer sharedKey (7 : Int32))).1 = .typed .integer (7 : Int32))
    (h : Steady start n counts (w.perform (.get .integer sharedKey (7 : Int32))).2) :
    w.Accepts (program rounds t) ∧
      Steady start n (Function.update counts t rounds) (w.run (program rounds t)).2 := by
  have hrounds := h.counting (m := rounds) ho home room ht few (by omega)
  rw [none, Nat.zero_add] at hrounds
  rw [Counters.program, Workspace.accepts_cons, reply]
  exact ⟨⟨nofun, hrounds.1⟩, hrounds.2⟩

end Steady

theorem full_succ (n rounds : ℕ) :
    full (n + 1) rounds = Function.update (full n rounds) n rounds := by
  funext t
  by_cases ht : t = n
  · subst ht
    rw [Function.update_self, full, if_pos t.lt_succ_self]
  · rw [Function.update_of_ne ht, full, full]
    exact if_congr (by omega) rfl rfl

/-- **The threads one after another.** All their operations are carried out, and leave what the
threads leave that are done so far. -/
theorem IsFresh.inOrder {w : Workspace} {n rounds : ℕ} (fresh : IsFresh w)
    (room : RoomFor w.store.encoding n rounds) {m : ℕ} (pos : 1 ≤ m) : m ≤ n →
    w.Accepts (inOrder m rounds) ∧
      Steady w.store n (full m rounds) (w.run (inOrder m rounds)).2 := by
  induction m, pos using Nat.le_induction with
  | base =>
    intro hle
    obtain ⟨hreply, hget⟩ := fresh.get n
    rw [inOrder_succ, full_succ]
    exact hget.program fresh.isOpen fresh.location room hle (fun u => Nat.zero_le _) rfl hreply
  | succ m pos ih =>
    intro hle
    obtain ⟨haccepts, hsteady⟩ := ih (by omega)
    have hget := hsteady.get fresh.isOpen
    have few : ∀ u, full m rounds u ≤ full n rounds u := by
      intro u
      unfold full
      split
      · rw [if_pos (by omega)]
      · exact Nat.zero_le _
    have hprogram := Steady.program fresh.isOpen fresh.location room (t := m) (by omega) few
      (if_neg (lt_irrefl m)) (by rw [hget]) (by rw [hget]; exact hsteady)
    rw [inOrder_succ, full_succ, Workspace.accepts_append, Workspace.run_append]
    exact ⟨⟨haccepts, hprogram.1⟩, hprogram.2⟩

/-! ### The last save -/

/-- What is left once all threads are done and one more save is through. -/
structure Settled (n rounds : ℕ) (w : Workspace) : Prop where
  set : w.store.marks.set.toNat = 1 + n * rounds
  write : w.store.marks.write.toNat = 1 + n * rounds
  clean : w.store.isDirty = false
  outcome : Outcome n rounds w.store.entries
  stored : ∃ bytes, w.media.memory.contents? = some bytes ∧
    w.store.encoding.decode bytes = .ok w.store.entries

namespace Steady

variable {start : Store} {n rounds : ℕ} {w : Workspace}

theorem outcome_of_save (h : Steady start n (full n rounds) w) :
    Outcome n rounds (w.perform .save).2.store.entries := by
  rw [w.save_keeps.1]
  exact h.tally.tallied

/-- **A last save finds equal marks or makes them equal, and the medium then reads as the
entries.** -/
theorem settled (h : Steady start n (full n rounds) w) (ho : IsOpen start)
    (home : start.location = .memory) (room : RoomFor start.encoding n rounds)
    (few : 1 + n * rounds < 2 ^ 64) : Settled n rounds (w.perform .save).2 := by
  obtain ⟨⟨wrote, hreply⟩, hsave⟩ :=
    h.save ho home (room _ _ _ h.tally.tallied fun _ => le_rfl)
  have heq := (h.kept (by rw [total_full]; exact few)).marks_of_saved
    (Prod.ext hreply rfl)
  have hkept := hsave.kept (by rw [total_full]; exact few)
  have hset : (w.perform .save).2.store.marks.set.toNat = 1 + n * rounds := by
    rw [hsave.tally.marked, total_full, UInt64.toNat_ofNat_of_lt' few]
  have htallied := hsave.tally.tallied
  refine ⟨hset, heq ▸ hset, ?_, htallied, ?_⟩
  · simp [Store.isDirty, DirtyMarks.isClean, heq]
  obtain ⟨d, halike, hholds⟩ := hkept.stored heq
  have hsame : d.persisted = (w.perform .save).2.store.entries := by
    rw [(Document.writtenAlike_iff _ _).mp halike, htallied.persisted_eq]
  rcases hholds with ⟨nonce, bytes, hread, hencode⟩ | ⟨rfl, -⟩
  · rw [hsave.tally.location_eq, home] at hread
    refine ⟨bytes, by simpa [Media.read] using hread, ?_⟩
    rw [Encoding.decode_of_encode (halike.symm.allFinite htallied.allFinite) hencode, if_pos, hsame]
    rw [halike.depth_eq]
    exact htallied.depth_le
  · -- the shared key is stored
    have hshared := htallied.shared
    rw [← hsame] at hshared
    cases hshared

/-- What is left after the last save is one store, however the threads got there. -/
theorem store_eq {w' : Workspace} (h : Steady start n (full n rounds) w)
    (h' : Steady start n (full n rounds) w') (s : Settled n rounds w) (s' : Settled n rounds w') :
    w.store = w'.store := by
  have hentries : w.store.entries = w'.store.entries := h.tally.tallied.unique h'.tally.tallied
  have hmarks : w.store.marks = w'.store.marks := by
    have hset : w.store.marks.set = w'.store.marks.set :=
      UInt64.toNat_inj.mp (s.set.trans s'.set.symm)
    have hwrite : w.store.marks.write = w'.store.marks.write :=
      UInt64.toNat_inj.mp (s.write.trans s'.write.symm)
    calc w.store.marks = ⟨w.store.marks.set, w.store.marks.write⟩ := rfl
      _ = ⟨w'.store.marks.set, w'.store.marks.write⟩ := by rw [hset, hwrite]
  rw [h.tally.frame, h'.tally.frame, hentries, hmarks]

end Steady

/-! ### Every schedule -/

/-- **From every state that the threads reach, they can finish.** -/
theorem can_finish {n rounds : ℕ} {w : Workspace} (fresh : IsFresh w)
    (room : RoomFor w.store.encoding n rounds) (few : 1 + n * rounds < 2 ^ 64) {es : List Effect}
    {s : Threads} (run : Threads.Run ⟨w.shared, programs n rounds⟩ es s) :
    ∃ fs s', Threads.Run s fs s' ∧ s'.Finished := by
  -- after every step less is left
  induction hleft : s.left n using Nat.strong_induction_on generalizing es s with
  | _ left ih =>
  by_cases finished : s.Finished
  · exact ⟨[], s, .start, finished⟩
  obtain ⟨populated, counts, progress⟩ := Progress.of_run fresh room run
  have hfew : Effect.changes es < 2 ^ 64 := by
    have hle := progress.changes_le
    rw [total_full] at hle
    omega
  have inv := run.shared.saveInvariant fresh.shared hfew
  obtain ⟨es', s', hstep, hless⟩ :=
    Threads.exists_step inv.lock (fun _ => progress.absent) finished
  obtain ⟨fs, s'', hrest, hfinished⟩ := ih _ (hleft ▸ hless) (run.step hstep) rfl
  exact ⟨_, s'', (Threads.Run.start.step hstep).trans hrest, hfinished⟩

/-- **What the threads leave does not depend on the order of their steps.** In no state that they
reach is a call refused. When they are done, one more save is carried out: the entries are then
the shared key and the last number of each thread, and the set mark counted the key once and
every number once. As long as there are that many marks, both marks are equal and the medium reads
as the entries; and running the threads one after another, with a last save, is not refused
either and leaves the same store and a medium that reads the same. -/
theorem schedule_independent {n rounds : ℕ} (pos : 1 ≤ n) {w : Workspace} (fresh : IsFresh w)
    (room : RoomFor w.store.encoding n rounds) {es : List Effect} {s : Threads}
    (run : Threads.Run ⟨w.shared, programs n rounds⟩ es s) :
    (∀ i e, s.shared.phase i ≠ .done (.refused e)) ∧
    (s.Finished → ∀ files nonces,
      let last := (s.shared.workspace files nonces).perform .save
      let serial := w.run (inOrder n rounds ++ [.save])
      (∃ wrote, last.1 = .saved wrote) ∧ (∀ e, .refused e ∉ serial.1) ∧
      Outcome n rounds last.2.store.entries ∧ serial.2.store.entries = last.2.store.entries ∧
      last.2.store.marks.set = UInt64.ofNat (1 + n * rounds) ∧
      serial.2.store.marks.set = last.2.store.marks.set ∧
      (1 + n * rounds < 2 ^ 64 →
        Settled n rounds last.2 ∧ Settled n rounds serial.2 ∧
        serial.2.store = last.2.store)) := by
  obtain ⟨populated, counts, progress⟩ := Progress.of_run fresh room run
  refine ⟨fun i e => (progress.stage i).not_refused e, fun finished files nonces => ?_⟩
  have hlast := (progress.of_finished finished pos).steady fresh run finished files nonces
  obtain ⟨hwrote, hsave⟩ := hlast.save fresh.isOpen fresh.location
    (room _ _ _ hlast.tally.tallied fun _ => le_rfl)
  obtain ⟨haccepts, hserial⟩ := fresh.inOrder room pos le_rfl
  obtain ⟨⟨wrote, hreply⟩, hserialSave⟩ := hserial.save fresh.isOpen fresh.location
    (room _ _ _ hserial.tally.tallied fun _ => le_rfl)
  intro last serial
  have hend : serial.2 = ((w.run (inOrder n rounds)).2.perform .save).2 := by
    simp only [serial, Workspace.run_append]
    rfl
  have hrefused : w.Accepts (inOrder n rounds ++ [.save]) := by
    rw [Workspace.accepts_append, Workspace.accepts_cons, hreply]
    exact ⟨haccepts, nofun, Workspace.accepts_nil _⟩
  rw [hend]
  refine ⟨hwrote, hrefused, hlast.outcome_of_save,
    hserialSave.tally.tallied.unique hsave.tally.tallied, ?_, ?_, fun few => ?_⟩
  · rw [← total_full]
    exact hsave.tally.marked
  · exact hserialSave.tally.marked.trans hsave.tally.marked.symm
  · have h1 := hlast.settled fresh.isOpen fresh.location room few
    have h2 := hserial.settled fresh.isOpen fresh.location room few
    exact ⟨h1, h2, hserialSave.store_eq hsave h2 h1⟩

/-- A store in memory that was just opened, on readable text. -/
def unwritten : Workspace where
  store := { name := "", location := .memory, encoding := .plain }
  media := { memory := {}, files := { root := "/r" } }

/-- Three threads of two rounds each, the first two of which find no entry before either stores
the default. -/
theorem schedule_independent_race : ∃ es s es' s', IsFresh unwritten ∧ RoomFor .plain 3 2 ∧
    Threads.Run ⟨unwritten.shared, programs 3 2⟩ es s ∧
    s.shared.phase 0 = .done (.typed .integer (7 : Int32)) ∧
    s.shared.phase 1 = .populating .integer sharedKey (7 : Int32) none (number 7) ∧
    Threads.Run ⟨unwritten.shared, programs 3 2⟩ es' s' ∧ s'.Finished ∧
    Settled 3 2 ((s'.shared.workspace unwritten.media.files {}).perform .save).2 := by
  have fresh : IsFresh unwritten := ⟨rfl, rfl, ⟨rfl, rfl⟩, rfl, rfl⟩
  have h := (Threads.Run.start : Threads.Run ⟨unwritten.shared, programs 3 2⟩ [] _).step
    (.calls (i := 0) rfl rfl)
  have h := (h.step (.calls (i := 1) rfl rfl)).step (.of_busy (.looks (i := 0) rfl) nofun rfl rfl)
  have h := (h.step (.of_busy (.looks (i := 1) rfl) nofun rfl rfl)).step
    (.of_busy (.looks (i := 0) rfl) nofun rfl rfl)
  have h := (h.step (.of_busy (.looks (i := 1) rfl) nofun rfl rfl)).step
    (.of_busy (.looks (i := 0) rfl) nofun rfl rfl)
  have h := (h.step (.of_busy (.looks (i := 1) rfl) nofun rfl rfl)).step
    (.of_busy (.changes (i := 0) rfl) nofun rfl rfl)
  -- the second thread now finds the default stored, and all of them go on to the end
  obtain ⟨fs, s', hrest, finished⟩ := can_finish fresh (roomFor_plain 3 2) (by decide) h
  exact ⟨_, _, _, s', fresh, roomFor_plain 3 2, h, rfl, rfl, h.trans hrest, finished,
    (((schedule_independent (by decide) fresh (roomFor_plain 3 2) (h.trans hrest)).2 finished
      unwritten.media.files {}).2.2.2.2.2.2 (by decide)).1⟩

end Counters
end TypedConfig
