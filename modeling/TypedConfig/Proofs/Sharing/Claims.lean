/-
# Claims on shared marks

Any number of threads count changes, claim them for saves and publish marks that were read, all on
one pair of marks, and nobody takes anything back. A claim takes two steps, the load of the set mark
and the raise of the write mark. What others do in between may leave it far behind.

Whoever raises the write mark runs over the changes between the mark before and the mark after.
What carries the proof is `MarkInvariant.spread`: every change up to the write mark was run over
exactly once, by a claim or by a publish, and no other change was run over at all. A claim that
comes too late has nothing to run over, and it is granted nothing.

Key definitions: `MarkSpan`, `SharedMarks`, `SharedMarks.Step`, `SharedMarks.Run`, `MarkInvariant`.
Key theorems: `MarkInvariant.step`, `SharedMarks.Run.claims_partition`.
-/
import Mathlib
import TypedConfig.Proofs.Store.Saving

namespace TypedConfig

/-- A raise of the write mark, from one mark to another. -/
structure MarkSpan where
  previous : UInt64
  current : UInt64
deriving DecidableEq

/-- The changes that a raise runs over, by their numbers. It runs over none if it came too late. -/
def MarkSpan.numbers (span : MarkSpan) : Finset ℕ :=
  Finset.Ioc span.previous.toNat span.current.toNat

/-- How many of some raises run over a change. -/
def MarkSpan.tally (n : ℕ) (spans : List MarkSpan) : ℕ := spans.countP (n ∈ ·.numbers)

/-! ### Threads on a pair of marks -/

/-- What is worth noting of a step on the marks. -/
inductive MarkEffect where
  /-- A change was counted. -/
  | counted
  /-- A claim of a thread was granted what it ran over. -/
  | granted (saver : ℕ) (span : MarkSpan)
  /-- A mark was published. -/
  | published (span : MarkSpan)

namespace MarkEffect

def isCounted : MarkEffect → Bool
  | .counted => true
  | _ => false

def grant? : MarkEffect → Option MarkSpan
  | .granted _ span => some span
  | _ => none

def publication? : MarkEffect → Option MarkSpan
  | .published span => some span
  | _ => none

/-- How many changes were counted. -/
def changes (es : List MarkEffect) : ℕ := es.countP isCounted

/-- What the claims were granted, the last one first. -/
def grants (es : List MarkEffect) : List MarkSpan := es.filterMap grant?

/-- The raises to published marks, the last one first. -/
def publications (es : List MarkEffect) : List MarkSpan := es.filterMap publication?

/-- The effect of a claim that had loaded `current`. -/
def ofClaim (saver : ℕ) (current : UInt64) : Option UInt64 → List MarkEffect
  | some previous => [.granted saver ⟨previous, current⟩]
  | none => []

end MarkEffect

/-- A pair of marks, and what the threads know of them. Without more it is a new pair, and no
thread has looked at it. -/
structure SharedMarks where
  marks : DirtyMarks := {}
  /-- The set mark that a thread has loaded, if it is in the middle of a claim. -/
  loaded? : ℕ → Option UInt64 := fun _ => none
  /-- The set marks that were read so far. -/
  seen : List UInt64 := []

namespace SharedMarks

/-- One atomic step of a thread, with its effects. -/
inductive Step : SharedMarks → List MarkEffect → SharedMarks → Prop
  | counts {s : SharedMarks} : Step s [.counted] { s with marks := s.marks.markDirty }
  | reads {s : SharedMarks} : Step s [] { s with seen := s.marks.set :: s.seen }
  /-- A claim begins. -/
  | loads {s : SharedMarks} {i : ℕ} (h : s.loaded? i = none) :
    Step s [] { s with loaded? := Function.update s.loaded? i (some s.marks.set) }
  /-- A claim ends: the write mark is raised to the set mark that was loaded. With no step of
  others in between it is `DirtyMarks.claim`. -/
  | claims {s : SharedMarks} {i : ℕ} {current : UInt64} (h : s.loaded? i = some current) :
    Step s (MarkEffect.ofClaim i current (s.marks.claimAt current).1)
      { s with
        marks := (s.marks.claimAt current).2
        loaded? := Function.update s.loaded? i none }
  | publishes {s : SharedMarks} {mark : UInt64} (h : mark ∈ s.seen) :
    Step s [.published ⟨s.marks.write, mark⟩] { s with marks := s.marks.publish mark }

/-- Steps of any threads in any order, with their effects, the last one first. -/
inductive Run (start : SharedMarks) : List MarkEffect → SharedMarks → Prop
  | start : Run start [] start
  | step {es fs : List MarkEffect} {s s' : SharedMarks} (run : Run start es s)
    (step : Step s fs s') : Run start (fs ++ es) s'

end SharedMarks

/-! ### What every step keeps -/

/-- What holds of a pair of marks after the effects `es`. -/
structure MarkInvariant (es : List MarkEffect) (s : SharedMarks) : Prop where
  counted : s.marks.set.toNat = MarkEffect.changes es
  write_le_set : s.marks.write ≤ s.marks.set
  loaded_le : ∀ i current, s.loaded? i = some current → current ≤ s.marks.set
  seen_le : ∀ mark ∈ s.seen, mark ≤ s.marks.set
  /-- Every change up to the write mark was run over once, and no other change was. -/
  spread : ∀ n, MarkSpan.tally n (MarkEffect.grants es)
      + MarkSpan.tally n (MarkEffect.publications es)
    = if 0 < n ∧ n ≤ s.marks.write.toNat then 1 else 0

/-- A raise runs over the changes that it adds to those up to the write mark. -/
theorem DirtyMarks.spread_raise (m : DirtyMarks) (mark : UInt64) (n : ℕ) :
    (if n ∈ (MarkSpan.mk m.write mark).numbers then 1 else 0)
        + (if 0 < n ∧ n ≤ m.write.toNat then 1 else 0)
      = if 0 < n ∧ n ≤ (m.raise mark).write.toNat then 1 else 0 := by
  rw [raise_write]
  simp only [MarkSpan.numbers, Finset.mem_Ioc, UInt64.le_iff_toNat_le]
  split_ifs <;> omega

namespace MarkInvariant

open MarkEffect

variable {es fs : List MarkEffect} {s s' : SharedMarks}

theorem new : MarkInvariant [] {} := by
  refine ⟨rfl, by decide, fun i current h => ?_, fun mark h => ?_, fun n => ?_⟩
  · cases h
  · cases h
  · rw [if_neg]
    · rfl
    · rintro ⟨hpos, hle⟩
      exact absurd hle (Nat.not_le.mpr hpos)

/-- Whoever raises the write mark to a set mark of before keeps the invariant, if what the raise
runs over is noted. -/
theorem raise (inv : MarkInvariant es s) {mark : UInt64} (hmark : mark ≤ s.marks.set)
    {loaded? : ℕ → Option UInt64}
    (hloaded : ∀ i current, loaded? i = some current → s.loaded? i = some current)
    (quiet : changes fs = 0)
    (noted : ∀ n, MarkSpan.tally n (grants fs) + MarkSpan.tally n (publications fs)
      = if n ∈ (MarkSpan.mk s.marks.write mark).numbers then 1 else 0) :
    MarkInvariant (fs ++ es) { s with marks := s.marks.raise mark, loaded? } := by
  refine ⟨?counted, ?le, fun i current h => inv.loaded_le i current (hloaded i current h),
    inv.seen_le, fun n => ?spread⟩
  case counted =>
    have hcount : changes (fs ++ es) = changes fs + changes es := List.countP_append
    rw [hcount, quiet, zero_add]
    exact inv.counted
  case le =>
    have hraise := s.marks.raise_write mark
    have hle := inv.write_le_set
    show (s.marks.raise mark).write ≤ s.marks.set
    grind
  case spread =>
    have hgrants : MarkSpan.tally n (grants (fs ++ es))
        = MarkSpan.tally n (grants fs) + MarkSpan.tally n (grants es) := by
      simp [MarkSpan.tally, grants]
    have hpublications : MarkSpan.tally n (publications (fs ++ es))
        = MarkSpan.tally n (publications fs) + MarkSpan.tally n (publications es) := by
      simp [MarkSpan.tally, publications]
    have hraise := s.marks.spread_raise mark n
    have hnoted := noted n
    have hspread := inv.spread n
    rw [hgrants, hpublications]
    show _ = if 0 < n ∧ n ≤ (s.marks.raise mark).write.toNat then 1 else 0
    omega

/-- A claim notes what it runs over: a claim that was refused runs over nothing. -/
theorem noted_ofClaim (m : DirtyMarks) (i : ℕ) (current : UInt64) (n : ℕ) :
    MarkSpan.tally n (grants (ofClaim i current (m.claimAt current).1))
        + MarkSpan.tally n (publications (ofClaim i current (m.claimAt current).1))
      = if n ∈ (MarkSpan.mk m.write current).numbers then 1 else 0 := by
  unfold DirtyMarks.claimAt
  by_cases behind : m.write < current
  · rw [if_pos behind]
    simp [ofClaim, grants, publications, grant?, publication?, MarkSpan.tally, List.countP_cons]
  · -- the write mark has passed what was loaded
    have hnone : n ∉ (MarkSpan.mk m.write current).numbers := by
      rw [UInt64.lt_iff_toNat_lt] at behind
      simp only [MarkSpan.numbers, Finset.mem_Ioc]
      omega
    rw [if_neg behind, if_neg hnone]
    rfl

/-- **One step keeps the invariant**, as long as there are marks left. -/
theorem step (inv : MarkInvariant es s) (step : SharedMarks.Step s fs s')
    (few : changes (fs ++ es) < 2 ^ 64) : MarkInvariant (fs ++ es) s' := by
  cases step with
  | counts =>
    have hchanges : changes (.counted :: es) = changes es + 1 := List.countP_cons_of_pos rfl
    have hfew : s.marks.set.toNat + 1 < 2 ^ 64 := by
      rw [inv.counted, ← hchanges]
      exact few
    obtain ⟨hlt, hset⟩ := DirtyMarks.lt_markDirty_set hfew
    have hle : ∀ mark, mark ≤ s.marks.set → mark ≤ s.marks.markDirty.set := by grind
    refine ⟨?_, hle _ inv.write_le_set, fun i current h => hle _ (inv.loaded_le i current h),
      fun mark h => hle _ (inv.seen_le mark h), inv.spread⟩
    show s.marks.markDirty.set.toNat = changes (.counted :: es)
    rw [hset, hchanges, inv.counted]
  | reads =>
    refine ⟨inv.counted, inv.write_le_set, inv.loaded_le, fun mark h => ?_, inv.spread⟩
    rcases List.mem_cons.mp h with rfl | h
    · exact UInt64.le_refl _
    · exact inv.seen_le mark h
  | @loads i h =>
    refine ⟨inv.counted, inv.write_le_set, fun j current hj => ?_, inv.seen_le, inv.spread⟩
    have hj : Function.update s.loaded? i (some s.marks.set) j = some current := hj
    by_cases hji : j = i
    · subst hji
      rw [Function.update_self, Option.some.injEq] at hj
      exact hj ▸ UInt64.le_refl _
    · rw [Function.update_of_ne hji] at hj
      exact inv.loaded_le j current hj
  | @claims i current h =>
    refine inv.raise (inv.loaded_le i current h) (fun j current' hj => ?_) ?_
      (noted_ofClaim s.marks i current)
    · by_cases hji : j = i
      · subst hji
        rw [Function.update_self] at hj
        cases hj
      · rwa [Function.update_of_ne hji] at hj
    · cases (s.marks.claimAt current).1 <;> rfl
  | @publishes mark h =>
    refine inv.raise (inv.seen_le mark h) (fun _ _ => id) rfl fun n => ?_
    simp [grants, publications, grant?, publication?, MarkSpan.tally, List.countP_cons]

end MarkInvariant

/-! ### Every run -/

namespace SharedMarks

open MarkEffect

theorem Run.markInvariant {s : SharedMarks} {es : List MarkEffect} (run : Run {} es s) :
    changes es < 2 ^ 64 → MarkInvariant es s := by
  induction run with
  | start => exact fun _ => .new
  | @step es fs s s' run step ih =>
    intro few
    have hle : changes es ≤ changes (fs ++ es) := by
      simp [changes, List.countP_append]
    exact (ih (by omega)).step step few

/-- No step lowers the write mark. -/
theorem Step.write_le {s s' : SharedMarks} {es : List MarkEffect} (step : Step s es s') :
    s.marks.write ≤ s'.marks.write := by
  have hraise : ∀ mark, s.marks.write ≤ (s.marks.raise mark).write := by
    intro mark
    have := s.marks.raise_write mark
    grind
  cases step with
  | counts => exact UInt64.le_refl _
  | reads => exact UInt64.le_refl _
  | loads h => exact UInt64.le_refl _
  | claims h => exact hraise _
  | publishes h => exact hraise _

theorem Run.write_le {s s' : SharedMarks} {es : List MarkEffect} (run : Run s es s') :
    s.marks.write ≤ s'.marks.write := by
  induction run with
  | start => exact UInt64.le_refl _
  | step run step ih => exact UInt64.le_trans ih step.write_le

/-- Raises of which no two run over one change run over separate changes. -/
theorem disjoint_of_tally_le {spans : List MarkSpan} (h : ∀ n, MarkSpan.tally n spans ≤ 1) :
    spans.Pairwise fun a b => Disjoint a.numbers b.numbers := by
  induction spans with
  | nil => exact List.Pairwise.nil
  | cons a spans ih =>
    have hcons : ∀ n, MarkSpan.tally n (a :: spans)
        = MarkSpan.tally n spans + if n ∈ a.numbers then 1 else 0 := by
      intro n
      simp [MarkSpan.tally, List.countP_cons]
    refine List.pairwise_cons.mpr ⟨fun b hb => Finset.disjoint_left.mpr fun n ha hn => ?_,
      ih fun n => by have := h n; have := hcons n; omega⟩
    -- a change in both of them would be run over twice
    have hpos : 0 < MarkSpan.tally n spans :=
      List.countP_pos_iff.mpr ⟨b, hb, decide_eq_true hn⟩
    have hle := h n
    rw [hcons, if_pos ha] at hle
    omega

/-- **Claims share out the changes.** After any steps of any threads on a new pair of marks, with
fewer changes than there are marks: no change was granted to two claims; the write mark does not
pass the set mark, and never falls; and if no mark was published, every change up to the write
mark was granted to one claim, and no other change was granted. -/
theorem Run.claims_partition {s : SharedMarks} {es : List MarkEffect} (run : Run {} es s)
    (few : changes es < 2 ^ 64) :
    (grants es).Pairwise (fun a b => Disjoint a.numbers b.numbers) ∧
      s.marks.write ≤ s.marks.set ∧
      (∀ fs s', Run s fs s' → s.marks.write ≤ s'.marks.write) ∧
      (publications es = [] →
        (∀ n, (∃ span ∈ grants es, n ∈ span.numbers) ↔ n ∈ Finset.Ioc 0 s.marks.write.toNat) ∧
        ∀ n ∈ Finset.Ioc 0 s.marks.write.toNat, MarkSpan.tally n (grants es) = 1) := by
  have inv := run.markInvariant few
  refine ⟨disjoint_of_tally_le fun n => ?_, inv.write_le_set, fun fs s' later => later.write_le,
    fun unpublished => ?_⟩
  · have hspread := inv.spread n
    split_ifs at hspread <;> omega
  · have htally : ∀ n, MarkSpan.tally n (grants es)
        = if n ∈ Finset.Ioc 0 s.marks.write.toNat then 1 else 0 := by
      intro n
      have hspread := inv.spread n
      rw [unpublished] at hspread
      simp only [Finset.mem_Ioc]
      exact hspread
    refine ⟨fun n => ?_, fun n hn => by rw [htally, if_pos hn]⟩
    have hpos : 0 < MarkSpan.tally n (grants es) ↔ ∃ span ∈ grants es, n ∈ span.numbers := by
      simp [MarkSpan.tally, List.countP_pos_iff]
    rw [← hpos, htally]
    split_ifs with hn <;> simp [hn]

/-- Two threads race for two changes: the one that loads first comes too late with its claim, and
is granted nothing. A third change is granted to a claim of its own. -/
theorem Run.claims_partition_race :
    ∃ es s, Run {} es s ∧ changes es < 2 ^ 64 ∧ publications es = [] ∧
      grants es = [⟨2, 3⟩, ⟨0, 2⟩] ∧
      (grants es).Pairwise (fun a b => Disjoint a.numbers b.numbers) ∧
      (∀ n, (∃ span ∈ grants es, n ∈ span.numbers) ↔ n ∈ Finset.Ioc 0 3) := by
  have h := (.start : Run {} [] _).step .counts
  have h := (h.step (.loads (i := 0) rfl)).step .counts
  have h := (h.step (.loads (i := 1) rfl)).step (.claims (i := 1) rfl)
  have h := (h.step (.claims (i := 0) rfl)).step .counts
  have h := (h.step (.loads (i := 0) rfl)).step (.claims (i := 0) rfl)
  refine ⟨_, _, h, ?few, rfl, rfl, (Run.claims_partition h ?few).1,
    ((Run.claims_partition h ?few).2.2.2 rfl).1⟩
  case few =>
    show 3 < 2 ^ 64
    decide

end SharedMarks

end TypedConfig
