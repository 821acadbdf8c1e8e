/-
# What the saves of a shared store keep

Savers claim, take snapshots, publish, fail and take back in any order, while other
threads change the entries. Whatever the order, the write mark never passes the set
mark, snapshots are written in the order of their marks, and no change that is not
written ever looks written: with no save under way and both marks equal and not
zero, the medium holds a document that is written like the entries
(`Run.saves_keep`).

What carries this is `SaveInvariant.covered`: if the marks are equal, then the last
document written has that mark, or some saver still has to take its snapshot, or
one holds a snapshot of just that mark. A saver that takes its claim back does so
either to a mark below the set mark, or not at all, because another one claimed
after its snapshot and has yet to take its own.

Key definitions: `Phase.Sound`, `Phase.Covers`, `SaveInvariant`.
Key theorems: `SaveInvariant.step`, `Run.saves_keep`.
-/
import Mathlib
import TypedConfig.Proofs.Sharing.Machine
import TypedConfig.Proofs.Store.Counting
import TypedConfig.Proofs.Store.Saving

namespace TypedConfig

/-! ### What the effects tell -/

namespace Effect

/-- The marks of the writes that were tried, the last one first. -/
def attempts : List Effect → List UInt64
  | [] => []
  | .counted :: es => attempts es
  | .wrote snapshot _ :: es => snapshot :: attempts es

/-- The mark of the last write that was tried. -/
def lastAttempt (es : List Effect) : UInt64 := (attempts es).headD 0

/-- The mark of the last write that succeeded. -/
def lastWritten : List Effect → UInt64
  | [] => 0
  | .wrote snapshot true :: _ => snapshot
  | _ :: es => lastWritten es

/-- How many changes were counted. -/
def changes (es : List Effect) : ℕ := es.count .counted

end Effect

/-! ### What a thread may rely on -/

/-- What a read found is no value of the type. -/
def SettingType.Unreadable (t : SettingType) (found? : Option Value) : Prop :=
  ∀ found, found? = some found → ∀ v, t.fromValue found ≠ .ok v

/-- A snapshot fits the store: its mark lies above the one before the claim, below no write that
was tried, and its bytes are right unless the set mark has moved on. -/
structure SnapshotFits (store : Store) (last previous snapshot : UInt64)
    (encoded : Except StoreError Bytes) : Prop where
  previous_lt : previous < snapshot
  le_set : snapshot ≤ store.marks.set
  last_le : last ≤ snapshot
  holds : ∀ bytes, encoded = .ok bytes → snapshot = store.marks.set →
    store.encoding.Holds bytes store.entries

/-- What a saver may rely on, where `last` is the mark of the last write that was tried. -/
def SavePhase.Sound (store : Store) (last : UInt64) : SavePhase → Prop
  | .admitted => True
  | .loaded current => current ≤ store.marks.set
  | .claimed previous => previous < store.marks.set
  | .locked previous => previous < store.marks.set
  | .snapped previous snapshot encoded => SnapshotFits store last previous snapshot encoded
  | .published previous snapshot encoded =>
    SnapshotFits store last previous snapshot encoded ∧ snapshot ≤ store.marks.write
  | .failed previous snapshot _ =>
    previous < snapshot ∧ snapshot ≤ store.marks.set ∧ snapshot ≤ store.marks.write
  | .settled _ => True

/-- Whether a saver holds the lock. -/
def SavePhase.HasLock : SavePhase → Prop
  | .admitted => False
  | .loaded _ => False
  | .claimed _ => False
  | _ => True

/-- Whether a saver still has to deal with the changes up to `mark`: it has no snapshot yet, or
one of this mark. -/
def SavePhase.Covers (mark : UInt64) : SavePhase → Prop
  | .claimed _ => True
  | .locked _ => True
  | .snapped _ snapshot _ => snapshot = mark
  | .published _ snapshot _ => snapshot = mark
  | .failed _ snapshot _ => snapshot = mark
  | _ => False

namespace Phase

/-- What a thread may rely on. -/
def Sound (store : Store) (last : UInt64) : Phase → Prop
  | .lacking t _ _ found? => t.Unreadable found?
  | .defaulting t _ _ found? => t.Unreadable found?
  | .populating t _ default found? value =>
    t.Unreadable found? ∧ value.persisted = t.toValue default
  | .saving p => p.Sound store last
  | _ => True

/-- Whether a thread holds the lock. -/
def HasLock : Phase → Prop
  | .saving p => p.HasLock
  | _ => False

/-- Whether a thread is a saver that still has to deal with the changes up to `mark`. -/
def Covers (mark : UInt64) : Phase → Prop
  | .saving p => p.Covers mark
  | _ => False

end Phase

/-! ### Steps of others -/

/-- What other threads leave to a thread: the set mark does not fall, and while it stands the
entries are written as they were. -/
structure Store.Keeps (before after : Store) : Prop where
  encoding : after.encoding = before.encoding
  set_le : before.marks.set ≤ after.marks.set
  alike : after.marks.set = before.marks.set → before.entries.WrittenAlike after.entries

theorem Store.Keeps.refl (s : Store) : s.Keeps s := ⟨rfl, by grind, fun _ => .refl _⟩

theorem SnapshotFits.keep {before after : Store} {last previous snapshot : UInt64}
    {encoded : Except StoreError Bytes} (h : SnapshotFits before last previous snapshot encoded)
    (keeps : before.Keeps after) : SnapshotFits after last previous snapshot encoded := by
  obtain ⟨henc, hset, halike⟩ := keeps
  refine ⟨h.previous_lt, by have := h.le_set; grind, h.last_le, fun bytes hb hs => ?_⟩
  have hle := h.le_set
  have hsame : after.marks.set = before.marks.set := by grind
  rw [henc]
  exact (h.holds bytes hb (by grind)).trans (halike hsame)

/-- A saver keeps what it relies on, if the write mark only rises and no write is tried while it
holds the lock. -/
theorem SavePhase.Sound.keep {before after : Store} {last last' : UInt64} {p : SavePhase}
    (h : p.Sound before last) (keeps : before.Keeps after)
    (locked : p.HasLock → last' = last ∧ before.marks.write ≤ after.marks.write) :
    p.Sound after last' := by
  have hset := keeps.set_le
  cases p with
  | admitted => trivial
  | loaded current => have h : current ≤ before.marks.set := h; show current ≤ _; grind
  | claimed previous => have h : previous < before.marks.set := h; show previous < _; grind
  | locked previous => have h : previous < before.marks.set := h; show previous < _; grind
  | snapped previous snapshot encoded =>
    obtain ⟨rfl, -⟩ := locked trivial
    exact SnapshotFits.keep h keeps
  | published previous snapshot encoded =>
    obtain ⟨rfl, hw⟩ := locked trivial
    have hle := h.2
    exact ⟨SnapshotFits.keep h.1 keeps, by grind⟩
  | failed previous snapshot reason =>
    obtain ⟨-, hw⟩ := locked trivial
    obtain ⟨h1, h2, h3⟩ := h
    exact ⟨h1, by grind, by grind⟩
  | settled result => trivial

theorem Phase.Sound.keep {before after : Store} {last last' : UInt64} {p : Phase}
    (h : p.Sound before last) (keeps : before.Keeps after)
    (locked : p.HasLock → last' = last ∧ before.marks.write ≤ after.marks.write) :
    p.Sound after last' := by
  cases p with
  | saving p => exact SavePhase.Sound.keep h keeps locked
  | _ => exact h

/-! ### What a section does -/

namespace Store

/-- Storing a default counts a change whenever it does anything: what was found cannot be read,
and the default can. -/
theorem populateSection_counts (s : Store) (t : SettingType) (key : String) (default : t.Val)
    (found? : Option Value) (value : Value) (h : t.Unreadable found?)
    (hv : value.persisted = t.toValue default) :
    s.Counts (s.populateSection key found? value).1 (s.populateSection key found? value).2 := by
  have hchange : isChange found? value = true := by
    cases found? with
    | none => rfl
    | some found =>
      simp only [isChange, Bool.not_eq_true', ← Bool.not_eq_true, Value.samePersisted_iff]
      intro he
      obtain ⟨v, hread⟩ := t.fromValue_of_persisted_eq default found (he.trans hv)
      exact h found rfl v hread
  unfold populateSection
  split
  · exact ⟨rfl, by simp [hchange], by simp [hchange]⟩
  · exact ⟨rfl, rfl, fun _ => .refl _⟩

theorem removeSection_counts (s : Store) (key : String) :
    s.Counts (s.removeSection key).1.isSome (s.removeSection key).2 := by
  unfold removeSection
  split
  · exact ⟨rfl, rfl, fun _ => .refl _⟩
  · exact ⟨rfl, rfl, fun h => by simp at h⟩

theorem clearSection_counts (s : Store) : s.Counts true s.clearSection :=
  ⟨rfl, rfl, fun h => by simp at h⟩

end Store

/-- Every section counts a change or leaves the entries written as they were, and is the end of
its operation. -/
theorem Phase.change_counts {store after : Store} {p q : Phase} {last : UInt64} {counted : Bool}
    (h : p.change store = some (counted, after, q)) (sound : p.Sound store last) :
    store.Counts counted after ∧ (∀ sp, p ≠ .saving sp) ∧ ∃ reply, q = .done reply := by
  cases p with
  | populating t key default found? value =>
    simp only [change, Option.some.injEq, Prod.mk.injEq] at h
    obtain ⟨rfl, rfl, rfl⟩ := h
    exact ⟨store.populateSection_counts t key default found? value sound.1 sound.2,
      by simp, _, rfl⟩
  | caching t key v found =>
    simp only [change, Option.some.injEq, Prod.mk.injEq] at h
    obtain ⟨rfl, rfl, rfl⟩ := h
    exact ⟨store.cacheResolved_counts t key v found, by simp, _, rfl⟩
  | putting key value =>
    simp only [change, Option.some.injEq, Prod.mk.injEq] at h
    obtain ⟨rfl, rfl, rfl⟩ := h
    exact ⟨store.setEntry_counts key value, by simp, _, rfl⟩
  | removing key =>
    simp only [change, Option.some.injEq, Prod.mk.injEq] at h
    obtain ⟨rfl, rfl, rfl⟩ := h
    exact ⟨store.removeSection_counts key, by simp, _, rfl⟩
  | clearing =>
    simp only [change, Option.some.injEq, Prod.mk.injEq] at h
    obtain ⟨rfl, rfl, rfl⟩ := h
    exact ⟨store.clearSection_counts, by simp, _, rfl⟩
  | _ => simp [change] at h

/-! ### What a look tells -/

theorem Phase.begin_keeps (s : Store) (c : StoreCommand) :
    (begin s c).1.marks = s.marks ∧ (begin s c).1.entries = s.entries ∧
      (begin s c).1.encoding = s.encoding := by
  cases c <;> exact ⟨rfl, rfl, rfl⟩

theorem Phase.begin_sound (s store : Store) (c : StoreCommand) (last : UInt64) :
    (begin s c).2.Sound store last ∧ ¬ (begin s c).2.HasLock := by
  cases c with
  | get t key default => simp only [begin]; split <;> simp [Sound, HasLock]
  | remove key => simp only [begin]; split <;> simp [Sound, HasLock]
  | clear => simp only [begin]; split <;> simp [Sound, HasLock]
  | save => simp only [begin]; split <;> simp [Sound, HasLock, SavePhase.Sound, SavePhase.HasLock]
  | _ => simp [begin, Sound, HasLock]

/-- What a step that only reads tells is true, and it is no step of a saver that holds the lock
or has a claim. -/
theorem Phase.look_sound {store : Store} {p q : Phase} {last : UInt64}
    (h : p.look store = some q) (sound : p.Sound store last) :
    q.Sound store last ∧ ¬ p.HasLock ∧ ¬ q.HasLock ∧ ∀ mark, ¬ p.Covers mark := by
  cases p with
  | reading t key default =>
    simp only [look] at h
    split at h
    · cases h
      have hnone : t.Unreadable none := fun found hf => by cases hf
      exact ⟨hnone, id, id, fun _ => id⟩
    · split at h
      · cases h
        exact ⟨trivial, id, id, fun _ => id⟩
      · rename_i found _ e he
        cases h
        refine ⟨fun f hf v hv => ?_, id, id, fun _ => id⟩
        cases hf
        rw [he] at hv
        cases hv
  | lacking t key default found? =>
    simp only [look, Option.some.injEq] at h
    subst h
    split
    · exact ⟨sound, id, id, fun _ => id⟩
    · exact ⟨trivial, id, id, fun _ => id⟩
  | defaulting t key default found? =>
    simp only [look, Option.some.injEq] at h
    subst h
    split
    · exact ⟨⟨sound, store.memoryForm_persisted t default⟩, id, id, fun _ => id⟩
    · exact ⟨trivial, id, id, fun _ => id⟩
  | resolved t key v found =>
    simp only [look, Option.some.injEq] at h
    subst h
    split <;> exact ⟨trivial, id, id, fun _ => id⟩
  | checking key value =>
    simp only [look] at h
    split at h
    · cases h
      exact ⟨trivial, id, id, fun _ => id⟩
    · split at h <;> cases h <;> exact ⟨trivial, id, id, fun _ => id⟩
  | seeking key =>
    simp only [look, Option.some.injEq] at h
    subst h
    split <;> exact ⟨trivial, id, id, fun _ => id⟩
  | saving p =>
    cases p with
    | admitted =>
      simp only [look, Option.some.injEq] at h
      subst h
      have hle : store.marks.set ≤ store.marks.set := by grind
      exact ⟨hle, id, id, fun _ => id⟩
    | _ => simp [look] at h
  | done reply =>
    simp only [look, Option.some.injEq] at h
    subst h
    exact ⟨trivial, id, id, fun _ => id⟩
  | _ => simp [look] at h

/-! ### The invariant -/

open Effect in
/-- What holds of a shared store after the effects `es`. -/
structure SaveInvariant (es : List Effect) (s : SharedStore) : Prop where
  counted : s.store.marks.set.toNat = changes es
  write_le_set : s.store.marks.write ≤ s.store.marks.set
  sorted : (attempts es).Pairwise (· ≥ ·)
  attempt_le_set : lastAttempt es ≤ s.store.marks.set
  written_le_attempt : lastWritten es ≤ lastAttempt es
  lock : ∀ i, s.holder? = some i ↔ (s.phase i).HasLock
  sound : ∀ i, (s.phase i).Sound s.store (lastAttempt es)
  /-- The medium is right unless the set mark has moved on since it was written. -/
  stored : lastWritten es = s.store.marks.set → 0 < s.store.marks.set →
    ∃ bytes, s.medium.contents? = some bytes ∧ s.store.encoding.Holds bytes s.store.entries
  /-- Changes that look written are, or some saver still has to deal with them. -/
  covered : s.store.marks.write = s.store.marks.set →
    s.store.marks.set ≤ lastWritten es ∨ ∃ i, (s.phase i).Covers s.store.marks.set

namespace SaveInvariant

variable {es : List Effect} {s : SharedStore}

theorem sorted_cons {snapshot : UInt64} {succeeded : Bool}
    (h : (Effect.attempts es).Pairwise (· ≥ ·)) (hle : Effect.lastAttempt es ≤ snapshot) :
    (Effect.attempts (.wrote snapshot succeeded :: es)).Pairwise (· ≥ ·) := by
  refine List.pairwise_cons.mpr ⟨fun m hm => ?_, h⟩
  unfold Effect.lastAttempt at hle
  cases hs : Effect.attempts es with
  | nil => rw [hs] at hm; cases hm
  | cons last rest =>
    rw [hs] at hm h hle
    have hle : last ≤ snapshot := hle
    rcases List.mem_cons.mp hm with rfl | hm
    · exact hle
    · have := (List.pairwise_cons.mp h).1 m hm
      grind

theorem fresh (h : s.Fresh) : SaveInvariant [] s := by
  have hset : s.store.marks.set = 0 := by rw [h.marks]
  have hwrite : s.store.marks.write = 0 := by rw [h.marks]
  refine ⟨by rw [hset]; rfl, by rw [hset, hwrite]; grind, List.Pairwise.nil, by rw [hset]; decide,
    by decide, fun i => ?_, fun i => ?_, fun _ hpos => ?_, fun _ => ?_⟩
  · simp [h.unlocked, h.idle i, Phase.HasLock]
  · rw [h.idle i]; trivial
  · rw [hset] at hpos; exact absurd hpos (by decide)
  · left; rw [hset]; decide

/-- Two threads never hold the lock. -/
theorem unique (inv : SaveInvariant es s) {i j : ℕ} (hi : (s.phase i).HasLock)
    (hj : (s.phase j).HasLock) : j = i := by
  have h1 := (inv.lock i).mpr hi
  have h2 := (inv.lock j).mpr hj
  simpa [h1] using h2.symm

theorem lock_put (inv : SaveInvariant es s) {i : ℕ} {p : Phase}
    (same : p.HasLock ↔ (s.phase i).HasLock) :
    ∀ j, s.holder? = some j ↔ ((s.put i p).phase j).HasLock := by
  intro j
  by_cases hj : j = i
  · subst hj; rw [s.put_phase, same]; exact inv.lock j
  · rw [s.put_phase_of_ne hj]; exact inv.lock j

/-- The others rely on what they did, after a step of thread `i`. -/
theorem sound_put (inv : SaveInvariant es s) {i : ℕ} {p : Phase} {store : Store} {last : UInt64}
    (keeps : s.store.Keeps store) (hp : p.Sound store last)
    (others : ∀ j, j ≠ i → (s.phase j).HasLock →
      last = Effect.lastAttempt es ∧ s.store.marks.write ≤ store.marks.write) :
    ∀ j, ((s.put i p).phase j).Sound store last := by
  intro j
  by_cases hj : j = i
  · subst hj; rw [s.put_phase]; exact hp
  · rw [s.put_phase_of_ne hj]; exact (inv.sound j).keep keeps (others j hj)

theorem covers_put {i : ℕ} {p : Phase} {mark : UInt64}
    (h : (s.phase i).Covers mark → p.Covers mark) (hc : ∃ j, (s.phase j).Covers mark) :
    ∃ j, ((s.put i p).phase j).Covers mark := by
  obtain ⟨j, hj⟩ := hc
  by_cases hji : j = i
  · subst hji; exact ⟨j, by rw [s.put_phase]; exact h hj⟩
  · exact ⟨j, by rw [s.put_phase_of_ne hji]; exact hj⟩

/-- A step that leaves the entries, the set mark and the medium alone and may raise the write
mark: if this makes the marks equal, the thread takes it on itself to write. -/
theorem turn (inv : SaveInvariant es s) {i : ℕ} {p : Phase} {store : Store}
    (encoding : store.encoding = s.store.encoding) (entries : store.entries = s.store.entries)
    (set : store.marks.set = s.store.marks.set) (rises : s.store.marks.write ≤ store.marks.write)
    (le : store.marks.write ≤ store.marks.set) (lock : p.HasLock ↔ (s.phase i).HasLock)
    (sound : p.Sound store (Effect.lastAttempt es))
    (covers : store.marks.write = s.store.marks.set →
      p.Covers s.store.marks.set ∨ (s.store.marks.write = s.store.marks.set ∧
        ((s.phase i).Covers s.store.marks.set → p.Covers s.store.marks.set))) :
    SaveInvariant es ({ s with store }.put i p) := by
  have keeps : s.store.Keeps store := ⟨encoding, by grind, fun _ => entries ▸ .refl _⟩
  refine ⟨set ▸ inv.counted, le, inv.sorted, set ▸ inv.attempt_le_set, inv.written_le_attempt,
    inv.lock_put lock, inv.sound_put keeps sound fun _ _ _ => ⟨rfl, rises⟩, fun hw hpos => ?_,
    fun hw => ?_⟩
  · obtain ⟨bytes, hb, hh⟩ := inv.stored (hw.trans set) (set ▸ hpos)
    refine ⟨bytes, hb, ?_⟩
    show store.encoding.Holds bytes store.entries
    rw [encoding, entries]
    exact hh
  · show store.marks.set ≤ _ ∨ ∃ j, ((s.put i p).phase j).Covers store.marks.set
    rw [set]
    rcases covers (hw.trans set) with hp | ⟨hold, himp⟩
    · exact .inr ⟨i, by rw [s.put_phase]; exact hp⟩
    · exact (inv.covered hold).imp_right (covers_put himp)

/-- A section that changes the entries. -/
theorem change (inv : SaveInvariant es s) {i : ℕ} {counted : Bool} {store : Store} {p : Phase}
    (h : (s.phase i).change s.store = some (counted, store, p))
    (few : Effect.changes (Effect.ofChange counted ++ es) < 2 ^ 64) :
    SaveInvariant (Effect.ofChange counted ++ es) ({ s with store }.put i p) := by
  obtain ⟨⟨encoding, marks, alike⟩, hsp, reply, rfl⟩ := Phase.change_counts h (inv.sound i)
  have hlock : (Phase.done reply).HasLock ↔ (s.phase i).HasLock := by
    cases hi : s.phase i with
    | saving sp => exact absurd hi (hsp sp)
    | _ => rfl
  have hcov : ∀ mark, (s.phase i).Covers mark → (Phase.done reply).Covers mark := by
    cases hi : s.phase i with
    | saving sp => exact absurd hi (hsp sp)
    | _ => exact fun _ => id
  cases counted with
  | false =>
    -- nothing that is written changed, and neither did the marks
    have marks : store.marks = s.store.marks := marks
    have keeps : s.store.Keeps store := ⟨encoding, by grind, fun _ => alike rfl⟩
    have rises : s.store.marks.write ≤ store.marks.write := by grind
    refine ⟨marks ▸ inv.counted, marks ▸ inv.write_le_set, inv.sorted, marks ▸ inv.attempt_le_set,
      inv.written_le_attempt, inv.lock_put hlock,
      inv.sound_put keeps trivial fun _ _ _ => ⟨rfl, rises⟩, fun hw hpos => ?_, fun hw => ?_⟩
    · obtain ⟨bytes, hb, hh⟩ := inv.stored (by rw [← marks]; exact hw) (by rw [← marks]; exact hpos)
      refine ⟨bytes, hb, ?_⟩
      show store.encoding.Holds bytes store.entries
      rw [encoding]
      exact hh.trans (alike rfl)
    · show store.marks.set ≤ _ ∨ ∃ j, ((s.put i (.done reply)).phase j).Covers store.marks.set
      rw [marks]
      exact (inv.covered (by rw [← marks]; exact hw)).imp_right (covers_put (hcov _))
  | true =>
    -- the set mark rises above every mark there is
    have marks : store.marks = s.store.marks.markDirty := marks
    have hfew : s.store.marks.set.toNat + 1 < 2 ^ 64 := by
      have : Effect.changes (Effect.ofChange true ++ es) = Effect.changes es + 1 := by
        simp [Effect.changes, Effect.ofChange]
      rw [inv.counted]
      omega
    obtain ⟨hlt, hnat⟩ := DirtyMarks.lt_markDirty_set hfew
    rw [← marks] at hlt hnat
    have hwrite : store.marks.write = s.store.marks.write := by rw [marks]; rfl
    have h1 := inv.write_le_set
    have h2 := inv.attempt_le_set
    have h3 := inv.written_le_attempt
    have keeps : s.store.Keeps store := ⟨encoding, by grind, fun he => by grind⟩
    have rises : s.store.marks.write ≤ store.marks.write := by grind
    refine ⟨?_, ?_, inv.sorted, ?_, h3, inv.lock_put hlock,
      inv.sound_put keeps trivial fun _ _ _ => ⟨rfl, rises⟩, fun hw _ => ?_, fun hw => ?_⟩
    · show store.marks.set.toNat = _
      rw [hnat, inv.counted]
      simp [Effect.changes, Effect.ofChange]
    · show store.marks.write ≤ store.marks.set
      grind
    · show Effect.lastAttempt es ≤ store.marks.set
      grind
    · have hw : Effect.lastWritten es = store.marks.set := hw
      grind
    · have hw : store.marks.write = store.marks.set := hw
      grind

/-- A saver takes the free lock. -/
theorem locks (inv : SaveInvariant es s) {i : ℕ} {previous : UInt64}
    (h : s.phase i = .saving (.claimed previous)) (free : s.holder? = none) :
    SaveInvariant es ({ s with holder? := some i }.put i (.saving (.locked previous))) := by
  have hnone : ∀ j, ¬ (s.phase j).HasLock := fun j hj => by
    have := (inv.lock j).mpr hj
    simp [free] at this
  have hi := inv.sound i
  rw [h] at hi
  refine ⟨inv.counted, inv.write_le_set, inv.sorted, inv.attempt_le_set, inv.written_le_attempt,
    fun j => ?_, inv.sound_put (.refl _) hi fun _ _ _ => ⟨rfl, UInt64.le_refl _⟩, inv.stored,
    fun hw => (inv.covered hw).imp_right (covers_put fun _ => trivial)⟩
  show some i = some j ↔ ((s.put i _).phase j).HasLock
  by_cases hj : j = i
  · subst hj; simp [Phase.HasLock, SavePhase.HasLock]
  · rw [s.put_phase_of_ne hj]; simp [hnone j, Ne.symm hj]

/-- The holder of the lock lets go of it. -/
theorem releases (inv : SaveInvariant es s) {i : ℕ} {result : Except StoreError Bool}
    (h : s.phase i = .saving (.settled result)) :
    SaveInvariant es ({ s with holder? := none }.put i (.afterSave result)) := by
  have hnew : ¬ (Phase.afterSave result).HasLock ∧
      (Phase.afterSave result).Sound s.store (Effect.lastAttempt es) := by
    cases result <;> exact ⟨id, trivial⟩
  have hold : (s.phase i).HasLock := by rw [h]; trivial
  refine ⟨inv.counted, inv.write_le_set, inv.sorted, inv.attempt_le_set, inv.written_le_attempt,
    fun j => ?_, inv.sound_put (.refl _) hnew.2 fun _ _ _ => ⟨rfl, UInt64.le_refl _⟩, inv.stored,
    fun hw => (inv.covered hw).imp_right (covers_put fun hc => ?_)⟩
  · show none = some j ↔ ((s.put i _).phase j).HasLock
    by_cases hj : j = i
    · subst hj; simp [hnew.1]
    · rw [s.put_phase_of_ne hj]
      simpa using fun hjl => hj (inv.unique hold hjl)
  · rw [h] at hc
    exact hc.elim

/-- The holder of the lock writes. -/
theorem writes (inv : SaveInvariant es s) {i : ℕ} {previous snapshot : UInt64} {bytes : Bytes}
    {medium : MemoryMedium} (h : s.phase i = .saving (.published previous snapshot (.ok bytes)))
    (written : s.medium.write bytes = .ok medium) :
    SaveInvariant (.wrote snapshot true :: es)
      ({ s with medium }.put i (.saving (.settled (.ok true)))) := by
  have hlock : (s.phase i).HasLock := by rw [h]; trivial
  have hi := inv.sound i
  rw [h] at hi
  obtain ⟨fits, -⟩ := hi
  have hcontents : medium.contents? = some bytes := by
    unfold MemoryMedium.write at written
    split at written
    · cases written
    · cases written; rfl
  refine ⟨by simpa [Effect.changes] using inv.counted, inv.write_le_set, ?_, fits.le_set,
    by show snapshot ≤ snapshot; grind, inv.lock_put (by rw [h]; rfl),
    inv.sound_put (.refl _) trivial fun j hj hjl => absurd (inv.unique hlock hjl) hj,
    fun hw _ => ⟨bytes, hcontents, fits.holds bytes rfl hw⟩, fun hw => ?_⟩
  · exact sorted_cons inv.sorted fits.last_le
  · rcases inv.covered hw with hle | ⟨j, hj⟩
    · have h1 := inv.written_le_attempt
      have h2 := fits.last_le
      left
      show s.store.marks.set ≤ snapshot
      have hle : s.store.marks.set ≤ Effect.lastWritten es := hle
      grind
    · by_cases hji : j = i
      · subst hji
        rw [h] at hj
        have hj : snapshot = s.store.marks.set := hj
        left
        show s.store.marks.set ≤ snapshot
        grind
      · exact .inr ⟨j, by rw [SharedStore.put_phase_of_ne _ hji]; exact hj⟩

/-- The holder of the lock tries to write, and the medium fails. -/
theorem misses (inv : SaveInvariant es s) {i : ℕ} {previous snapshot : UInt64} {bytes : Bytes}
    {e : StoreError} (h : s.phase i = .saving (.published previous snapshot (.ok bytes))) :
    SaveInvariant (.wrote snapshot false :: es)
      (s.put i (.saving (.failed previous snapshot e))) := by
  have hlock : (s.phase i).HasLock := by rw [h]; trivial
  have hi := inv.sound i
  rw [h] at hi
  obtain ⟨fits, hwrite⟩ := hi
  refine ⟨by simpa [Effect.changes] using inv.counted, inv.write_le_set, ?_, fits.le_set, ?_,
    inv.lock_put (by rw [h]; rfl),
    inv.sound_put (.refl _) ⟨fits.previous_lt, fits.le_set, hwrite⟩
      fun j hj hjl => absurd (inv.unique hlock hjl) hj,
    inv.stored, fun hw => (inv.covered hw).imp_right (covers_put fun hc => ?_)⟩
  · exact sorted_cons inv.sorted fits.last_le
  · have h1 := inv.written_le_attempt
    have h2 := fits.last_le
    show Effect.lastWritten es ≤ snapshot
    grind
  · rw [h] at hc
    exact hc

/-- The holder of the lock takes its claim back: to a mark below the set mark, or not at all,
because another saver has claimed since and not taken its snapshot yet. -/
theorem rollsBack (inv : SaveInvariant es s) {i : ℕ} {previous snapshot : UInt64} {e : StoreError}
    (h : s.phase i = .saving (.failed previous snapshot e)) :
    SaveInvariant es ({ s with store.marks := s.store.marks.rollback snapshot previous }.put i
      (.saving (.settled (.error e)))) := by
  have hlock : (s.phase i).HasLock := by rw [h]; trivial
  have hi := inv.sound i
  rw [h] at hi
  obtain ⟨hprev, hsnap, hwrite⟩ := hi
  have hle := inv.write_le_set
  have hroll := s.store.marks.rollback_write snapshot previous
  have keeps : s.store.Keeps { s.store with marks := s.store.marks.rollback snapshot previous } :=
    ⟨rfl, by simp, fun _ => .refl _⟩
  refine ⟨by simpa using inv.counted, ?_, inv.sorted, by simpa using inv.attempt_le_set,
    inv.written_le_attempt, inv.lock_put (by rw [h]; rfl),
    inv.sound_put keeps trivial fun j hj hjl => absurd (inv.unique hlock hjl) hj,
    by simpa using inv.stored, fun hw => ?_⟩
  · show (s.store.marks.rollback snapshot previous).write ≤ (s.store.marks.rollback _ _).set
    rw [hroll, DirtyMarks.rollback_set]
    grind
  · have hw : (s.store.marks.rollback snapshot previous).write =
        (s.store.marks.rollback snapshot previous).set := hw
    rw [hroll, DirtyMarks.rollback_set] at hw
    have hne : s.store.marks.write ≠ snapshot := by grind
    rw [if_neg hne] at hw
    show (s.store.marks.rollback snapshot previous).set ≤ _ ∨
      ∃ j, ((s.put i _).phase j).Covers (s.store.marks.rollback snapshot previous).set
    rw [DirtyMarks.rollback_set]
    refine (inv.covered hw).imp_right (covers_put fun hc => ?_)
    rw [h] at hc
    have hc : snapshot = s.store.marks.set := hc
    exact absurd (hw.trans hc.symm) hne

/-- **Every step keeps the invariant.** -/
theorem step {fs : List Effect} {s' : SharedStore} (inv : SaveInvariant es s) (h : Step s fs s')
    (few : Effect.changes (fs ++ es) < 2 ^ 64) : SaveInvariant (fs ++ es) s' := by
  have hws := inv.write_le_set
  cases h with
  | @begins i c h =>
    obtain ⟨marks, entries, encoding⟩ := Phase.begin_keeps s.store c
    obtain ⟨sound, hnl⟩ := Phase.begin_sound s.store (Phase.begin s.store c).1 c
      (Effect.lastAttempt es)
    have hidle : ¬ (s.phase i).HasLock := by rw [h]; exact id
    refine inv.turn encoding entries (by rw [marks]) (by rw [marks]; grind) (by rw [marks]; exact hws)
      (iff_of_false hnl hidle) sound fun hw => .inr ⟨by rw [marks] at hw; exact hw, ?_⟩
    rw [h]
    exact fun hc => hc.elim
  | @looks i p h =>
    obtain ⟨sound, hnl, hnl', hnc⟩ := Phase.look_sound h (inv.sound i)
    exact inv.turn rfl rfl rfl (by grind) hws (by simp [hnl, hnl']) sound
      fun hw => .inr ⟨hw, fun hc => absurd hc (hnc _)⟩
  | changes h => exact inv.change h few
  | @claims i current h =>
    have hi := inv.sound i
    rw [h] at hi
    have hi : current ≤ s.store.marks.set := hi
    have hraise := s.store.marks.raise_write current
    by_cases hlt : s.store.marks.write < current
    · rw [show s.store.marks.claimAt current = (some s.store.marks.write, s.store.marks.raise current)
        by simp [DirtyMarks.claimAt, hlt]]
      refine inv.turn rfl rfl rfl ?_ ?_ (by rw [h]; rfl) ?_ fun _ => .inl trivial
      · show _ ≤ (s.store.marks.raise current).write
        grind
      · show (s.store.marks.raise current).write ≤ s.store.marks.set
        grind
      · show s.store.marks.write < s.store.marks.set
        grind
    · rw [show s.store.marks.claimAt current = (none, s.store.marks.raise current)
        by simp [DirtyMarks.claimAt, hlt]]
      have hsame : (s.store.marks.raise current).write = s.store.marks.write := by grind
      refine inv.turn rfl rfl rfl ?_ ?_ (by rw [h]; rfl) trivial fun hw => .inr ⟨?_, ?_⟩
      · show _ ≤ (s.store.marks.raise current).write
        grind
      · show (s.store.marks.raise current).write ≤ s.store.marks.set
        grind
      · have hw : (s.store.marks.raise current).write = s.store.marks.set := hw
        grind
      · rw [h]
        exact fun hc => hc.elim
  | locks h free => exact inv.locks h free
  | @snaps i previous nonce h =>
    have hi := inv.sound i
    rw [h] at hi
    exact inv.turn rfl rfl rfl (by grind) hws (by rw [h]; rfl)
      ⟨hi, by grind, inv.attempt_le_set, fun bytes hb _ =>
        ⟨s.store.entries, nonce, Store.encode_of_encoded hb, .refl _⟩⟩ fun _ => .inl rfl
  | @publishes i previous snapshot encoded h =>
    have hi := inv.sound i
    rw [h] at hi
    have fits : SnapshotFits s.store _ previous snapshot encoded := hi
    have hle := fits.le_set
    have hraise := s.store.marks.raise_write snapshot
    refine inv.turn rfl rfl rfl ?_ ?_ (by rw [h]; rfl)
      ⟨⟨fits.previous_lt, fits.le_set, fits.last_le, fits.holds⟩, ?_⟩ fun hw => ?_
    · show _ ≤ (s.store.marks.raise snapshot).write
      grind
    · show (s.store.marks.raise snapshot).write ≤ s.store.marks.set
      grind
    · show snapshot ≤ (s.store.marks.raise snapshot).write
      grind
    · have hw : (s.store.marks.raise snapshot).write = s.store.marks.set := hw
      by_cases hs : snapshot = s.store.marks.set
      · exact .inl hs
      · exact .inr ⟨by grind, by rw [h]; exact id⟩
  | writes h written => exact inv.writes h written
  | misses h written => exact inv.misses h
  | @givesUp i previous snapshot e h =>
    have hi := inv.sound i
    rw [h] at hi
    obtain ⟨fits, hwrite⟩ := hi
    exact inv.turn rfl rfl rfl (by grind) hws (by rw [h]; rfl)
      ⟨fits.previous_lt, fits.le_set, hwrite⟩ fun hw => .inr ⟨hw, by rw [h]; exact id⟩
  | rollsBack h => exact inv.rollsBack h
  | releases h => exact inv.releases h
  | turns fails =>
    exact ⟨inv.counted, inv.write_le_set, inv.sorted, inv.attempt_le_set, inv.written_le_attempt,
      inv.lock, inv.sound, inv.stored, inv.covered⟩

end SaveInvariant

/-! ### Every run -/

theorem Run.saveInvariant {start s : SharedStore} {es : List Effect} (h : Run start es s)
    (fresh : start.Fresh) : Effect.changes es < 2 ^ 64 → SaveInvariant es s := by
  induction h with
  | start => exact fun _ => .fresh fresh
  | @step es fs s s' run step ih =>
    intro few
    have hle : Effect.changes es ≤ Effect.changes (fs ++ es) := by
      simp [Effect.changes, List.count_append]
    exact (ih (by omega)).step step few

/-- Whether no save is under way. -/
def SharedStore.NoSave (s : SharedStore) : Prop := ∀ i p, s.phase i ≠ .saving p

/-- **What the saves of a shared store keep.** In every state that threads reach from a store
that was just opened, with fewer changes than there are marks: the write mark does not pass the
set mark, the snapshots were written in the order of their marks, and with no save under way and
equal marks that are not zero the medium holds a document that is written like the entries. -/
theorem Run.saves_keep {start s : SharedStore} {es : List Effect} (fresh : start.Fresh)
    (h : Run start es s) (few : Effect.changes es < 2 ^ 64) :
    s.store.marks.write ≤ s.store.marks.set ∧
      (Effect.attempts es).Pairwise (· ≥ ·) ∧
      (s.NoSave → s.store.marks.write = s.store.marks.set → 0 < s.store.marks.set →
        ∃ d nonce bytes, s.medium.contents? = some bytes ∧
          s.store.encoding.encode nonce d = .ok bytes ∧ d.WrittenAlike s.store.entries) := by
  have inv := h.saveInvariant fresh few
  refine ⟨inv.write_le_set, inv.sorted, fun nosave heq hpos => ?_⟩
  have hwritten : s.store.marks.set ≤ Effect.lastWritten es := by
    rcases inv.covered heq with hle | ⟨i, hi⟩
    · exact hle
    · cases hp : s.phase i with
      | saving p => exact absurd hp (nosave i p)
      | _ => rw [hp] at hi; exact hi.elim
  have h1 := inv.written_le_attempt
  have h2 := inv.attempt_le_set
  obtain ⟨bytes, hb, d, nonce, henc, hd⟩ := inv.stored (by grind) hpos
  exact ⟨d, nonce, bytes, hb, henc, hd⟩

/-- A store in memory that was just opened, and threads that do nothing. -/
def SharedStore.inMemory (encoding : Encoding) : SharedStore :=
  { store := { name := "", location := .memory, encoding := encoding }
    medium := {}
    holder? := none
    phase := fun _ => .idle }

/-- One thread puts a value and saves, and its write fails after another one found nothing left
to claim; the other one then saves again. -/
theorem Run.saves_keep_failed_then_saved :
    ∃ es s, (SharedStore.inMemory .plain).Fresh ∧ Run (.inMemory .plain) es s ∧
      Effect.changes es < 2 ^ 64 ∧ s.NoSave ∧ s.store.marks = ⟨1, 1⟩ ∧
      Effect.attempts es = [1, 1] ∧
      ∃ d nonce bytes, s.medium.contents? = some bytes ∧
        s.store.encoding.encode nonce d = .ok bytes ∧ d.WrittenAlike s.store.entries := by
  have fresh : (SharedStore.inMemory .plain).Fresh := ⟨rfl, rfl, fun _ => rfl⟩
  have h := (.start : Run (.inMemory .plain) [] _).step
    (.begins (i := 0) (.putValue "k" (.bool true)) rfl)
  have h := (h.step (.looks (i := 0) rfl)).step (.changes (i := 0) rfl)
  have h := (h.step (.looks (i := 0) rfl)).step (.begins (i := 0) .save rfl)
  have h := (h.step (.looks (i := 0) rfl)).step (.claims (i := 0) rfl)
  have h := (h.step (.begins (i := 1) .save rfl)).step (.looks (i := 1) rfl)
  have h := (h.step (.claims (i := 1) rfl)).step (.looks (i := 1) rfl)
  have h := (h.step (.turns true)).step (.locks (i := 0) rfl rfl)
  have h := (h.step (.snaps (i := 0) (NonceSupply.nonce 0) rfl)).step (.publishes (i := 0) rfl)
  have h := (h.step (.misses (i := 0) rfl rfl)).step (.rollsBack (i := 0) rfl)
  have h := (h.step (.releases (i := 0) rfl)).step (.looks (i := 0) rfl)
  have h := (h.step (.turns false)).step (.begins (i := 1) .save rfl)
  have h := (h.step (.looks (i := 1) rfl)).step (.claims (i := 1) rfl)
  have h := (h.step (.locks (i := 1) rfl rfl)).step (.snaps (i := 1) (NonceSupply.nonce 0) rfl)
  have h := (h.step (.publishes (i := 1) rfl)).step (.writes (i := 1) rfl rfl)
  have h := (h.step (.releases (i := 1) rfl)).step (.looks (i := 1) rfl)
  refine ⟨_, _, fresh, h, ?few, ?nosave, rfl, rfl,
    (Run.saves_keep fresh h ?few).2.2 ?nosave rfl (by decide)⟩
  case few =>
    show 1 < 2 ^ 64
    decide
  case nosave =>
    intro i p
    match i with
    | 0 => exact Phase.noConfusion
    | 1 => exact Phase.noConfusion
    | i + 2 => exact Phase.noConfusion

end TypedConfig
