/-
# When a save writes, and what a failed one leaves

At any operation of a run the memory medium may be told to fail. The write mark always is
the set mark that the store had when it was last written (`History.Tracked`). So a save
hands the document to the medium exactly if the set mark has moved since, it says whether
that was done, and one that is refused leaves all as it was, to be written by the next
that finds its medium working (`Workspace.saves_gated`).

The set mark is a word of 64 bits, so whether it has moved is told for runs with fewer than
`2 ^ 64` changes.

Key definitions: `Store.handed?`, `Attempt`, `History`, `History.since`, `History.Holds`,
`History.changes`, `Workspace.GatedSave`.
Key theorems: `History.Tracked.attempt`, `History.Tracked.after`, `Workspace.saves_gated`.
-/
import Mathlib
import TypedConfig.Proofs.Document.RoundTrip
import TypedConfig.Proofs.Medium.Writing
import TypedConfig.Proofs.Store.Tally

namespace TypedConfig

/-! ### What a save hands to the medium -/

namespace Store

variable {s : Store} {nonce : Nonce}

/-- The bytes that a save hands to the medium, if it has any to write. -/
def handed? (s : Store) (nonce : Nonce) : Option Bytes :=
  if s.closed ∨ s.marks.isClean then none else (s.encoded nonce).toOption

theorem handed?_eq_some_iff {bytes : Bytes} :
    s.handed? nonce = some bytes ↔ s.closed = false ∧ s.marks.write < s.marks.set ∧
      s.encoded nonce = .ok bytes := by
  have hclean : s.marks.isClean = true ↔ ¬ s.marks.write < s.marks.set := by
    rw [DirtyMarks.isClean, decide_eq_true_iff, UInt64.not_lt]
  unfold handed?
  by_cases hclosed : s.closed = true
  · simp [hclosed]
  · by_cases hlt : s.marks.write < s.marks.set
    · cases s.encoded nonce <;> simp [hclosed, hclean, hlt, Except.toOption]
    · simp [hclean, hlt]

/-- A store hands over bytes if it is open, dirty, and not too large to be sealed. -/
theorem handed?_isSome_iff : (s.handed? nonce).isSome ↔
    s.closed = false ∧ s.marks.write < s.marks.set ∧ s.encoding.HasRoom s.entries := by
  have hencoded : (∃ bytes, s.encoded nonce = .ok bytes) ↔ s.encoding.HasRoom s.entries := by
    rw [← s.encoding.exists_encode_iff nonce]
    unfold encoded
    cases s.encoding.encode nonce s.entries <;> simp
  rw [Option.isSome_iff_exists, ← hencoded]
  simp only [handed?_eq_some_iff, exists_and_left]

end Store

/-- A write that fails leaves the memory medium alone. -/
theorem Media.memory_of_write_error {m m' : Media} {location : Location} {bytes : Bytes}
    {e : MediumError} (h : m.write location bytes = (.error e, m')) : m'.memory = m.memory := by
  cases location with
  | memory =>
    cases hwrite : m.memory.write bytes <;> simp only [write, hwrite] at h <;> cases h
    rfl
  | file path =>
    rcases hreplace : m.files.replace path bytes with ⟨_ | _, files⟩ <;>
      simp only [write, hreplace] at h <;> cases h
    rfl

/-- A write to the memory medium that succeeds leaves the bytes there. -/
theorem Media.contents?_of_write {m m' : Media} {location : Location} {bytes : Bytes}
    (memory : location = .memory) (h : m.write location bytes = (.ok (), m')) :
    m'.memory.contents? = some bytes := by
  subst memory
  have hread := Media.read_of_write h
  cases hcontents : m'.memory.contents? <;> simp only [read, hcontents] at hread <;> cases hread
  rfl

namespace Workspace

variable {w : Workspace}

/-! ### One save -/

theorem perform_save_of_written {bytes : Bytes} {media : Media}
    (handed : w.store.handed? w.nonces.next.1 = some bytes)
    (hwrite : w.media.write w.store.location bytes = (.ok (), media)) :
    w.perform .save = (.saved true,
      { store := { w.store with marks.write := w.store.marks.set }, media,
        nonces := w.nonces.next.2 }) := by
  obtain ⟨hopen, dirty, hencoded⟩ := Store.handed?_eq_some_iff.mp handed
  simp only [perform, save, Store.save_of_written hopen dirty hencoded hwrite]

theorem perform_save_of_failed {bytes : Bytes} {e : MediumError} {media : Media}
    (handed : w.store.handed? w.nonces.next.1 = some bytes)
    (hwrite : w.media.write w.store.location bytes = (.error e, media)) :
    w.perform .save = (.refused (.medium w.store.location e),
      { w with media, nonces := w.nonces.next.2 }) := by
  obtain ⟨hopen, dirty, hencoded⟩ := Store.handed?_eq_some_iff.mp handed
  simp only [perform, save, Store.save_of_failed hopen dirty hencoded hwrite]

/-- A save that hands over nothing has nothing to write, or is refused. -/
theorem perform_save_of_spared (spared : w.store.handed? w.nonces.next.1 = none) :
    (w.perform .save).2 = { w with nonces := w.nonces.next.2 } ∧
      ((w.perform .save).1 = .saved false ∧ w.store.marks.set ≤ w.store.marks.write ∨
        ∃ e, (w.perform .save).1 = .refused e ∧
          (w.store.closed = true ∨ w.store.marks.write < w.store.marks.set)) := by
  by_cases hclosed : w.store.closed = true
  · have hsave : w.perform .save = (.refused .closed, { w with nonces := w.nonces.next.2 }) := by
      simp only [perform, save, Store.save_of_closed hclosed]
    rw [hsave]
    exact ⟨rfl, .inr ⟨_, rfl, .inl hclosed⟩⟩
  have hopen : w.store.closed = false := Bool.not_eq_true _ ▸ hclosed
  by_cases dirty : w.store.marks.write < w.store.marks.set
  · cases hencoded : w.store.encoded w.nonces.next.1 with
    | ok bytes =>
      rw [Store.handed?_eq_some_iff.mpr ⟨hopen, dirty, hencoded⟩] at spared
      cases spared
    | error e =>
      have hsave : w.perform .save = (.refused e, { w with nonces := w.nonces.next.2 }) := by
        simp only [perform, save, Store.save_of_unencodable hopen dirty hencoded]
      rw [hsave]
      exact ⟨rfl, .inr ⟨_, rfl, .inr dirty⟩⟩
  · have clean := UInt64.not_lt.mp dirty
    have hsave : w.perform .save = (.saved false, { w with nonces := w.nonces.next.2 }) := by
      simp only [perform, save, Store.save_of_clean hopen clean]
    rw [hsave]
    exact ⟨rfl, .inl ⟨rfl, clean⟩⟩

/-- A save that is not answered with a write leaves the store and the memory medium as they
were. -/
theorem save_unwritten_keeps (unwritten : (w.perform .save).1 ≠ .saved true) :
    (w.perform .save).2.store = w.store ∧
      (w.perform .save).2.media.memory = w.media.memory := by
  cases handed : w.store.handed? w.nonces.next.1 with
  | none =>
    rw [(perform_save_of_spared handed).1]
    exact ⟨rfl, rfl⟩
  | some bytes =>
    rcases hwrite : w.media.write w.store.location bytes with ⟨e' | _, media⟩
    · rw [perform_save_of_failed handed hwrite]
      exact ⟨rfl, Media.memory_of_write_error hwrite⟩
    · rw [perform_save_of_written handed hwrite] at unwritten
      exact absurd rfl unwritten

/-- A save of an open store that is refused had something to write. -/
theorem dirty_of_save_refused (hopen : w.store.closed = false) {e : StoreError}
    (refused : (w.perform .save).1 = .refused e) : w.store.marks.write < w.store.marks.set := by
  cases handed : w.store.handed? w.nonces.next.1 with
  | some bytes => exact (Store.handed?_eq_some_iff.mp handed).2.1
  | none =>
    rcases (perform_save_of_spared handed).2 with ⟨hreply, -⟩ | ⟨e', -, hclosed | dirty⟩
    · rw [hreply] at refused
      cases refused
    · rw [hopen] at hclosed
      cases hclosed
    · exact dirty

/-- A save is answered with a write exactly if the medium took what it was handed. -/
theorem save_wrote_iff : (w.perform .save).1 = .saved true ↔
    ∃ bytes, w.store.handed? w.nonces.next.1 = some bytes ∧
      (w.media.write w.store.location bytes).1 = .ok () := by
  cases handed : w.store.handed? w.nonces.next.1 with
  | none =>
    rcases (perform_save_of_spared handed).2 with ⟨hreply, -⟩ | ⟨e, hreply, -⟩ <;> simp [hreply]
  | some bytes =>
    rcases hwrite : w.media.write w.store.location bytes with ⟨e' | _, media⟩
    · simp [perform_save_of_failed handed hwrite, hwrite]
    · simp [perform_save_of_written handed hwrite, hwrite]

/-! ### The other operations -/

theorem settled_media {α : Type} (w : Workspace) (reply : α → StoreReply)
    (r : Except StoreError (α × Store)) : (w.settled reply r).2.media = w.media := by
  cases r <;> rfl

theorem settled_ne_saved {α : Type} {reply : α → StoreReply} {wrote : Bool}
    (hreply : ∀ a, reply a ≠ .saved wrote) (r : Except StoreError (α × Store)) :
    (w.settled reply r).1 ≠ .saved wrote := by
  cases r with
  | error e => exact nofun
  | ok p => exact hreply p.1

/-- Only a save touches the media and the write mark, and only its answer tells of one. -/
theorem perform_of_ne_save (w : Workspace) {c : StoreCommand} (hsave : c ≠ .save) :
    (w.perform c).2.media = w.media ∧
      (w.perform c).2.store.marks.write = w.store.marks.write ∧
      ∀ wrote, (w.perform c).1 ≠ .saved wrote := by
  refine ⟨?_, ?_, fun wrote => ?_⟩
  · cases c with
    | save => exact absurd rfl hsave
    | put t key v => exact w.settled_media _ _
    | putValue key value => exact w.settled_media _ _
    | remove key => exact w.settled_media _ _
    | clear => exact w.settled_media _ _
    | _ => rfl
  · by_cases hclear : c = .clear
    · subst hclear
      rw [perform_clear]
      split <;> rfl
    · obtain ⟨counted, exactly⟩ := w.perform_countsExactly hsave hclear
      rw [exactly.marks]
      cases counted <;> rfl
  · cases c with
    | save => exact absurd rfl hsave
    | put t key v => exact settled_ne_saved nofun _
    | putValue key value => exact settled_ne_saved nofun _
    | remove key => exact settled_ne_saved nofun _
    | clear => exact settled_ne_saved nofun _
    | _ => exact nofun

/-- While there are marks left, the set mark is the number of changes. -/
theorem perform_set_toNat (w : Workspace) (c : StoreCommand)
    (room : w.store.marks.set.toNat + (if w.isCounted c then 1 else 0) < 2 ^ 64) :
    (w.perform c).2.store.marks.set.toNat =
      w.store.marks.set.toNat + if w.isCounted c then 1 else 0 := by
  rw [perform_set]
  split
  · rename_i hcounted
    rw [if_pos hcounted] at room
    rw [UInt64.toNat_add, UInt64.toNat_one]
    omega
  · rw [UInt64.add_zero, Nat.add_zero]

/-- The workspace with a memory medium that fails all writes, or none. -/
def failing (w : Workspace) (fails : Bool) : Workspace :=
  { w with media.memory.failWrites := fails }

end Workspace

/-! ### Runs with failures -/

/-- An operation, and whether the memory medium fails while it is carried out. -/
structure Attempt where
  fails : Bool := false
  command : StoreCommand

/-- Whether an operation is answered with a write. -/
def StoreReply.isWrite : StoreReply → Bool
  | .saved true => true
  | _ => false

/-- What a run has come to: the workspace now, and the one that was saved by the last save that
was answered with a write. -/
structure History where
  now : Workspace
  saved? : Option Workspace := none

namespace History

/-- One more operation. -/
def attempt (h : History) (a : Attempt) : History :=
  let before := h.now.failing a.fails
  let (reply, now) := before.perform a.command
  { now, saved? := if reply.isWrite then some before else h.saved? }

/-- Some more operations. -/
def after (h : History) : List Attempt → History
  | [] => h
  | a :: rest => (h.attempt a).after rest

/-- The set mark of the document that was last written, or with which the store was opened. -/
def since (h : History) : UInt64 :=
  match h.saved? with
  | some w => w.store.marks.set
  | none => 0

/-- A memory medium holds what it held at first, or the entries as they were last saved. -/
def Holds (h : History) (initial? : Option Bytes) : Prop :=
  match h.saved? with
  | some w => ∃ bytes, w.store.encoding.encode w.nonces.next.1 w.store.entries = .ok bytes ∧
      h.now.media.memory.contents? = some bytes
  | none => h.now.media.memory.contents? = initial?

/-- How many of the operations count up the set mark. -/
def changes (h : History) : List Attempt → ℕ
  | [] => 0
  | a :: rest =>
    (if (h.now.failing a.fails).isCounted a.command then 1 else 0) + (h.attempt a).changes rest

/-- After `n` changes the write mark is the set mark that was last written. -/
structure Tracked (n : ℕ) (h : History) : Prop where
  write : h.now.store.marks.write = h.since
  since_le : h.since ≤ h.now.store.marks.set
  set : h.now.store.marks.set.toNat = n

variable {h : History} {a : Attempt} {n : ℕ}

/-- There are no more changes than operations. -/
theorem changes_le_length (h : History) (as : List Attempt) : h.changes as ≤ as.length := by
  induction as generalizing h with
  | nil => exact Nat.le_refl 0
  | cons a as ih =>
    have hrest := ih (h.attempt a)
    rw [changes, List.length_cons]
    split <;> omega

theorem attempt_now : (h.attempt a).now = ((h.now.failing a.fails).perform a.command).2 := rfl

theorem attempt_of_write
    (hwrite : ((h.now.failing a.fails).perform a.command).1 = .saved true) :
    (h.attempt a).saved? = some (h.now.failing a.fails) := by
  simp only [attempt, hwrite, StoreReply.isWrite, if_true]

theorem attempt_of_ne_write
    (hwrite : ((h.now.failing a.fails).perform a.command).1 ≠ .saved true) :
    (h.attempt a).saved? = h.saved? := by
  have hreply : ((h.now.failing a.fails).perform a.command).1.isWrite = false := by
    unfold StoreReply.isWrite
    split
    · rename_i heq
      exact absurd heq hwrite
    · rfl
  simp only [attempt, hreply, if_neg Bool.false_ne_true]

theorem since_of_saved? {h h' : History} (hsaved : h'.saved? = h.saved?) : h'.since = h.since := by
  unfold since
  rw [hsaved]

/-- **An operation keeps track of the last write.** -/
theorem Tracked.attempt (tracked : h.Tracked n) (a : Attempt)
    (room : n + h.changes [a] < 2 ^ 64) :
    (h.attempt a).Tracked (n + h.changes [a]) ∧
      h.now.store.marks.set ≤ (h.attempt a).now.store.marks.set := by
  have hnat : (h.attempt a).now.store.marks.set.toNat = n + h.changes [a] := by
    rw [← tracked.set] at room ⊢
    exact (h.now.failing a.fails).perform_set_toNat a.command room
  have hset : h.now.store.marks.set ≤ (h.attempt a).now.store.marks.set := by
    rw [UInt64.le_iff_toNat_le, hnat, tracked.set]
    exact Nat.le_add_right _ _
  -- all but a save that is answered with a write leave both the write mark and the last save
  have hkept : (h.attempt a).now.store.marks.write = h.now.store.marks.write →
      (h.attempt a).saved? = h.saved? → (h.attempt a).Tracked (n + h.changes [a]) := by
    intro hwrite hsaved
    have hsince := since_of_saved? hsaved
    refine ⟨hwrite.trans (tracked.write.trans hsince.symm), ?_, hnat⟩
    rw [hsince]
    exact UInt64.le_trans tracked.since_le hset
  refine ⟨?_, hset⟩
  by_cases hsave : a.command = .save
  · by_cases hreply : ((h.now.failing a.fails).perform a.command).1 = .saved true
    · have hsaved := attempt_of_write hreply
      rw [hsave, Workspace.save_wrote_iff] at hreply
      obtain ⟨bytes, handed, hok⟩ := hreply
      have hnow : (h.attempt a).now.store =
          { h.now.store with marks.write := h.now.store.marks.set } := by
        rw [attempt_now, hsave, Workspace.perform_save_of_written handed (Prod.ext hok rfl)]
        rfl
      have hsince : (h.attempt a).since = h.now.store.marks.set := by
        unfold since
        rw [hsaved]
        rfl
      refine ⟨?_, ?_, hnat⟩
      · rw [hnow, hsince]
      · rw [hnow, hsince]
        exact UInt64.le_refl _
    · refine hkept ?_ (attempt_of_ne_write hreply)
      rw [attempt_now]
      rw [hsave] at hreply ⊢
      exact congrArg (·.marks.write) (Workspace.save_unwritten_keeps hreply).1
  · obtain ⟨-, hwrite, hreply⟩ := (h.now.failing a.fails).perform_of_ne_save hsave
    exact hkept hwrite (attempt_of_ne_write (hreply true))

/-- **A run keeps track of the last write.** -/
theorem Tracked.after (tracked : h.Tracked n) (as : List Attempt)
    (room : n + h.changes as < 2 ^ 64) :
    (h.after as).Tracked (n + h.changes as) ∧
      h.now.store.marks.set ≤ (h.after as).now.store.marks.set := by
  induction as generalizing h n with
  | nil => exact ⟨tracked, UInt64.le_refl _⟩
  | cons a as ih =>
    have hsplit : n + h.changes (a :: as) = n + h.changes [a] + (h.attempt a).changes as := by
      simp only [changes]
      omega
    rw [hsplit] at room ⊢
    obtain ⟨hstep, hle⟩ := tracked.attempt a (by omega)
    obtain ⟨hrest, hle'⟩ := ih hstep room
    exact ⟨hrest, UInt64.le_trans hle hle'⟩

theorem after_location (h : History) (as : List Attempt) :
    (h.after as).now.store.location = h.now.store.location := by
  induction as generalizing h with
  | nil => rfl
  | cons a as ih =>
    have hstep : (h.attempt a).now.store.location = h.now.store.location :=
      ((h.now.failing a.fails).perform_sameHome a.command).location
    exact (ih (h.attempt a)).trans hstep

/-- **An operation leaves on a memory medium what was last saved.** -/
theorem Holds.attempt {initial? : Option Bytes} (holds : h.Holds initial?)
    (memory : h.now.store.location = .memory) (a : Attempt) : (h.attempt a).Holds initial? := by
  by_cases hreply : ((h.now.failing a.fails).perform a.command).1 = .saved true
  · have hsave : a.command = .save := by
      by_contra hother
      exact ((h.now.failing a.fails).perform_of_ne_save hother).2.2 true hreply
    have hsaved := attempt_of_write hreply
    rw [hsave, Workspace.save_wrote_iff] at hreply
    obtain ⟨bytes, handed, hok⟩ := hreply
    obtain ⟨-, -, hencoded⟩ := Store.handed?_eq_some_iff.mp handed
    unfold Holds
    rw [hsaved]
    refine ⟨bytes, Store.encode_of_encoded hencoded, ?_⟩
    rw [attempt_now, hsave, Workspace.perform_save_of_written handed (Prod.ext hok rfl)]
    exact Media.contents?_of_write memory (Prod.ext hok rfl)
  · have hcontents : (h.attempt a).now.media.memory.contents? = h.now.media.memory.contents? := by
      rw [attempt_now]
      by_cases hsave : a.command = .save
      · rw [hsave] at hreply ⊢
        exact congrArg (·.contents?) (Workspace.save_unwritten_keeps hreply).2
      · rw [((h.now.failing a.fails).perform_of_ne_save hsave).1]
        rfl
    unfold Holds
    rw [attempt_of_ne_write hreply, hcontents]
    exact holds

/-- **A run leaves on a memory medium what was last saved.** -/
theorem Holds.after {initial? : Option Bytes} (holds : h.Holds initial?)
    (memory : h.now.store.location = .memory) (as : List Attempt) : (h.after as).Holds initial? := by
  induction as generalizing h with
  | nil => exact holds
  | cons a as ih =>
    have hlocation := h.after_location [a]
    exact ih (holds.attempt memory a) (hlocation.trans memory)

end History

namespace Workspace

variable {w : Workspace}

/-! ### The save -/

/-- How an open store is saved that was last written, or opened, with the set mark `since`. -/
structure GatedSave (w : Workspace) (since : UInt64) : Prop where
  /-- It hands bytes to the medium exactly if the set mark has moved, unless there are too many
  to be sealed. -/
  hands_iff : (w.store.handed? w.nonces.next.1).isSome ↔
    w.store.marks.set ≠ since ∧ w.store.encoding.HasRoom w.store.entries
  /-- These are the entries as they are, and the medium is asked to write them, -/
  handed : ∀ bytes, w.store.handed? w.nonces.next.1 = some bytes →
    w.store.encoding.encode w.nonces.next.1 w.store.entries = .ok bytes ∧
      (w.perform .save).2.media = (w.media.write w.store.location bytes).2
  /-- and without any it is left alone. -/
  spared : w.store.handed? w.nonces.next.1 = none → (w.perform .save).2.media = w.media
  wrote_iff : (w.perform .save).1 = .saved true ↔
    ∃ bytes, w.store.handed? w.nonces.next.1 = some bytes ∧
      (w.media.write w.store.location bytes).1 = .ok ()
  idle_iff : (w.perform .save).1 = .saved false ↔ w.store.marks.set = since

theorem gatedSave {since : UInt64} (hopen : w.store.closed = false)
    (write : w.store.marks.write = since) (since_le : since ≤ w.store.marks.set) :
    w.GatedSave since := by
  have hmoved : w.store.marks.write < w.store.marks.set ↔ w.store.marks.set ≠ since := by
    rw [write]
    exact ⟨fun hlt => (UInt64.ne_of_lt hlt).symm,
      fun hne => UInt64.lt_of_le_of_ne since_le hne.symm⟩
  refine ⟨?_, fun bytes handed => ⟨?_, ?_⟩, fun spared => ?_, save_wrote_iff, ?_⟩
  · rw [Store.handed?_isSome_iff, hmoved]
    exact ⟨fun h => h.2, fun h => ⟨hopen, h⟩⟩
  · exact Store.encode_of_encoded (Store.handed?_eq_some_iff.mp handed).2.2
  · rcases hwrite : w.media.write w.store.location bytes with ⟨e | _, media⟩
    · rw [perform_save_of_failed handed hwrite]
    · rw [perform_save_of_written handed hwrite]
  · rw [(perform_save_of_spared spared).1]
  · cases handed : w.store.handed? w.nonces.next.1 with
    | none =>
      rcases (perform_save_of_spared handed).2 with ⟨hreply, clean⟩ | ⟨e, hreply, hclosed | dirty⟩
      · simp only [hreply, true_iff]
        exact UInt64.le_antisymm (write ▸ clean) since_le
      · rw [hopen] at hclosed
        cases hclosed
      · simp only [hreply, reduceCtorEq, false_iff]
        exact hmoved.mp dirty
    | some bytes =>
      have dirty := (Store.handed?_eq_some_iff.mp handed).2.1
      have hne := hmoved.mp dirty
      rcases hwrite : w.media.write w.store.location bytes with ⟨e | _, media⟩
      · simp [perform_save_of_failed handed hwrite, hne]
      · simp [perform_save_of_written handed hwrite, hne]

/-- A store that was just opened was never written, and its memory medium holds what it did. -/
theorem tracked_of_opened {o : OpenOptions} {env : Environment} {media : Media}
    {nonces : NonceSupply} (opened : Workspace.opened o env media nonces = .ok w) :
    History.Tracked 0 { now := w } ∧ History.Holds { now := w } media.memory.contents? ∧
      (o.inMemory = true → w.store.location = .memory) := by
  obtain ⟨location, stored?, hlocation, -, rfl⟩ := eq_of_opened opened
  refine ⟨⟨rfl, UInt64.le_refl _, rfl⟩, rfl, fun memory => ?_⟩
  rw [OpenOptions.location, if_pos memory] at hlocation
  cases hlocation
  rfl

/-- **Saves are gated by the set mark, and a failed one is made up for.** After any operations on
a store that was opened, whichever of them found the memory medium failing: that medium holds
what it held at first or the entries as they were when last saved; a save of the store, if it is
open, writes exactly if the set mark has moved since; a save that is refused leaves store and
memory medium as they were; and then the next save that finds its medium working writes the
entries as they are by that time. -/
theorem saves_gated {o : OpenOptions} {env : Environment} {media : Media} {nonces : NonceSupply}
    {w₀ : Workspace} (opened : Workspace.opened o env media nonces = .ok w₀) (as : List Attempt)
    (fails : Bool) :
    let h := History.after { now := w₀ } as
    let w := h.now.failing fails
    (o.inMemory = true → h.Holds media.memory.contents?) ∧
    (w.store.closed = false → History.changes { now := w₀ } as < 2 ^ 64 → w.GatedSave h.since) ∧
    ∀ e, (w.perform .save).1 = .refused e →
      (w.perform .save).2.store = w.store ∧
      (w.perform .save).2.media.memory = w.media.memory ∧
      (w.store.closed = false → (w.perform .save).2.store.isDirty = true ∧
        ∀ rest fails',
          History.changes { now := w₀ } as + h.changes (⟨fails, .save⟩ :: rest) < 2 ^ 64 →
          let h' := h.after (⟨fails, .save⟩ :: rest)
          let w' := h'.now.failing fails'
          h'.saved? = h.saved? → w'.store.closed = false →
          w'.store.encoding.HasRoom w'.store.entries →
          (∀ bytes, (w'.media.write w'.store.location bytes).1 = .ok ()) →
          (w'.perform .save).1 = .saved true ∧
          ∃ bytes, w'.store.encoding.encode w'.nonces.next.1 w'.store.entries = .ok bytes ∧
            (w'.perform .save).2.media = (w'.media.write w'.store.location bytes).2) := by
  intro h w
  obtain ⟨tracked₀, holds₀, hmemory⟩ := tracked_of_opened opened
  have htracked : History.changes { now := w₀ } as < 2 ^ 64 →
      h.Tracked (History.changes { now := w₀ } as) := by
    intro few
    have hrun := (tracked₀.after as (by omega)).1
    rwa [Nat.zero_add] at hrun
  refine ⟨fun memory => holds₀.after (hmemory memory) as, fun hopen few => ?_, fun e refused => ?_⟩
  · exact gatedSave hopen (htracked few).write (htracked few).since_le
  have unwritten : (w.perform .save).1 ≠ .saved true := by
    rw [refused]
    exact nofun
  obtain ⟨hstore, hmedium⟩ := save_unwritten_keeps unwritten
  refine ⟨hstore, hmedium, fun hopen => ?_⟩
  have dirty := dirty_of_save_refused hopen refused
  constructor
  · rw [hstore, Store.isDirty, DirtyMarks.isClean, decide_eq_false (UInt64.not_le.mpr dirty)]
    rfl
  intro rest fails' room h' w' hsaved hopen' hasRoom working
  have tracked := htracked (by omega)
  obtain ⟨tracked', hle⟩ := tracked.after (⟨fails, .save⟩ :: rest) room
  have gated' : w'.GatedSave h'.since := gatedSave hopen' tracked'.write tracked'.since_le
  have moved' : w'.store.marks.set ≠ h'.since := by
    have hsince : h'.since = w.store.marks.write :=
      (History.since_of_saved? hsaved).trans tracked.write.symm
    have hle : w.store.marks.set ≤ w'.store.marks.set := hle
    rw [hsince]
    exact (UInt64.ne_of_lt (UInt64.lt_of_lt_of_le dirty hle)).symm
  obtain ⟨bytes, handed⟩ := Option.isSome_iff_exists.mp (gated'.hands_iff.mpr ⟨moved', hasRoom⟩)
  obtain ⟨hencode, hmedia⟩ := gated'.handed bytes handed
  exact ⟨gated'.wrote_iff.mpr ⟨bytes, handed, working bytes⟩, bytes, hencode, hmedia⟩

/-- A save fails, the entry is changed, and the next save writes the changed entry. -/
theorem saves_gated_failed_then_saved :
    let once := History.after { now := blank } [⟨false, .putValue "k" (.int 1)⟩]
    let twice := once.after [⟨true, .save⟩, ⟨true, .putValue "k" (.int 2)⟩]
    Workspace.opened { address := .named "s", inMemory := true } {} blank.media {} = .ok blank ∧
      (once.now.failing true).GatedSave 0 ∧
      ((once.now.failing true).perform .save).1 = .refused (.medium .memory .injected) ∧
      twice.Holds none ∧ twice.now.media.memory.writes = 0 ∧
      ((twice.now.failing false).perform .save).1 = .saved true ∧
      ((twice.now.failing false).perform .save).2.media.memory.contents? =
        some (Encoding.documentText .plain (SortedMap.empty.insert "k" (.int 2))) := by
  intro once twice
  have opened : Workspace.opened { address := .named "s", inMemory := true } {} blank.media {} =
      .ok blank := rfl
  have few : ∀ h : History, ∀ as : List Attempt, as.length ≤ 3 → h.changes as ≤ 3 :=
    fun h as hlength => Nat.le_trans (h.changes_le_length as) hlength
  have refused : ((once.now.failing true).perform .save).1 =
      .refused (.medium .memory .injected) := rfl
  obtain ⟨-, hgated, hrefused⟩ := saves_gated opened [⟨false, .putValue "k" (.int 1)⟩] true
  obtain ⟨-, -, hretry⟩ := hrefused _ refused
  obtain ⟨holds, -, -⟩ := saves_gated opened [⟨false, .putValue "k" (.int 1)⟩, ⟨true, .save⟩,
    ⟨true, .putValue "k" (.int 2)⟩] false
  have hfew := few { now := blank } [⟨false, .putValue "k" (.int 1)⟩] (by decide)
  have hroom := few once [⟨true, .save⟩, ⟨true, .putValue "k" (.int 2)⟩] (by decide)
  obtain ⟨hsaved, bytes, hencode, hmedia⟩ := (hretry rfl).2 [⟨true, .putValue "k" (.int 2)⟩] false
    (Nat.lt_of_le_of_lt (Nat.add_le_add hfew hroom) (by decide)) rfl rfl (.inl rfl)
    (fun _ => rfl)
  refine ⟨opened, hgated rfl (Nat.lt_of_le_of_lt hfew (by decide)), refused, holds rfl, rfl,
    hsaved, ?_⟩
  rw [hmedia]
  cases hencode
  rfl

end Workspace
end TypedConfig
