/-
# The set mark counts what changed

Whatever is done to a store, the set mark goes up by one if the entries are then written
differently or were cleared, and stands otherwise (`Workspace.perform_set`). So over any
run it goes up by as many as there were such operations (`Workspace.run_set`); an
operation that is refused is none of them, and opening a store is none either
(`Workspace.marks_count_changes`).

The mark is a word of 64 bits and counts on from zero after the last of them.

Key definitions: `Workspace.isCounted`, `Workspace.changes`.
Key theorems: `Workspace.perform_countsExactly`, `Workspace.perform_set`,
`Workspace.run_set`, `Workspace.marks_count_changes`.
-/
import Mathlib
import TypedConfig.Proofs.Store.Counting
import TypedConfig.Proofs.Store.Frame
import TypedConfig.Proofs.Store.Reopening

namespace TypedConfig

namespace Workspace

variable {w : Workspace}

/-! ### One operation -/

/-- A change of the store counts exactly, and one that is refused counts nothing. -/
theorem settled_countsExactly {α : Type} (w : Workspace) (reply : α → StoreReply)
    {r : Except StoreError (α × Store)}
    (h : ∀ a store, r = .ok (a, store) → ∃ counted, w.store.CountsExactly counted store) :
    ∃ counted, w.store.CountsExactly counted (w.settled reply r).2.store :=
  settled_store (P := fun s => ∃ counted, w.store.CountsExactly counted s) ⟨false, .refl _⟩ h

/-- Saving and clearing apart, an operation counts a change exactly if the entries are then
written differently. -/
theorem perform_countsExactly (w : Workspace) {c : StoreCommand} (hsave : c ≠ .save)
    (hclear : c ≠ .clear) : ∃ counted, w.store.CountsExactly counted (w.perform c).2.store := by
  cases c with
  | get t key default => exact w.store.get_countsExactly t key default
  | put t key v =>
    exact w.settled_countsExactly _ fun changed _ h => ⟨changed, Store.putValue_countsExactly h⟩
  | putValue key value =>
    exact w.settled_countsExactly _ fun changed _ h => ⟨changed, Store.putValue_countsExactly h⟩
  | remove key =>
    exact w.settled_countsExactly _ fun value? _ h =>
      ⟨value?.isSome, Store.remove_countsExactly h⟩
  | clear => exact absurd rfl hclear
  | save => exact absurd rfl hsave
  | close => exact ⟨false, .of_same rfl rfl rfl⟩
  | setAutoPopulate on => exact ⟨false, .of_same rfl rfl rfl⟩
  | setEnumCache on => exact ⟨false, .of_same rfl rfl rfl⟩

/-- A save leaves the entries and the set mark alone, however it ends. -/
theorem save_keeps (w : Workspace) :
    (w.perform .save).2.store.entries = w.store.entries ∧
      (w.perform .save).2.store.marks.set = w.store.marks.set := by
  rw [perform_save]
  simp only [save]
  rcases hsave : w.store.save w.nonces.next.1 w.media with ⟨result, store, media⟩
  cases w.store.saveEnd w.nonces.next.1 w.media hsave <;> exact ⟨rfl, rfl⟩

/-- A change of the store that is refused leaves the workspace alone. -/
theorem settled_of_refused {α : Type} {reply : α → StoreReply} {r : Except StoreError (α × Store)}
    {e : StoreError} (hreply : ∀ a, reply a ≠ .refused e)
    (h : (w.settled reply r).1 = .refused e) : (w.settled reply r).2 = w := by
  cases r with
  | error e' => rfl
  | ok p => exact absurd h (hreply p.1)

/-- A refused operation leaves the entries and the set mark alone. -/
theorem refused_keeps {c : StoreCommand} {e : StoreError} (h : (w.perform c).1 = .refused e) :
    (w.perform c).2.store.entries = w.store.entries ∧
      (w.perform c).2.store.marks.set = w.store.marks.set := by
  have hkeeps : (w.perform c).2 = w → (w.perform c).2.store.entries = w.store.entries ∧
      (w.perform c).2.store.marks.set = w.store.marks.set := by
    intro hsame
    rw [hsame]
    exact ⟨rfl, rfl⟩
  cases c with
  | get t key default => cases h
  | put t key v => exact hkeeps (settled_of_refused nofun h)
  | putValue key value => exact hkeeps (settled_of_refused nofun h)
  | remove key => exact hkeeps (settled_of_refused nofun h)
  | clear => exact hkeeps (settled_of_refused nofun h)
  | save => exact w.save_keeps
  | close => cases h
  | setAutoPopulate on => cases h
  | setEnumCache on => cases h

/-- Clearing an open store leaves nothing and counts a change. -/
theorem perform_clear (w : Workspace) : w.perform .clear =
    if w.store.closed then (.refused .closed, w)
    else (.cleared, { w with store.entries := .empty, store.marks := w.store.marks.markDirty }) := by
  simp only [perform, Store.clear]
  split <;> rfl

/-- Whether an operation counts: it clears the store, or the entries are then written
differently. -/
def isCounted (w : Workspace) : StoreCommand → Bool
  | .clear => !w.store.closed
  | c => decide (¬ w.store.entries.WrittenAlike (w.perform c).2.store.entries)

theorem isCounted_of_ne_clear (w : Workspace) {c : StoreCommand} (hclear : c ≠ .clear) :
    w.isCounted c = true ↔ ¬ w.store.entries.WrittenAlike (w.perform c).2.store.entries := by
  have hdecide : w.isCounted c =
      decide (¬ w.store.entries.WrittenAlike (w.perform c).2.store.entries) := by
    cases c <;> first | rfl | exact absurd rfl hclear
  rw [hdecide, decide_eq_true_iff]

/-- **An operation counts up the set mark by one, or leaves it.** -/
theorem perform_set (w : Workspace) (c : StoreCommand) :
    (w.perform c).2.store.marks.set =
      w.store.marks.set + if w.isCounted c then 1 else 0 := by
  by_cases hclear : c = .clear
  · subst hclear
    rw [perform_clear, isCounted]
    cases w.store.closed with
    | true => exact (UInt64.add_zero _).symm
    | false => rfl
  have hcounted := w.isCounted_of_ne_clear hclear
  by_cases hsave : c = .save
  · subst hsave
    -- a save moves the write mark, which `CountsExactly` does not allow
    obtain ⟨hentries, hset⟩ := w.save_keeps
    rw [hentries] at hcounted
    rw [hset, if_neg fun h => hcounted.mp h (.refl _), UInt64.add_zero]
  · obtain ⟨counted, exactly⟩ := w.perform_countsExactly hsave hclear
    cases counted with
    | true =>
      rw [exactly.marks, if_pos (hcounted.mpr (exactly.differ rfl))]
      rfl
    | false =>
      rw [exactly.marks, if_neg fun h => hcounted.mp h (exactly.alike rfl),
        if_neg Bool.false_ne_true, UInt64.add_zero]

/-! ### Opening -/

/-- What is opened is the store that its seed and its medium make, on the same media. -/
theorem eq_of_opened {o : OpenOptions} {env : Environment} {media : Media} {nonces : NonceSupply}
    (h : Workspace.opened o env media nonces = .ok w) :
    ∃ location stored?, o.location env = .ok location ∧ media.read location = .ok stored? ∧
      w = { store := Store.load o location stored?, media, nonces } := by
  cases hlocation : o.location env with
  | error e =>
    simp only [opened, Store.opened, hlocation, Except.map] at h
    cases h
  | ok location =>
    cases hread : media.read location with
    | error e =>
      simp only [opened, Store.opened, hlocation, hread, Except.map] at h
      cases h
    | ok stored? =>
      simp only [opened, Store.opened, hlocation, hread, Except.map] at h
      cases h
      exact ⟨location, stored?, rfl, hread, rfl⟩

/-! ### Runs -/

/-- How many of the operations count. -/
def changes (w : Workspace) : List StoreCommand → ℕ
  | [] => 0
  | c :: cs => (if w.isCounted c then 1 else 0) + (w.perform c).2.changes cs

/-- **Over a run the set mark goes up by the number of changes.** -/
theorem run_set (w : Workspace) (cs : List StoreCommand) :
    (w.run cs).2.store.marks.set = w.store.marks.set + UInt64.ofNat (w.changes cs) := by
  induction cs generalizing w with
  | nil => exact (UInt64.add_zero _).symm
  | cons c cs ih =>
    have hrest : (w.run (c :: cs)).2 = ((w.perform c).2.run cs).2 := rfl
    rw [hrest, ih, perform_set, changes, UInt64.ofNat_add, UInt64.add_assoc]
    split <;> rfl

/-- **The set mark counts the changes to what is written.** An operation other than clearing
counts it up by one if the entries then have another persisted form, and leaves it if they have
the same; clearing counts and leaves no entry; a refused operation leaves entries and set mark
alone. Both marks are zero when a store is opened, so after a run the set mark is the number of
its changes. -/
theorem marks_count_changes (w : Workspace) :
    (∀ c, c ≠ .clear →
      ((w.perform c).2.store.entries.persisted ≠ w.store.entries.persisted →
        (w.perform c).2.store.marks.set = w.store.marks.set + 1) ∧
      ((w.perform c).2.store.entries.persisted = w.store.entries.persisted →
        (w.perform c).2.store.marks.set = w.store.marks.set)) ∧
    ((w.perform .clear).1 = .cleared →
      (w.perform .clear).2.store.marks.set = w.store.marks.set + 1 ∧
      (w.perform .clear).2.store.entries = SortedMap.empty) ∧
    (∀ c e, (w.perform c).1 = .refused e →
      (w.perform c).2.store.entries = w.store.entries ∧
      (w.perform c).2.store.marks.set = w.store.marks.set) ∧
    (∀ o env media nonces, Workspace.opened o env media nonces = .ok w →
      w.store.marks = {} ∧
      ∀ cs, (w.run cs).2.store.marks.set.toNat = w.changes cs % 2 ^ 64) := by
  refine ⟨fun c hclear => ?_, fun hcleared => ?_, fun c e => refused_keeps, ?_⟩
  · have hset := w.perform_set c
    have hcounted : w.isCounted c = true ↔
        (w.perform c).2.store.entries.persisted ≠ w.store.entries.persisted := by
      rw [w.isCounted_of_ne_clear hclear, Document.writtenAlike_iff, ne_comm]
    constructor
    · intro hdiffer
      rw [hset, if_pos (hcounted.mpr hdiffer)]
    · intro hsame
      rw [hset, if_neg (mt hcounted.mp (not_not_intro hsame)), UInt64.add_zero]
  · rw [perform_clear] at hcleared ⊢
    split at hcleared
    · cases hcleared
    · rename_i hopen
      rw [if_neg hopen]
      exact ⟨rfl, rfl⟩
  · intro o env media nonces hopened
    have hmarks : w.store.marks = {} := by
      obtain ⟨location, stored?, -, -, rfl⟩ := eq_of_opened hopened
      rfl
    refine ⟨hmarks, fun cs => ?_⟩
    rw [run_set, hmarks]
    show (0 + UInt64.ofNat (w.changes cs)).toNat = w.changes cs % 2 ^ 64
    rw [UInt64.zero_add, UInt64.toNat_ofNat']

/-- In a store that was just opened, a first entry counts, the same again does not, an empty key
is refused, and clearing counts once more. -/
theorem marks_count_changes_twice :
    let once := (blank.perform (.putValue "k" (.int 1))).2
    Workspace.opened { address := .named "s", inMemory := true } {} blank.media {} = .ok blank ∧
      blank.store.marks = {} ∧
      once.store.marks.set = blank.store.marks.set + 1 ∧
      (once.perform (.putValue "k" (.int 1))).2.store.marks.set = once.store.marks.set ∧
      (once.perform (.remove "")).2.store.marks.set = once.store.marks.set ∧
      (once.perform .clear).2.store.marks.set = once.store.marks.set + 1 ∧
      (blank.run [.putValue "k" (.int 1), .putValue "k" (.int 1), .clear]).2.store.marks.set.toNat =
        2 := by
  intro once
  have hopened : Workspace.opened { address := .named "s", inMemory := true } {} blank.media {} =
      .ok blank := rfl
  obtain ⟨hblank, -, -, hopen⟩ := marks_count_changes blank
  obtain ⟨honce, hclear, hrefused, -⟩ := marks_count_changes once
  have hnew : once.store.entries.persisted ≠ blank.store.entries.persisted := by
    intro h
    have hkeys := congrArg (fun d : Document => d.get? "k") h
    exact Option.some_ne_none _ hkeys
  obtain ⟨hmarks, hrun⟩ := hopen _ _ _ _ hopened
  exact ⟨hopened, hmarks, (hblank (.putValue "k" (.int 1)) nofun).1 hnew,
    (honce (.putValue "k" (.int 1)) nofun).2 rfl, (hrefused (.remove "") .emptyKey rfl).2,
    (hclear rfl).1, hrun _⟩

end Workspace
end TypedConfig
