/-
# Reading again

A read of an open store answers what the entry reads as at the type, and if it
reads as nothing, the default. With the store populating itself, the default is then
the entry, so either way the entry reads as what was answered (`Store.reads_get`).
From there on every further read at the type answers the same, whatever its default,
and leaves the document written as it was (`Store.Answers.reread`).

Key definitions: `Store.Reads`, `Store.Answers`, `Reread`.
Key theorems: `Store.get_of_reads`, `Store.get_of_not_reads`, `Store.reads_get`,
`Store.Answers.perform`, `Store.Answers.run`, `Workspace.reading_settles`.
-/
import Mathlib
import TypedConfig.Proofs.Store.Admission
import TypedConfig.Proofs.Value.Equality

namespace TypedConfig
namespace Store

variable {s : Store} {t : SettingType} {key : String} {v : t.Val}

/-! ### What an entry reads as -/

/-- The entry of a key is there, and reads at the type as `v`. -/
def Reads (s : Store) (t : SettingType) (key : String) (v : t.Val) : Prop :=
  ∃ entry, s.get? key = some entry ∧ t.fromValue entry = .ok v

/-- **A read answers what the entry reads as**, and may keep its resolved form. -/
theorem get_of_reads (hkey : key ≠ "") (hopen : s.closed = false) {entry : Value}
    (hentry : s.get? key = some entry) (hread : t.fromValue entry = .ok v) (default : t.Val) :
    s.get t key default =
      (v, if s.enumCache then s.cacheResolved key entry (t.toCachedValue v) else s) := by
  unfold get
  rw [if_neg (by simp [hkey, hopen])]
  simp only [hentry, hread]

/-- **Where the entry reads as nothing, a read answers the default**, and may store it. -/
theorem get_of_not_reads (hkey : key ≠ "") (hopen : s.closed = false)
    (h : ∀ v, ¬ s.Reads t key v) (default : t.Val) :
    s.get t key default =
      (default, if s.autoPopulate then s.populate t key (s.get? key) default else s) := by
  unfold get
  rw [if_neg (by simp [hkey, hopen])]
  cases hentry : s.get? key with
  | none => rfl
  | some entry =>
    cases hread : t.fromValue entry with
    | ok v => exact absurd ⟨entry, hentry, hread⟩ (h v)
    | error e => simp only [hread]

/-- A store that no other thread has touched still has what a read found. -/
theorem isStill_get? (finite : s.entries.AllFinite) (key : String) :
    s.isStill key (s.get? key) = true := by
  unfold isStill
  cases hentry : s.get? key with
  | none => rfl
  | some entry =>
    have hfinite : entry.AllFinite := Document.allFinite_iff.mp finite key entry hentry
    exact Value.isEqual_self hfinite.allNumbers

/-- A default that can be written is stored, and reads as itself. -/
theorem reads_populate (finite : s.entries.AllFinite) {default : t.Val}
    (persistable : (t.toValue default).checkPersistable = .ok ()) :
    (s.populate t key (s.get? key) default).Reads t key default := by
  have hcheck : (s.memoryForm t default).isPersistable = true := by
    rw [Value.isPersistable_iff, checkPersistable_memoryForm]
    exact persistable
  refine ⟨s.memoryForm t default, ?_, ?_⟩
  · simp only [populate]
    rw [if_pos ⟨hcheck, isStill_get? finite key⟩, get?_setEntry, if_pos rfl]
  · exact SettingType.fromValue_eq_of_written (s.memoryForm_persisted t default)
      (Value.allFinite_of_checkPersistable _ persistable)

/-- The resolved form of what was read reads as the same. -/
theorem reads_cacheResolved {entry : Value} (hentry : s.get? key = some entry)
    (hread : t.fromValue entry = .ok v) :
    (s.cacheResolved key entry (t.toCachedValue v)).Reads t key v := by
  unfold cacheResolved
  split
  · rename_i hkeep
    -- what is resolved are constants, so there is no float that may come back as another one
    have hfinite := t.allFinite_of_isNamed (t.isNamed_of_holdsConstant v hkeep.1) v
    refine ⟨t.toCachedValue v, SortedMap.get?_insert_self _ _ _, ?_⟩
    exact SettingType.fromValue_eq_of_written (t.toCachedValue_persisted v) hfinite
  · exact ⟨entry, hentry, hread⟩

/-- **After a read of a store that populates itself, the entry reads as what was answered.** -/
theorem reads_get (finite : s.entries.AllFinite) (hkey : key ≠ "") (hopen : s.closed = false)
    (populates : s.autoPopulate = true) {default : t.Val}
    (persistable : (t.toValue default).checkPersistable = .ok ()) :
    (s.get t key default).2.Reads t key (s.get t key default).1 := by
  by_cases h : ∃ v, s.Reads t key v
  · obtain ⟨v, entry, hentry, hread⟩ := h
    rw [get_of_reads hkey hopen hentry hread]
    dsimp only
    split
    · exact reads_cacheResolved hentry hread
    · exact ⟨entry, hentry, hread⟩
  · rw [get_of_not_reads hkey hopen (not_exists.mp h), if_pos populates]
    exact reads_populate finite persistable

/-! ### What a read leaves alone -/

theorem get_closed (s : Store) (t : SettingType) (key : String) (default : t.Val) :
    (s.get t key default).2.closed = s.closed := by
  rcases s.get_cases t key default with h | ⟨found?, -, -, h⟩ | ⟨found, v, h⟩ <;> rw [h]
  · simp only [populate]
    split <;> rfl
  · unfold cacheResolved
    split <;> rfl

/-- **A read of a store that does not populate itself is no change.** -/
theorem get_counts_of_not_populating (s : Store) (t : SettingType) (key : String)
    (default : t.Val) (h : s.autoPopulate = false) :
    s.Counts false (s.get t key default).2 := by
  rcases s.get_cases t key default with heq | ⟨found?, -, hpopulates, -⟩ | ⟨found, v, heq⟩
  · rw [heq]
    exact (CountsExactly.refl s).toCounts
  · rw [h] at hpopulates
    cases hpopulates
  · rw [heq]
    exact s.cacheResolved_counts t key v found

/-- A read of what the entry reads as is no change. -/
theorem get_counts_of_reads (hkey : key ≠ "") (hopen : s.closed = false) (h : s.Reads t key v)
    (default : t.Val) : s.Counts false (s.get t key default).2 := by
  obtain ⟨entry, hentry, hread⟩ := h
  rw [get_of_reads hkey hopen hentry hread]
  dsimp only
  split
  · exact s.cacheResolved_counts t key v entry
  · exact (CountsExactly.refl s).toCounts

/-! ### Further reads -/

/-- An open store with finite entries, in which the entry of a key reads as `v`. -/
structure Answers (s : Store) (t : SettingType) (key : String) (v : t.Val) : Prop where
  isOpen : s.closed = false
  finite : s.entries.AllFinite
  reads : s.Reads t key v

/-- A read answers, and leaves a store that answers the same. -/
theorem Answers.get (h : s.Answers t key v) (hkey : key ≠ "") (default : t.Val) :
    (s.get t key default).1 = v ∧ (s.get t key default).2.Answers t key v ∧
      s.Counts false (s.get t key default).2 := by
  obtain ⟨entry, hentry, hread⟩ := h.reads
  have hget := get_of_reads hkey h.isOpen hentry hread default
  refine ⟨congrArg Prod.fst hget, ⟨?_, ?_, ?_⟩, get_counts_of_reads hkey h.isOpen h.reads default⟩
  · rw [get_closed]
    exact h.isOpen
  · exact get_allFinite h.finite t key default
  · rw [hget]
    dsimp only
    split
    · exact reads_cacheResolved hentry hread
    · exact h.reads

end Store

/-- What may be done between two reads of one key at a type: the read itself, with any default,
and switching the cache of constants or the populating on and off. -/
inductive Reread (t : SettingType) where
  | read (default : t.Val)
  | setEnumCache (on : Bool)
  | setAutoPopulate (on : Bool)

namespace Reread

variable {t : SettingType}

/-- The operation on a store. -/
def command (key : String) : Reread t → StoreCommand
  | .read default => .get t key default
  | .setEnumCache on => .setEnumCache on
  | .setAutoPopulate on => .setAutoPopulate on

/-- What it answers where the entry reads as `v`. -/
def answer (v : t.Val) : Reread t → StoreReply
  | .read _ => .typed t v
  | .setEnumCache _ => .nothing
  | .setAutoPopulate _ => .nothing

end Reread

namespace Store.Answers

variable {w : Workspace} {t : SettingType} {key : String} {v : t.Val}

/-- **A further read answers the same**, and leaves marks and document as they were. -/
theorem perform (h : w.store.Answers t key v) (hkey : key ≠ "") (r : Reread t) :
    (w.perform (r.command key)).1 = r.answer v ∧
      (w.perform (r.command key)).2.store.Answers t key v ∧
      w.store.Counts false (w.perform (r.command key)).2.store := by
  cases r with
  | read default =>
    obtain ⟨hanswer, hstays, counts⟩ := h.get hkey default
    exact ⟨congrArg (StoreReply.typed t) hanswer, hstays, counts⟩
  | setEnumCache on =>
    exact ⟨rfl, ⟨h.isOpen, h.finite, h.reads⟩, ⟨rfl, rfl, fun _ => .refl _⟩⟩
  | setAutoPopulate on =>
    exact ⟨rfl, ⟨h.isOpen, h.finite, h.reads⟩, ⟨rfl, rfl, fun _ => .refl _⟩⟩

/-- So do any number of them. -/
theorem run (h : w.store.Answers t key v) (hkey : key ≠ "") (rs : List (Reread t)) :
    (w.run (rs.map (Reread.command key))).1 = rs.map (Reread.answer v) ∧
      (w.run (rs.map (Reread.command key))).2.store.marks = w.store.marks ∧
      w.store.entries.WrittenAlike (w.run (rs.map (Reread.command key))).2.store.entries := by
  induction rs generalizing w with
  | nil => exact ⟨rfl, rfl, .refl _⟩
  | cons r rs ih =>
    obtain ⟨hanswer, hstays, counts⟩ := h.perform hkey r
    obtain ⟨hanswers, hmarks, halike⟩ := ih hstays
    refine ⟨?_, ?_, (counts.alike rfl).trans halike⟩
    · exact congrArg₂ List.cons hanswer hanswers
    · exact hmarks.trans counts.marks

end Store.Answers

namespace Workspace

variable {w₀ w : Workspace}

/-- **Reading settles what is read.** Take a store that was opened and worked on in any way, and
read a key of it at a type. If it is open and populates itself and the default can be written, the
entry then reads at the type as what was answered; and however often the key is read again at the
type, with any defaults and the cache of constants on or off, the answer is the same, and neither
a mark nor the way an entry is written changes. If the store does not populate itself, no read
changes any of these. -/
theorem reading_settles {o : OpenOptions} {env : Environment} {media : Media}
    {nonces : NonceSupply} (opened : Workspace.opened o env media nonces = .ok w₀)
    (cs : List StoreCommand) (ran : (w₀.run cs).2 = w) :
    (w.store.autoPopulate = true → ∀ (t : SettingType) (key : String) (default : t.Val),
      key ≠ "" → w.store.closed = false → (t.toValue default).checkPersistable = .ok () →
      ∃ v w', w.perform (.get t key default) = (.typed t v, w') ∧
        (∃ entry, w'.store.get? key = some entry ∧ t.fromValue entry = .ok v) ∧
        ∀ rs : List (Reread t),
          (w'.run (rs.map (Reread.command key))).1 = rs.map (Reread.answer v) ∧
          (w'.run (rs.map (Reread.command key))).2.store.marks = w'.store.marks ∧
          w'.store.entries.WrittenAlike
            (w'.run (rs.map (Reread.command key))).2.store.entries) ∧
    (w.store.autoPopulate = false → ∀ (t : SettingType) (key : String) (default : t.Val),
      (w.perform (.get t key default)).2.store.marks = w.store.marks ∧
        w.store.entries.WrittenAlike (w.perform (.get t key default)).2.store.entries) := by
  have finite : w.store.entries.AllFinite := ran ▸ run_allFinite opened cs
  refine ⟨?populating, ?still⟩
  case populating =>
    intro populates t key default hkey hopen persistable
    have reads := Store.reads_get finite hkey hopen populates persistable
    have answers : (w.store.get t key default).2.Answers t key (w.store.get t key default).1 :=
      ⟨(w.store.get_closed t key default).trans hopen,
        Store.get_allFinite finite t key default, reads⟩
    refine ⟨_, _, rfl, reads, fun rs => ?_⟩
    exact Store.Answers.run (w := (w.perform (.get t key default)).2) answers hkey rs
  case still =>
    intro still t key default
    have counts := w.store.get_counts_of_not_populating t key default still
    exact ⟨counts.marks, counts.alike rfl⟩

/-- Of the two texts that are stored only one is an integer, so the first read stores its default;
from there on the other defaults do not count. -/
theorem reading_settles_badElement :
    ∃ w', (blank.run [.putValue "k" (.array [.string "12", .string "x"])]).2.perform
        (.get (.array .integer) "k" [3]) = (.typed (.array .integer) [3], w') ∧
      w'.store.get? "k" = some (.array [.int 3]) ∧
      (w'.run [.setEnumCache true, .get (.array .integer) "k" [9],
          .get (.array .integer) "k" []]).1 =
        [.nothing, .typed (.array .integer) [3], .typed (.array .integer) [3]] ∧
      (w'.run [.setEnumCache true, .get (.array .integer) "k" [9],
          .get (.array .integer) "k" []]).2.store.marks = w'.store.marks := by
  have opened : Workspace.opened { address := .named "s", inMemory := true } {} blank.media {} =
      .ok blank := rfl
  obtain ⟨v, w', hget, -, again⟩ :=
    (reading_settles opened [.putValue "k" (.array [.string "12", .string "x"])] rfl).1 rfl
      (.array .integer) "k" [3] (by decide) rfl rfl
  cases hget
  obtain ⟨hanswers, hmarks, -⟩ := again [.setEnumCache true, .read [9], .read []]
  exact ⟨_, rfl, rfl, hanswers, hmarks⟩

end Workspace

end TypedConfig
