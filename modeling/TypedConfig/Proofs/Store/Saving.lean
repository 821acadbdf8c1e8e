/-
# What a save does

The steps of a save that nothing comes between have one of five ends: the store is
closed; there is nothing to write; the document has no bytes; the medium fails; or
the document is written and the store is clean. In all but the last the store is as
it was, marks included, since the claim is taken back in full.

Key definitions: `Store.SaveEnd`.
Key theorems: `Store.save_of_closed`, `Store.save_of_clean`, `Store.save_of_unencodable`,
`Store.save_of_failed`, `Store.save_of_written`, `Store.saveEnd`.
-/
import Mathlib
import TypedConfig.Store.Saving

namespace TypedConfig

/-! ### Marks -/

namespace DirtyMarks

theorem raise_write (m : DirtyMarks) (mark : UInt64) :
    (m.raise mark).write = if m.write ≤ mark then mark else m.write := rfl

@[simp] theorem raise_set (m : DirtyMarks) (mark : UInt64) : (m.raise mark).set = m.set := rfl

theorem raise_of_lt {m : DirtyMarks} {mark : UInt64} (h : m.write < mark) :
    m.raise mark = { m with write := mark } := by
  have hle : m.write ≤ mark := by grind
  have hw := m.raise_write mark
  rw [if_pos hle] at hw
  exact congrArg (DirtyMarks.mk m.set) hw

theorem raise_of_le {m : DirtyMarks} {mark : UInt64} (h : mark ≤ m.write) : m.raise mark = m := by
  have hw : (m.raise mark).write = m.write := by
    rw [raise_write]
    grind
  exact congrArg (DirtyMarks.mk m.set) hw

theorem claim_of_lt {m : DirtyMarks} (h : m.write < m.set) :
    m.claim = (some m.write, { m with write := m.set }) := by
  rw [claim, claimAt, if_pos h, raise_of_lt h]

theorem claim_of_le {m : DirtyMarks} (h : m.set ≤ m.write) : m.claim = (none, m) := by
  rw [claim, claimAt, if_neg (by grind), raise_of_le h]

@[simp] theorem rollback_set (m : DirtyMarks) (published previous : UInt64) :
    (m.rollback published previous).set = m.set := by
  unfold rollback
  split <;> rfl

theorem rollback_write (m : DirtyMarks) (published previous : UInt64) :
    (m.rollback published previous).write = if m.write = published then previous else m.write := by
  unfold rollback
  split <;> rfl

/-- Counting a change raises the set mark, as long as there is a mark left. -/
theorem lt_markDirty_set {m : DirtyMarks} (h : m.set.toNat + 1 < 2 ^ 64) :
    m.set < m.markDirty.set ∧ m.markDirty.set.toNat = m.set.toNat + 1 := by
  have hn : m.markDirty.set.toNat = m.set.toNat + 1 := by
    simp only [markDirty, UInt64.toNat_add, UInt64.toNat_one]
    omega
  exact ⟨UInt64.lt_iff_toNat_lt.mpr (by omega), hn⟩

end DirtyMarks

/-! ### The ends of a save -/

namespace Store

variable {s : Store} {nonce : Nonce} {media : Media}

theorem encode_of_encoded {bytes : Bytes} (h : s.encoded nonce = .ok bytes) :
    s.encoding.encode nonce s.entries = .ok bytes := by
  unfold encoded at h
  split at h
  · rename_i hencode
    cases h
    exact hencode
  · cases h

theorem save_of_closed (h : s.closed = true) : s.save nonce media = (.error .closed, s, media) := by
  simp [save, h]

theorem save_of_clean (h : s.closed = false) (clean : s.marks.set ≤ s.marks.write) :
    s.save nonce media = (.ok false, s, media) := by
  simp [save, h, DirtyMarks.claim_of_le clean]

/-- A save with changes to write: the write mark is at the set mark while it writes. -/
theorem save_of_dirty (h : s.closed = false) (dirty : s.marks.write < s.marks.set) :
    s.save nonce media =
      let written := s.writeOut nonce media
      let settled := { s with marks.write := s.marks.set }.settle s.marks.set s.marks.write written.1
      (settled.1, settled.2, written.2) := by
  have hpublish : { s.marks with write := s.marks.set }.publish s.marks.set =
      { s.marks with write := s.marks.set } := DirtyMarks.raise_of_le (by grind)
  simp only [save, h, DirtyMarks.claim_of_lt dirty, hpublish]
  rfl

/-- A claim that is taken back leaves no trace. -/
theorem settle_error (e : StoreError) :
    { s with marks.write := s.marks.set }.settle s.marks.set s.marks.write (.error e) =
      (.error e, s) := by
  simp [settle, DirtyMarks.rollback]

theorem save_of_unencodable (h : s.closed = false) (dirty : s.marks.write < s.marks.set)
    {e : StoreError} (henc : s.encoded nonce = .error e) :
    s.save nonce media = (.error e, s, media) := by
  rw [save_of_dirty h dirty]
  simp only [writeOut, henc, settle_error]

theorem save_of_failed (h : s.closed = false) (dirty : s.marks.write < s.marks.set)
    {bytes : Bytes} (henc : s.encoded nonce = .ok bytes) {e : MediumError} {media' : Media}
    (hwrite : media.write s.location bytes = (.error e, media')) :
    s.save nonce media = (.error (.medium s.location e), s, media') := by
  rw [save_of_dirty h dirty]
  simp only [writeOut, henc, writeBytes, hwrite, settle_error]

theorem save_of_written (h : s.closed = false) (dirty : s.marks.write < s.marks.set)
    {bytes : Bytes} (henc : s.encoded nonce = .ok bytes) {media' : Media}
    (hwrite : media.write s.location bytes = (.ok (), media')) :
    s.save nonce media = (.ok true, { s with marks.write := s.marks.set }, media') := by
  rw [save_of_dirty h dirty]
  simp only [writeOut, henc, writeBytes, hwrite, settle]

/-- How a save ends: its result, the store and the media. -/
inductive SaveEnd (s : Store) (nonce : Nonce) (media : Media) :
    Except StoreError Bool → Store → Media → Prop
  | closed (h : s.closed = true) : SaveEnd s nonce media (.error .closed) s media
  | clean (h : s.closed = false) (clean : s.marks.set ≤ s.marks.write) :
    SaveEnd s nonce media (.ok false) s media
  | unencodable {e : StoreError} (h : s.closed = false) (dirty : s.marks.write < s.marks.set)
    (henc : s.encoded nonce = .error e) : SaveEnd s nonce media (.error e) s media
  | failed {bytes : Bytes} {e : MediumError} {media' : Media} (h : s.closed = false)
    (dirty : s.marks.write < s.marks.set) (henc : s.encoded nonce = .ok bytes)
    (hwrite : media.write s.location bytes = (.error e, media')) :
    SaveEnd s nonce media (.error (.medium s.location e)) s media'
  | written {bytes : Bytes} {media' : Media} (h : s.closed = false)
    (dirty : s.marks.write < s.marks.set) (henc : s.encoded nonce = .ok bytes)
    (hwrite : media.write s.location bytes = (.ok (), media')) :
    SaveEnd s nonce media (.ok true) { s with marks.write := s.marks.set } media'

/-- **A save ends in one of these ways.** -/
theorem saveEnd (s : Store) (nonce : Nonce) (media : Media) {result : Except StoreError Bool}
    {s' : Store} {media' : Media} (h : s.save nonce media = (result, s', media')) :
    SaveEnd s nonce media result s' media' := by
  by_cases hclosed : s.closed = true
  · rw [save_of_closed hclosed] at h
    cases h
    exact .closed hclosed
  have hopen : s.closed = false := Bool.not_eq_true _ ▸ hclosed
  by_cases dirty : s.marks.write < s.marks.set
  · rcases henc : s.encoded nonce with e | bytes
    · rw [save_of_unencodable hopen dirty henc] at h
      cases h
      exact .unencodable hopen dirty henc
    · rcases hwrite : media.write s.location bytes with ⟨e | u, written⟩
      · rw [save_of_failed hopen dirty henc hwrite] at h
        cases h
        exact .failed hopen dirty henc hwrite
      · rw [save_of_written hopen dirty henc hwrite] at h
        cases h
        exact .written hopen dirty henc hwrite
  · have clean : s.marks.set ≤ s.marks.write := UInt64.not_lt.mp dirty
    rw [save_of_clean hopen clean] at h
    cases h
    exact .clean hopen clean

end Store
end TypedConfig
