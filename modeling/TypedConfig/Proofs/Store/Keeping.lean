/-
# What every run keeps of the medium

What a medium holds for a store matters once nothing is left to write, that is while
the marks are equal. A statement about it that speaks of the written form of the
entries only, and that holds when they have just been written (`Media.IsBacking`), is
kept by every operation: a change makes the marks differ, and a save that succeeds
writes.

Key definitions: `Media.IsBacking`, `Workspace.KeptBy`.
Key theorems: `Workspace.KeptBy.perform`, `Workspace.KeptBy.run`,
`Workspace.KeptBy.marks_of_saved`.
-/
import Mathlib
import TypedConfig.Proofs.Document.Shape
import TypedConfig.Proofs.Medium.Writing
import TypedConfig.Proofs.Store.Counting
import TypedConfig.Proofs.Store.Frame
import TypedConfig.Proofs.Store.Saving

namespace TypedConfig

/-! ### Finite entries -/

namespace Store

theorem setEntry_allFinite {s : Store} (h : s.entries.AllFinite) (key : String) {value : Value}
    (hv : value.AllFinite) : (s.setEntry key value).2.entries.AllFinite :=
  h.insert key hv

theorem get_allFinite {s : Store} (h : s.entries.AllFinite) (t : SettingType) (key : String)
    (default : t.Val) : (s.get t key default).2.entries.AllFinite := by
  rcases s.get_cases t key default with heq | ⟨found?, -, -, heq⟩ | ⟨found, v, heq⟩ <;> rw [heq]
  · exact h
  · simp only [populate]
    split
    · rename_i hstore
      exact setEntry_allFinite h key (Value.allFinite_of_isPersistable hstore.1)
    · exact h
  · exact ((s.cacheResolved_counts t key v found).alike rfl).allFinite h

theorem putValue_allFinite {s s' : Store} (h : s.entries.AllFinite) {key : String} {value : Value}
    {changed : Bool} (hput : s.putValue key value = .ok (changed, s')) : s'.entries.AllFinite := by
  unfold putValue at hput
  split at hput
  · cases hput
  · split at hput
    · cases hput
    · rename_i hcheck
      cases hput
      exact setEntry_allFinite h key (value.allFinite_of_checkPersistable hcheck)

theorem remove_allFinite {s s' : Store} (h : s.entries.AllFinite) {key : String}
    {value? : Option Value} (hremove : s.remove key = .ok (value?, s')) :
    s'.entries.AllFinite := by
  unfold remove at hremove
  split at hremove
  · cases hremove
  · split at hremove <;> cases hremove
    · exact h
    · exact h.erase key

theorem clear_allFinite {s s' : Store} (hclear : s.clear = .ok s') : s'.entries.AllFinite := by
  unfold clear at hclear
  split at hclear <;> cases hclear
  exact Document.allFinite_empty

end Store

/-! ### What the operations keep -/

/-- A statement about a store and what its medium holds that speaks of the written form of the
entries only, and that holds once they are written. -/
structure Media.IsBacking (backs : Store → Media → Prop) : Prop where
  alike : ∀ {s s' : Store} {m : Media}, backs s m → s.SameHome s' →
    s.entries.WrittenAlike s'.entries → backs s' m
  written : ∀ {s : Store} {nonce : Nonce} {bytes : Bytes} {m : Media}, s.entries.AllFinite →
    s.encoding.encode nonce s.entries = .ok bytes → m.read s.location = .ok (some bytes) →
      backs s m

/-- After at most `n` operations: the entries are finite, no mark is above the set mark nor that
above `n`, and with equal marks the medium backs the store. -/
structure Workspace.KeptBy (backs : Store → Media → Prop) (n : ℕ) (w : Workspace) : Prop where
  finite : w.store.entries.AllFinite
  few : w.store.marks.set.toNat ≤ n
  write_le : w.store.marks.write ≤ w.store.marks.set
  stored : w.store.marks.write = w.store.marks.set → backs w.store w.media

namespace Workspace.KeptBy

variable {backs : Store → Media → Prop} {n : ℕ} {w : Workspace}

theorem weaken (kept : KeptBy backs n w) {n' : ℕ} (h : n ≤ n') : KeptBy backs n' w :=
  ⟨kept.finite, Nat.le_trans kept.few h, kept.write_le, kept.stored⟩

/-- An operation on the entries: it counts a change, after which the marks differ, or leaves the
document written as it was. -/
theorem change (backing : Media.IsBacking backs) (kept : KeptBy backs n w)
    (room : n + 1 < 2 ^ 64) {counted : Bool} {store : Store}
    (counts : w.store.Counts counted store) (home : w.store.SameHome store)
    (finite : store.entries.AllFinite) : KeptBy backs (n + 1) { w with store } := by
  have hfew := kept.few
  have hle := kept.write_le
  have hmarks := counts.marks
  cases counted with
  | false =>
    have hmarks : store.marks = w.store.marks := hmarks
    refine ⟨finite, ?_, ?_, fun heq => ?_⟩
    · show store.marks.set.toNat ≤ n + 1
      rw [hmarks]
      omega
    · show store.marks.write ≤ store.marks.set
      rw [hmarks]
      exact hle
    · have heq : store.marks.write = store.marks.set := heq
      rw [hmarks] at heq
      exact backing.alike (kept.stored heq) home (counts.alike rfl)
  | true =>
    have hmarks : store.marks = w.store.marks.markDirty := hmarks
    obtain ⟨hlt, hnat⟩ := DirtyMarks.lt_markDirty_set (m := w.store.marks) (by omega)
    have hwrite : store.marks.write = w.store.marks.write := by rw [hmarks]; rfl
    rw [← hmarks] at hlt hnat
    refine ⟨finite, ?_, ?_, fun heq => ?_⟩
    · show store.marks.set.toNat ≤ n + 1
      omega
    · show store.marks.write ≤ store.marks.set
      grind
    · have heq : store.marks.write = store.marks.set := heq
      grind

/-- A refused operation changes nothing. -/
theorem settled (backing : Media.IsBacking backs) {α : Type} (kept : KeptBy backs n w)
    (room : n + 1 < 2 ^ 64) (reply : α → StoreReply) {r : Except StoreError (α × Store)}
    (h : ∀ a store, r = .ok (a, store) → (∃ counted, w.store.Counts counted store) ∧
      w.store.SameHome store ∧ store.entries.AllFinite) :
    KeptBy backs (n + 1) (w.settled reply r).2 := by
  cases r with
  | error e => exact kept.weaken (Nat.le_succ n)
  | ok p =>
    obtain ⟨⟨counted, counts⟩, home, finite⟩ := h p.1 p.2 rfl
    exact kept.change backing room counts home finite

/-- A save leaves the marks different, or the entries on the medium. -/
theorem save (backing : Media.IsBacking backs) (kept : KeptBy backs n w) :
    KeptBy backs n (w.perform .save).2 := by
  rw [perform_save]
  simp only [Workspace.save]
  rcases hsave : w.store.save w.nonces.next.1 w.media with ⟨result, store, media⟩
  cases w.store.saveEnd w.nonces.next.1 w.media hsave with
  | closed h => exact ⟨kept.finite, kept.few, kept.write_le, kept.stored⟩
  | clean h clean => exact ⟨kept.finite, kept.few, kept.write_le, kept.stored⟩
  | unencodable h dirty henc => exact ⟨kept.finite, kept.few, kept.write_le, kept.stored⟩
  | failed h dirty henc hwrite =>
    exact ⟨kept.finite, kept.few, kept.write_le, fun heq => absurd heq (UInt64.ne_of_lt dirty)⟩
  | written h dirty henc hwrite =>
    refine ⟨kept.finite, kept.few, UInt64.le_refl _, fun _ => ?_⟩
    exact backing.written kept.finite (Store.encode_of_encoded henc) (Media.read_of_write hwrite)

/-- **Every operation keeps it.** -/
theorem perform (backing : Media.IsBacking backs) (kept : KeptBy backs n w)
    (room : n + 1 < 2 ^ 64) (c : StoreCommand) : KeptBy backs (n + 1) (w.perform c).2 := by
  cases c with
  | get t key default =>
    obtain ⟨counted, counts⟩ := w.store.get_counts t key default
    exact kept.change backing room counts (w.store.get_sameHome t key default)
      (Store.get_allFinite kept.finite t key default)
  | put t key v =>
    exact kept.settled backing room _ fun changed store h => ⟨⟨changed, Store.putValue_counts h⟩,
      Store.putValue_sameHome h, Store.putValue_allFinite kept.finite h⟩
  | putValue key value =>
    exact kept.settled backing room _ fun changed store h => ⟨⟨changed, Store.putValue_counts h⟩,
      Store.putValue_sameHome h, Store.putValue_allFinite kept.finite h⟩
  | remove key =>
    exact kept.settled backing room _ fun value? store h => ⟨⟨value?.isSome, Store.remove_counts h⟩,
      Store.remove_sameHome h, Store.remove_allFinite kept.finite h⟩
  | clear =>
    refine kept.settled backing room _ fun u store h => ?_
    cases hclear : w.store.clear with
    | error e =>
      rw [hclear] at h
      cases h
    | ok cleared =>
      rw [hclear] at h
      cases h
      exact ⟨⟨true, Store.clear_counts hclear⟩, Store.clear_sameHome hclear,
        Store.clear_allFinite hclear⟩
  | save => exact (kept.save backing).weaken (Nat.le_succ n)
  | close => exact ⟨kept.finite, Nat.le_succ_of_le kept.few, kept.write_le,
      fun heq => backing.alike (kept.stored heq) ⟨rfl, rfl, rfl⟩ (.refl _)⟩
  | setAutoPopulate on => exact ⟨kept.finite, Nat.le_succ_of_le kept.few, kept.write_le,
      fun heq => backing.alike (kept.stored heq) ⟨rfl, rfl, rfl⟩ (.refl _)⟩
  | setEnumCache on => exact ⟨kept.finite, Nat.le_succ_of_le kept.few, kept.write_le,
      fun heq => backing.alike (kept.stored heq) ⟨rfl, rfl, rfl⟩ (.refl _)⟩

/-- Operations, one after another. -/
theorem run (backing : Media.IsBacking backs) (kept : KeptBy backs n w) (cs : List StoreCommand)
    (room : n + cs.length < 2 ^ 64) : KeptBy backs (n + cs.length) (w.run cs).2 := by
  induction cs generalizing n w with
  | nil => exact kept
  | cons c cs ih =>
    rw [List.length_cons] at room
    have hrest := ih (kept.perform backing (by omega) c) (by omega)
    rw [List.length_cons, show n + (cs.length + 1) = n + 1 + cs.length by omega]
    exact hrest

/-- A save that succeeds leaves nothing to write. -/
theorem marks_of_saved (kept : KeptBy backs n w) {wrote : Bool} {w' : Workspace}
    (h : w.perform .save = (.saved wrote, w')) : w'.store.marks.write = w'.store.marks.set := by
  simp only [Workspace.perform, Workspace.save] at h
  rcases hsave : w.store.save w.nonces.next.1 w.media with ⟨result, store, media⟩
  rw [hsave] at h
  cases w.store.saveEnd w.nonces.next.1 w.media hsave with
  | clean hopen clean =>
    cases h
    exact UInt64.le_antisymm kept.write_le clean
  | written hopen dirty henc hwrite =>
    cases h
    rfl
  | _ => cases h

end Workspace.KeptBy

end TypedConfig
