/-
# Threads that count

Any number of threads share a store that stores the defaults of its reads. Each reads one shared
key first, and then counts under a key of its own, with a save after every count. Whatever the
order of their steps, the entries tell how far each thread is (`Tallied`), and the set mark has
counted the shared key once and every put once (`Tally.marked`).

What carries this is `Stage`: what a thread has put, what it has still to call and what it is about
to do belong together. One that is past its read knows that the shared key is stored, and one that
is about to store its default knows that it read nothing; whether another thread was faster is
seen under the lock. No step takes a thread off its stages, so no call is refused.

Key definitions: `Counters.program`, `Counters.Tallied`, `Counters.Stage`, `Counters.Progress`.
Key theorems: `Counters.Stage.change`, `Counters.Progress.step`, `Counters.Progress.of_run`.
-/
import Mathlib
import TypedConfig.Proofs.Document.RoundTrip
import TypedConfig.Proofs.Json.Numeral
import TypedConfig.Proofs.Sharing.Alone
import TypedConfig.Proofs.Sharing.Threads

namespace TypedConfig
namespace Counters

/-! ### The programs -/

/-- The key that every thread reads. -/
def sharedKey : String := "shared"

/-- The key that thread `t` counts under. -/
def ownKey (t : ℕ) : String := "key" ++ NumberStyle.naturalText t

/-- What is stored for the number `k`. -/
def number (k : ℕ) : Value := .int (Int64.ofNat k)

/-- Thread `t` puts `m` numbers from `k` on, and saves after each. -/
def roundsFrom (t k m : ℕ) : List StoreCommand :=
  (List.range' k m).flatMap fun i => [.put .long (ownKey t) (Int64.ofNat i), .save]

/-- What thread `t` calls. -/
def program (rounds t : ℕ) : List StoreCommand :=
  .get .integer sharedKey (7 : Int32) :: roundsFrom t 0 rounds

/-- What the first `n` threads call; the others call nothing. -/
def programs (n rounds : ℕ) (t : ℕ) : List StoreCommand := if t < n then program rounds t else []

theorem roundsFrom_zero (t k : ℕ) : roundsFrom t k 0 = [] := rfl

theorem roundsFrom_succ (t k m : ℕ) : roundsFrom t k (m + 1) =
    .put .long (ownKey t) (Int64.ofNat k) :: .save :: roundsFrom t (k + 1) m := rfl

theorem ownKey_inj {t u : ℕ} : ownKey t = ownKey u ↔ t = u := by
  refine ⟨fun h => ?_, congrArg ownKey⟩
  have hdigits : Nat.toDigits 10 t = Nat.toDigits 10 u := by
    simpa [ownKey, NumberStyle.naturalText] using congrArg String.toList h
  simpa [JsonToken.digitsValue_toDigits] using congrArg JsonToken.digitsValue hdigits

theorem ownKey_ne_sharedKey (t : ℕ) : ownKey t ≠ sharedKey := by
  intro h
  have hchars := congrArg String.toList h
  simp [ownKey, sharedKey, NumberStyle.naturalText] at hchars

theorem ownKey_ne_empty (t : ℕ) : ownKey t ≠ "" := by
  intro h
  have hchars := congrArg String.toList h
  simp [ownKey] at hchars

/-! ### What the entries tell -/

/-- What a thread that put `k` numbers has under its key: the last of them. -/
def lastPut : ℕ → Option Value
  | 0 => none
  | k + 1 => some (number k)

/-- The entries of threads that each put as many numbers as `counts` says. -/
structure Tallied (populated : Bool) (counts : ℕ → ℕ) (d : Document) : Prop where
  shared : d.get? sharedKey = if populated then some (number 7) else none
  own : ∀ t, d.get? (ownKey t) = lastPut (counts t)
  others : ∀ key, key ≠ sharedKey → (∀ t, key ≠ ownKey t) → d.get? key = none

namespace Tallied

variable {populated : Bool} {counts : ℕ → ℕ} {d e : Document}

theorem empty : Tallied false (fun _ => 0) .empty := ⟨rfl, fun _ => rfl, fun _ _ _ => rfl⟩

theorem unique (h : Tallied populated counts d) (h' : Tallied populated counts e) : d = e := by
  refine SortedMap.ext_get? fun key => ?_
  by_cases hs : key = sharedKey
  · rw [hs, h.shared, h'.shared]
  by_cases ho : ∃ t, key = ownKey t
  · obtain ⟨t, rfl⟩ := ho
    rw [h.own, h'.own]
  · rw [h.others key hs fun t ht => ho ⟨t, ht⟩, h'.others key hs fun t ht => ho ⟨t, ht⟩]

/-- Every entry is a number. -/
theorem eq_number (h : Tallied populated counts d) {key : String} {v : Value}
    (hv : d.get? key = some v) : ∃ k, v = number k := by
  by_cases hs : key = sharedKey
  · rw [hs, h.shared] at hv
    split at hv
    · cases hv
      exact ⟨7, rfl⟩
    · cases hv
  by_cases ho : ∃ t, key = ownKey t
  · obtain ⟨t, rfl⟩ := ho
    rw [h.own] at hv
    cases hk : counts t with
    | zero => rw [hk] at hv; cases hv
    | succ k => rw [hk] at hv; cases hv; exact ⟨k, rfl⟩
  · rw [h.others key hs fun t ht => ho ⟨t, ht⟩] at hv
    cases hv

theorem allFinite (h : Tallied populated counts d) : d.AllFinite := by
  rw [Document.allFinite_iff]
  intro key v hv
  obtain ⟨k, rfl⟩ := h.eq_number hv
  trivial

theorem depth_le (h : Tallied populated counts d) : d.depth ≤ Document.maxDepth := by
  rw [Document.depth_le_iff]
  intro key v hv
  obtain ⟨k, rfl⟩ := h.eq_number hv
  exact Nat.zero_le _

theorem persisted_eq (h : Tallied populated counts d) : d.persisted = d := by
  refine SortedMap.ext_get? fun key => ?_
  rw [Document.get?_persisted]
  cases hv : d.get? key with
  | none => rfl
  | some v =>
    obtain ⟨k, rfl⟩ := h.eq_number hv
    rfl

/-- The first read stores its default. -/
theorem populate (h : Tallied false counts d) :
    Tallied true counts (d.insert sharedKey (number 7)) := by
  refine ⟨d.get?_insert_self _ _, fun t => ?_, fun key hs ho => ?_⟩
  · rw [SortedMap.get?_insert, if_neg (ownKey_ne_sharedKey t).symm, h.own]
  · rw [SortedMap.get?_insert, if_neg hs.symm, h.others key hs ho]

/-- A thread puts its next number. -/
theorem put (h : Tallied populated counts d) (t : ℕ) :
    Tallied populated (Function.update counts t (counts t + 1))
      (d.insert (ownKey t) (number (counts t))) := by
  refine ⟨?_, fun u => ?_, fun key hs ho => ?_⟩
  · rw [SortedMap.get?_insert, if_neg (ownKey_ne_sharedKey t), h.shared]
  · rw [SortedMap.get?_insert]
    by_cases hu : u = t
    · subst hu
      rw [if_pos rfl, Function.update_self, lastPut]
    · rw [if_neg fun he => hu (ownKey_inj.mp he).symm, Function.update_of_ne hu, h.own]
  · rw [SortedMap.get?_insert, if_neg (ho t).symm, h.others key hs ho]

/-- The next number is another one than the last, so it counts. -/
theorem setEntry_own {s : Store} (h : Tallied populated counts s.entries) (t : ℕ) :
    s.setEntry (ownKey t) (number (counts t)) = (true, { s with
      entries := s.entries.insert (ownKey t) (number (counts t))
      marks := s.marks.markDirty }) := by
  have hown : s.get? (ownKey t) = lastPut (counts t) := h.own t
  have hchange : Store.isChange (s.get? (ownKey t)) (number (counts t)) = true := by
    rw [hown]
    cases counts t with
    | zero => rfl
    | succ k => simp [lastPut, Store.isChange, number, Value.samePersisted]
  simp only [Store.setEntry, hchange, if_true]

end Tallied

/-- How many numbers each thread put when the first `n` are done. -/
def full (n rounds t : ℕ) : ℕ := if t < n then rounds else 0

/-- What `n` threads that put `rounds` numbers each leave: the shared key, and under the key of
each thread the last of its numbers. -/
def Outcome (n rounds : ℕ) (d : Document) : Prop :=
  Tallied true (full n rounds) d

/-! ### The store -/

/-- How many changes were made: one for the shared key, and one for every number. -/
def total (n : ℕ) (populated : Bool) (counts : ℕ → ℕ) : ℕ :=
  populated.toNat + ∑ t ∈ Finset.range n, counts t

/-- Storing the shared key is one change. -/
theorem total_populate (n : ℕ) (counts : ℕ → ℕ) :
    total n true counts = total n false counts + 1 := by
  simp [total, Nat.add_comm]

/-- So is putting a number. -/
theorem total_put {n t : ℕ} (h : t < n) (populated : Bool) (counts : ℕ → ℕ) :
    total n populated (Function.update counts t (counts t + 1)) = total n populated counts + 1 := by
  have ht := Finset.mem_range.mpr h
  rw [total, total, Finset.sum_update_of_mem ht,
    Finset.sum_eq_add_sum_sdiff_singleton_of_mem ht counts]
  omega

/-- A store that is open and stores the defaults of its reads. -/
structure IsOpen (s : Store) : Prop where
  closed : s.closed = false
  autoPopulate : s.autoPopulate = true

theorem IsOpen.readable {s : Store} (h : IsOpen s) : ¬ (sharedKey = "" ∨ s.closed = true) := by
  rw [h.closed]
  decide

theorem IsOpen.checkWritable {s : Store} (h : IsOpen s) (t : ℕ) :
    s.checkWritable (ownKey t) = .ok () := by
  rw [Store.checkWritable, if_neg (ownKey_ne_empty t), if_neg (by rw [h.closed]; decide)]

/-- With the cache of constants or without it, numbers are kept as they are. -/
theorem memoryForm_long (s : Store) (k : ℕ) :
    s.memoryForm .long (Int64.ofNat k) = number k := by
  unfold Store.memoryForm
  split <;> rfl

theorem memoryForm_integer (s : Store) : s.memoryForm .integer (7 : Int32) = number 7 := by
  unfold Store.memoryForm
  split <;> rfl

/-- A number is no constant, so there is nothing to resolve. -/
theorem cacheResolved_number (s : Store) (key : String) (k : ℕ) :
    s.cacheResolved key (number k) (number k) = s :=
  if_neg fun hall => absurd hall.1 Bool.false_ne_true

/-- A store after the changes of `populated` and `counts`, by the first `n` threads: nothing but
its entries and marks is another than at the start, and every change is counted. -/
structure Tally (start : Store) (n : ℕ) (populated : Bool) (counts : ℕ → ℕ) (s : Store) :
    Prop where
  frame : s = { start with entries := s.entries, marks := s.marks }
  tallied : Tallied populated counts s.entries
  marked : s.marks.set = UInt64.ofNat (total n populated counts)

namespace Tally

variable {start s s' : Store} {n : ℕ} {populated populated' : Bool} {counts counts' : ℕ → ℕ}

theorem isOpen (h : Tally start n populated counts s) (ho : IsOpen start) : IsOpen s := by
  rw [h.frame]
  exact ⟨ho.closed, ho.autoPopulate⟩

theorem encoding_eq (h : Tally start n populated counts s) : s.encoding = start.encoding := by
  rw [h.frame]

theorem location_eq (h : Tally start n populated counts s) : s.location = start.location := by
  rw [h.frame]

/-- The write mark may be any. -/
theorem write (h : Tally start n populated counts s) {marks : DirtyMarks}
    (set : marks.set = s.marks.set) : Tally start n populated counts { s with marks } :=
  ⟨by rw [h.frame], h.tallied, set.trans h.marked⟩

/-- A change that is counted. -/
theorem change (h : Tally start n populated counts s) {d : Document}
    (tallied : Tallied populated' counts' d)
    (once : total n populated' counts' = total n populated counts + 1) :
    Tally start n populated' counts' { s with entries := d, marks := s.marks.markDirty } := by
  refine ⟨?_, tallied, ?_⟩
  · rw [h.frame]
  · show s.marks.set + 1 = _
    rw [h.marked, once, UInt64.ofNat_add _ 1]
    rfl

end Tally

/-! ### Stages of a thread -/

/-- What a thread that reads the shared key is about to do. Once it knows of an entry, there is
one. -/
inductive Reading (populated : Bool) : Phase → Prop
  | looks : Reading populated (.reading .integer sharedKey (7 : Int32))
  | lacks : Reading populated (.lacking .integer sharedKey (7 : Int32) none)
  | defaults : Reading populated (.defaulting .integer sharedKey (7 : Int32) none)
  | populates : Reading populated (.populating .integer sharedKey (7 : Int32) none (number 7))
  | finds (read : populated = true) :
    Reading populated (.resolved .integer sharedKey (7 : Int32) (number 7))
  | caches (read : populated = true) :
    Reading populated (.caching .integer sharedKey (7 : Int32) (number 7))
  | answers (read : populated = true) : Reading populated (.done (.typed .integer (7 : Int32)))

/-- What thread `t` of the first `n` put, what it has still to call, and what it is about to do. -/
inductive Stage (n rounds t : ℕ) (populated : Bool) : ℕ → List StoreCommand → Phase → Prop
  /-- It is none of the first `n`. -/
  | absent (h : n ≤ t) : Stage n rounds t populated 0 [] .idle
  | fresh (h : t < n) : Stage n rounds t populated 0 (program rounds t) .idle
  | reads {p : Phase} (h : t < n) (reading : Reading populated p) :
    Stage n rounds t populated 0 (roundsFrom t 0 rounds) p
  /-- It is between two rounds. -/
  | rests {k m : ℕ} (h : t < n) (sum : k + m = rounds) (read : populated = true) :
    Stage n rounds t populated k (roundsFrom t k m) .idle
  | checks {k m : ℕ} (h : t < n) (sum : k + 1 + m = rounds) (read : populated = true) :
    Stage n rounds t populated k (.save :: roundsFrom t (k + 1) m) (.checking (ownKey t) (number k))
  | puts {k m : ℕ} (h : t < n) (sum : k + 1 + m = rounds) (read : populated = true) :
    Stage n rounds t populated k (.save :: roundsFrom t (k + 1) m) (.putting (ownKey t) (number k))
  | put {k m : ℕ} (h : t < n) (sum : k + m = rounds) (read : populated = true) :
    Stage n rounds t populated k (.save :: roundsFrom t k m) (.done (.changed true))
  /-- It has put a number that it did not save. -/
  | owes {k m : ℕ} (h : t < n) (sum : k + m = rounds) (read : populated = true) :
    Stage n rounds t populated k (.save :: roundsFrom t k m) .idle
  | saves {k m : ℕ} {p : SavePhase} (h : t < n) (sum : k + m = rounds) (read : populated = true)
    (succeeds : p.Succeeds) : Stage n rounds t populated k (roundsFrom t k m) (.saving p)
  | saved {k m : ℕ} {wrote : Bool} (h : t < n) (sum : k + m = rounds) (read : populated = true) :
    Stage n rounds t populated k (roundsFrom t k m) (.done (.saved wrote))

theorem Reading.mono {populated populated' : Bool} {p : Phase} (h : Reading populated p)
    (hp : populated = true → populated' = true) : Reading populated' p := by
  cases h with
  | looks => exact .looks
  | lacks => exact .lacks
  | defaults => exact .defaults
  | populates => exact .populates
  | finds read => exact .finds (hp read)
  | caches read => exact .caches (hp read)
  | answers read => exact .answers (hp read)

namespace Stage

variable {n rounds t k : ℕ} {populated populated' : Bool} {todo : List StoreCommand} {p q : Phase}
  {s : Store} {counts : ℕ → ℕ}

/-- Another thread may store the shared key. -/
theorem mono (h : Stage n rounds t populated k todo p)
    (hp : populated = true → populated' = true) : Stage n rounds t populated' k todo p := by
  cases h with
  | absent h => exact .absent h
  | fresh h => exact .fresh h
  | reads h reading => exact .reads h (reading.mono hp)
  | rests h sum read => exact .rests h sum (hp read)
  | checks h sum read => exact .checks h sum (hp read)
  | puts h sum read => exact .puts h sum (hp read)
  | put h sum read => exact .put h sum (hp read)
  | owes h sum read => exact .owes h sum (hp read)
  | saves h sum read succeeds => exact .saves h sum (hp read) succeeds
  | saved h sum read => exact .saved h sum (hp read)

theorem count_le (h : Stage n rounds t populated k todo p) : k ≤ full n rounds t := by
  unfold full
  cases h with
  | absent h => exact Nat.zero_le _
  | fresh h => exact Nat.zero_le _
  | reads h reading => exact Nat.zero_le _
  | _ h => rw [if_pos h]; omega

theorem not_refused (h : Stage n rounds t populated k todo p) (e : StoreError) :
    p ≠ .done (.refused e) := by
  rintro rfl
  cases h with
  | reads h reading => cases reading

/-- A thread that has nothing left to call or do has put all its numbers. -/
theorem eq_of_finished (h : Stage n rounds t populated k todo p) (called : todo = [])
    (idle : p = .idle) : (t < n → populated = true) ∧ k = full n rounds t := by
  unfold full
  cases h with
  | absent h => rw [if_neg h.not_gt]; exact ⟨fun hlt => absurd hlt h.not_gt, rfl⟩
  | fresh h => cases called
  | reads h reading => subst idle; cases reading
  | @rests k m h sum read =>
    rw [if_pos h]
    cases m with
    | zero => exact ⟨fun _ => read, sum⟩
    | succ m => cases called
  | owes h sum read => cases called
  | _ => cases idle

/-- The next call of a thread leaves the store alone. -/
theorem begin (h : Stage n rounds t populated k todo p) (idle : p = .idle) {c : StoreCommand}
    {rest : List StoreCommand} (next : todo = c :: rest) (ho : IsOpen s) :
    (Phase.begin s c).1 = s ∧ Stage n rounds t populated k rest (Phase.begin s c).2 := by
  cases h with
  | absent h => cases next
  | fresh h =>
    cases next
    refine ⟨rfl, .reads h ?_⟩
    rw [Phase.begin, if_neg ho.readable]
    exact .looks
  | reads h reading => subst idle; cases reading
  | @rests k m h sum read =>
    cases m with
    | zero => cases next
    | succ m =>
      rw [roundsFrom_succ] at next
      cases next
      refine ⟨rfl, ?_⟩
      rw [Phase.begin, memoryForm_long]
      exact .checks h (by omega) read
  | owes h sum read =>
    cases next
    refine ⟨rfl, ?_⟩
    rw [Phase.begin, if_neg (by rw [ho.closed]; decide)]
    exact .saves h sum read trivial
  | _ => cases idle

/-- A step that only reads takes a thread to its next stage. -/
theorem look (h : Stage n rounds t populated k todo p)
    (tallied : Tallied populated counts s.entries) (ho : IsOpen s) (hlook : p.look s = some q) :
    Stage n rounds t populated k todo q := by
  cases h with
  | reads h reading =>
    cases reading with
    | looks =>
      have hshared : s.get? sharedKey = if populated then some (number 7) else none :=
        tallied.shared
      simp only [Phase.look, hshared] at hlook
      cases populated with
      | false => cases hlook; exact .reads h .lacks
      | true => cases hlook; exact .reads h (.finds rfl)
    | lacks =>
      simp only [Phase.look, ho.autoPopulate, if_true] at hlook
      cases hlook
      exact .reads h .defaults
    | defaults =>
      simp only [Phase.look, memoryForm_integer] at hlook
      cases hlook
      exact .reads h .populates
    | populates => cases hlook
    | finds read =>
      simp only [Phase.look, Option.some.injEq] at hlook
      subst hlook
      split
      · exact .reads h (.caches read)
      · exact .reads h (.answers read)
    | caches read => cases hlook
    | answers read =>
      cases hlook
      exact .rests h (Nat.zero_add _) read
  | checks h sum read =>
    simp only [Phase.look, ho.checkWritable] at hlook
    cases hlook
    exact .puts h sum read
  | put h sum read => cases hlook; exact .owes h sum read
  | @saves k m p h sum read succeeds =>
    cases p with
    | admitted => cases hlook; exact .saves h sum read trivial
    | _ => cases hlook
  | saved h sum read => cases hlook; exact .rests h sum read
  | _ => cases hlook

/-- **What a section of a thread does.** It leaves the store alone, or stores what the thread is
the first to store, and counts that. -/
theorem change (h : Stage n rounds t populated k todo p) (hk : counts t = k)
    (tallied : Tallied populated counts s.entries) {counted : Bool} {s' : Store}
    (hchange : p.change s = some (counted, s', q)) :
    (counted = false ∧ s' = s ∧ Stage n rounds t populated k todo q) ∨
    (counted = true ∧ ∃ d populated' k',
      s' = { s with entries := d, marks := s.marks.markDirty } ∧
      (populated = true → populated' = true) ∧
      Tallied populated' (Function.update counts t k') d ∧
      total n populated' (Function.update counts t k') = total n populated counts + 1 ∧
      Stage n rounds t populated' k' todo q) := by
  cases h with
  | reads h reading =>
    cases reading with
    | populates =>
      have hshared : s.get? sharedKey = if populated then some (number 7) else none :=
        tallied.shared
      simp only [Phase.change, Store.populateSection] at hchange
      cases populated with
      | false =>
        have hstill : s.isStill sharedKey none = true := by unfold Store.isStill; rw [hshared]; rfl
        rw [if_pos hstill] at hchange
        cases hchange
        have hsame : Function.update counts t 0 = counts := by rw [← hk, Function.update_eq_self]
        refine .inr ⟨rfl, _, true, 0, rfl, fun _ => rfl, ?_, ?_, .reads h (.answers rfl)⟩
        · rw [hsame]; exact tallied.populate
        · rw [hsame]; exact total_populate n counts
      | true =>
        -- another thread was faster
        have hstill : s.isStill sharedKey none = false := by unfold Store.isStill; rw [hshared]; rfl
        rw [hstill] at hchange
        cases hchange
        exact .inl ⟨rfl, rfl, .reads h (.answers rfl)⟩
    | caches read =>
      cases hchange
      exact .inl ⟨rfl, cacheResolved_number s sharedKey 7, .reads h (.answers read)⟩
    | _ => cases hchange
  | @puts k m h sum read =>
    have hset := tallied.setEntry_own t
    have hput := tallied.put t
    have htotal := total_put h populated counts
    rw [hk] at hset hput htotal
    simp only [Phase.change, hset] at hchange
    cases hchange
    exact .inr ⟨rfl, _, populated, k + 1, rfl, id, hput, htotal, .put h sum read⟩
  | saves h sum read succeeds => cases hchange
  | _ => cases hchange

/-- Where a thread is in a save, nothing went wrong, and the save may go on or end. -/
theorem saving {sp : SavePhase} (h : Stage n rounds t populated k todo (.saving sp)) :
    sp.Succeeds ∧ (∀ sp' : SavePhase, sp'.Succeeds →
      Stage n rounds t populated k todo (.saving sp')) ∧
      ∀ wrote, Stage n rounds t populated k todo (.done (.saved wrote)) := by
  cases h with
  | reads h reading => cases reading
  | saves h sum read succeeds =>
    exact ⟨succeeds, fun _ hs => .saves h sum read hs, fun _ => .saved h sum read⟩

end Stage

/-! ### All threads -/

/-- Whatever is stored while the first `n` threads put up to `rounds` numbers can be encoded. -/
def RoomFor (encoding : Encoding) (n rounds : ℕ) : Prop :=
  ∀ populated counts d, Tallied populated counts d →
    (∀ t, counts t ≤ full n rounds t) → encoding.HasRoom d

/-- As readable text, it always can. -/
theorem roomFor_plain (n rounds : ℕ) : RoomFor .plain n rounds := fun _ _ _ _ _ => .inl rfl

/-- How far the threads are after the effects `es`. -/
structure Progress (start : Store) (n rounds : ℕ) (populated : Bool) (counts : ℕ → ℕ)
    (es : List Effect) (s : Threads) : Prop where
  tally : Tally start n populated counts s.shared.store
  works : s.shared.medium.failWrites = false
  counted : Effect.changes es = total n populated counts
  stage : ∀ t, Stage n rounds t populated (counts t) (s.todo t) (s.shared.phase t)

namespace Progress

variable {start : Store} {n rounds : ℕ} {populated populated' : Bool} {counts : ℕ → ℕ}
  {es es' fs : List Effect} {s s' : Threads} {i k : ℕ} {shared : SharedStore}
  {todo : ℕ → List StoreCommand} {p : Phase}

/-- A step of thread `i`, after which it has put `k` numbers. -/
theorem turn (h : Progress start n rounds populated counts es s)
    (tally : Tally start n populated' (Function.update counts i k) shared.store)
    (works : shared.medium.failWrites = false)
    (counted : Effect.changes es' = total n populated' (Function.update counts i k))
    (mono : populated = true → populated' = true) (phase : shared.phase = s.shared.phase)
    (others : ∀ j, j ≠ i → todo j = s.todo j)
    (stage : Stage n rounds i populated' k (todo i) p) :
    Progress start n rounds populated' (Function.update counts i k) es' ⟨shared.put i p, todo⟩ := by
  refine ⟨tally, works, counted, fun j => ?_⟩
  show Stage n rounds j populated' _ (todo j) ((shared.put i p).phase j)
  by_cases hj : j = i
  · subst hj
    rw [Function.update_self, shared.put_phase]
    exact stage
  · rw [Function.update_of_ne hj, shared.put_phase_of_ne hj, phase, others j hj]
    exact (h.stage j).mono mono

/-- A step of thread `i` that changes nothing that is counted. -/
theorem quiet (h : Progress start n rounds populated counts es s)
    (tally : Tally start n populated counts shared.store)
    (works : shared.medium.failWrites = false) (counted : Effect.changes es' = Effect.changes es)
    (phase : shared.phase = s.shared.phase) (others : ∀ j, j ≠ i → todo j = s.todo j)
    (stage : Stage n rounds i populated (counts i) (todo i) p) :
    ∃ populated counts, Progress start n rounds populated counts es' ⟨shared.put i p, todo⟩ := by
  have hsame : Function.update counts i (counts i) = counts := Function.update_eq_self i counts
  refine ⟨populated, _, h.turn (k := counts i) ?_ works ?_ id phase others stage⟩
  · rw [hsame]; exact tally
  · rw [hsame, counted, h.counted]

/-- The document can be encoded. -/
theorem encoded (h : Progress start n rounds populated counts es s)
    (room : RoomFor start.encoding n rounds) (nonce : Nonce) :
    ∃ bytes, s.shared.store.encoded nonce = .ok bytes := by
  have hroom := room _ _ _ h.tally.tallied fun t => (h.stage t).count_le
  rw [← h.tally.encoding_eq] at hroom
  obtain ⟨bytes, hbytes⟩ := (Encoding.exists_encode_iff _ nonce _).mpr hroom
  exact ⟨bytes, by rw [Store.encoded, hbytes]⟩

/-- **Every step is progress.** -/
theorem step (h : Progress start n rounds populated counts es s) (ho : IsOpen start)
    (room : RoomFor start.encoding n rounds) (hstep : Threads.Step s fs s') :
    ∃ populated counts, Progress start n rounds populated counts (fs ++ es) s' := by
  have hopen := h.tally.isOpen ho
  cases hstep with
  | @calls i c rest idle next =>
    obtain ⟨hstore, hstage⟩ := (h.stage i).begin idle next hopen
    refine h.quiet ?_ h.works rfl rfl (fun j hj => Function.update_of_ne hj _ _) ?_
    · show Tally start n populated counts (Phase.begin s.shared.store c).1
      rw [hstore]
      exact h.tally
    · rw [Function.update_self]
      exact hstage
  | goesOn hstep uncalled medium =>
    cases hstep with
    | begins c hidle =>
      -- a call would take a thread from its rest
      have hcalled := uncalled _ hidle
      rw [SharedStore.put_phase] at hcalled
      exact absurd hcalled (Phase.begin_ne_idle _ c)
    | looks hlook =>
      exact h.quiet h.tally h.works rfl rfl (fun _ _ => rfl)
        ((h.stage _).look h.tally.tallied hopen hlook)
    | @changes i counted store p hchange =>
      rcases (h.stage i).change rfl h.tally.tallied hchange with
        ⟨rfl, rfl, hstage⟩ | ⟨rfl, d, populated', k, rfl, mono, tallied, once, hstage⟩
      · exact h.quiet h.tally h.works rfl rfl (fun _ _ => rfl) hstage
      · refine ⟨populated', _, h.turn (h.tally.change tallied once) h.works ?_ mono rfl
          (fun _ _ => rfl) hstage⟩
        rw [once, ← h.counted]
        simp [Effect.changes, Effect.ofChange]
    | @claims i current hp =>
      obtain ⟨-, goes, ends⟩ := Stage.saving (hp ▸ h.stage i)
      refine h.quiet (h.tally.write rfl) h.works rfl rfl (fun _ _ => rfl) ?_
      cases (s.shared.store.marks.claimAt current).1 with
      | none => exact ends false
      | some previous => exact goes (.claimed previous) trivial
    | @locks i previous hp free =>
      obtain ⟨-, goes, -⟩ := Stage.saving (hp ▸ h.stage i)
      exact h.quiet h.tally h.works rfl rfl (fun _ _ => rfl) (goes (.locked previous) trivial)
    | @snaps i previous nonce hp =>
      obtain ⟨-, goes, -⟩ := Stage.saving (hp ▸ h.stage i)
      exact h.quiet h.tally h.works rfl rfl (fun _ _ => rfl) (goes _ (h.encoded room nonce))
    | @publishes i previous snapshot encoded hp =>
      obtain ⟨succeeds, goes, -⟩ := Stage.saving (hp ▸ h.stage i)
      exact h.quiet (h.tally.write rfl) h.works rfl rfl (fun _ _ => rfl)
        (goes (.published previous snapshot encoded) succeeds)
    | @writes i previous snapshot bytes medium' hp written =>
      obtain ⟨-, goes, -⟩ := Stage.saving (hp ▸ h.stage i)
      refine h.quiet h.tally (medium.trans h.works) ?_ rfl (fun _ _ => rfl)
        (goes (.settled (.ok true)) ⟨true, rfl⟩)
      simp [Effect.changes]
    | misses hp written =>
      rw [MemoryMedium.write, h.works] at written
      cases written
    | givesUp hp =>
      obtain ⟨⟨bytes, hbytes⟩, -⟩ := Stage.saving (hp ▸ h.stage _)
      cases hbytes
    | rollsBack hp =>
      obtain ⟨succeeds, -⟩ := Stage.saving (hp ▸ h.stage _)
      exact succeeds.elim
    | @releases i result hp =>
      obtain ⟨⟨wrote, rfl⟩, -, ends⟩ := Stage.saving (hp ▸ h.stage i)
      exact h.quiet h.tally h.works rfl rfl (fun _ _ => rfl) (ends wrote)
    | turns fails =>
      exact ⟨populated, counts, h.tally, medium.trans h.works, h.counted, h.stage⟩

end Progress

/-- An empty store that was just opened and stores the defaults of its reads, kept in a memory that
works. -/
structure IsFresh (w : Workspace) : Prop where
  entries : w.store.entries = .empty
  marks : w.store.marks = {}
  isOpen : IsOpen w.store
  location : w.store.location = .memory
  works : w.media.memory.failWrites = false

theorem IsFresh.shared {w : Workspace} (fresh : IsFresh w) : w.shared.Fresh :=
  ⟨fresh.marks, rfl, fun _ => rfl⟩

theorem IsFresh.tally {w : Workspace} (fresh : IsFresh w) (n : ℕ) :
    Tally w.store n false (fun _ => 0) w.store := by
  refine ⟨rfl, ?_, ?_⟩
  · rw [fresh.entries]
    exact .empty
  · rw [fresh.marks]
    simp [total]

namespace Progress

variable {n rounds : ℕ} {w : Workspace} {es : List Effect} {s : Threads}

theorem start (fresh : IsFresh w) :
    Progress w.store n rounds false (fun _ => 0) [] ⟨w.shared, programs n rounds⟩ := by
  refine ⟨fresh.tally n, fresh.works, by simp [total, Effect.changes], fun t => ?_⟩
  show Stage n rounds t false 0 (programs n rounds t) .idle
  unfold programs
  split
  · exact .fresh ‹_›
  · exact .absent (not_lt.mp ‹_›)

/-- **Every run is progress.** -/
theorem of_run (fresh : IsFresh w) (room : RoomFor w.store.encoding n rounds)
    (h : Threads.Run ⟨w.shared, programs n rounds⟩ es s) :
    ∃ populated counts, Progress w.store n rounds populated counts es s := by
  induction h with
  | start => exact ⟨_, _, .start fresh⟩
  | step run step ih =>
    obtain ⟨populated, counts, h⟩ := ih
    exact h.step fresh.isOpen room step

/-- There are no more changes than the threads make in the end. -/
theorem changes_le {start : Store} {populated : Bool} {counts : ℕ → ℕ}
    (h : Progress start n rounds populated counts es s) :
    Effect.changes es ≤ total n true (full n rounds) := by
  rw [h.counted, total, total]
  refine Nat.add_le_add (Bool.toNat_le populated) (Finset.sum_le_sum fun t _ => ?_)
  exact (h.stage t).count_le

/-- The threads that are not among the first `n` do nothing. -/
theorem absent {start : Store} {populated : Bool} {counts : ℕ → ℕ}
    (h : Progress start n rounds populated counts es s) {t : ℕ} (ht : n ≤ t) :
    s.todo t = [] ∧ s.shared.phase t = .idle := by
  have hstage := h.stage t
  generalize counts t = k, s.todo t = todo, s.shared.phase t = p at hstage
  cases hstage with
  | absent => exact ⟨rfl, rfl⟩
  | _ h => exact absurd h ht.not_gt

/-- Threads that are done have put all their numbers. -/
theorem of_finished {start : Store} {populated : Bool} {counts : ℕ → ℕ}
    (h : Progress start n rounds populated counts es s) (finished : s.Finished) (pos : 1 ≤ n) :
    Progress start n rounds true (full n rounds) es s := by
  have hdone : ∀ t, (t < n → populated = true) ∧ counts t = full n rounds t :=
    fun t => (h.stage t).eq_of_finished (finished t).1 (finished t).2
  obtain rfl : populated = true := (hdone 0).1 pos
  obtain rfl : counts = full n rounds := funext fun t => (hdone t).2
  exact h

end Progress

end Counters
end TypedConfig
