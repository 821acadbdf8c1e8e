/-
# Reads and what other threads do meanwhile

A read looks at the entry of its key, and may write it in a later section; in between
the other threads do what they like. The section compares the entry with what the read
had found. The comparison is that of numbers, for which the two zeros are one, while
what counts as a change is the word. So a read writes nothing over an entry that is
written differently than it was found, with one exception: what was found could not be
read at the type, and now differs from it in the signs of zeros only
(`Phase.IsReading.change`). Then the default takes the place of the change.

Key definitions: `Phase.IsReading`, `SharedStore.Looked`.
Key theorems: `Phase.IsReading.step`, `Phase.IsReading.change`,
`SharedStore.read_yields_to_changes`.
-/
import Mathlib
import TypedConfig.Proofs.Sharing.Alone
import TypedConfig.Proofs.Sharing.Saving
import TypedConfig.Proofs.Store.Reopening
import TypedConfig.Proofs.Value.Equality

namespace TypedConfig

/-! ### From the look to the section -/

/-- A thread is in a read that found `found?`, between its look at the entry and its answer. -/
inductive Phase.IsReading (t : SettingType) (key : String) (default : t.Val)
    (found? : Option Value) : Phase → Prop
  | lacking (unread : t.Unreadable found?) :
    IsReading t key default found? (.lacking t key default found?)
  | defaulting (unread : t.Unreadable found?) :
    IsReading t key default found? (.defaulting t key default found?)
  | populating {value : Value} (unread : t.Unreadable found?)
    (hvalue : value.persisted = t.toValue default) :
    IsReading t key default found? (.populating t key default found? value)
  | resolved {v : t.Val} {found : Value} (hfound : found? = some found)
    (hread : t.fromValue found = .ok v) : IsReading t key default found? (.resolved t key v found)
  | caching {v : t.Val} {found : Value} (hfound : found? = some found)
    (hread : t.fromValue found = .ok v) : IsReading t key default found? (.caching t key v found)

namespace Phase

variable {t : SettingType} {key : String} {default : t.Val} {found? : Option Value}
  {s store : Store} {p q : Phase} {counted : Bool}

/-- The look at the entry begins it. -/
theorem isReading_of_look (h : (Phase.reading t key default).look s = some q) :
    q.IsReading t key default (s.get? key) := by
  simp only [look] at h
  cases hentry : s.get? key with
  | none =>
    rw [hentry] at h
    cases h
    refine .lacking fun found hfound => ?_
    cases hfound
  | some found =>
    rw [hentry] at h
    cases hread : t.fromValue found with
    | ok v =>
      simp only [hread] at h
      cases h
      exact .resolved rfl hread
    | error e =>
      simp only [hread] at h
      cases h
      refine .lacking fun other hother v hv => ?_
      cases hother
      rw [hread] at hv
      cases hv

/-- Every further look goes on with it or answers. -/
theorem IsReading.look (h : p.IsReading t key default found?) (hlook : p.look s = some q) :
    q.IsReading t key default found? ∨ ∃ reply, q = .done reply := by
  cases h with
  | lacking unread =>
    simp only [Phase.look, Option.some.injEq] at hlook
    subst hlook
    split
    · exact .inl (.defaulting unread)
    · exact .inr ⟨_, rfl⟩
  | defaulting unread =>
    simp only [Phase.look, Option.some.injEq] at hlook
    subst hlook
    split
    · exact .inl (.populating unread (s.memoryForm_persisted t default))
    · exact .inr ⟨_, rfl⟩
  | populating unread hvalue => cases hlook
  | resolved hfound hread =>
    simp only [Phase.look, Option.some.injEq] at hlook
    subst hlook
    split
    · exact .inl (.caching hfound hread)
    · exact .inr ⟨_, rfl⟩
  | caching hfound hread => cases hlook

/-- Its section answers. -/
theorem IsReading.done_of_change (h : p.IsReading t key default found?)
    (hchange : p.change s = some (counted, store, q)) : ∃ reply, q = .done reply := by
  cases h with
  | populating unread hvalue =>
    cases hchange
    exact ⟨_, rfl⟩
  | caching hfound hread =>
    cases hchange
    exact ⟨_, rfl⟩
  | _ => cases hchange

/-- A thread that reads is at no other operation. -/
theorem IsReading.busy (h : p.IsReading t key default found?) :
    p ≠ .idle ∧ ∀ sp, p ≠ .saving sp := by
  cases h <;> exact ⟨Phase.noConfusion, fun _ => Phase.noConfusion⟩

end Phase

/-! ### The section -/

namespace Store

variable {s : Store} {t : SettingType} {key : String} {found? : Option Value} {value : Value}

/-- The entry is another than was found but counts as the same: it differs from it in the signs of
zeros only. -/
theorem exists_of_isStill (still : s.isStill key found? = true)
    (differs : (s.get? key).map Value.persisted ≠ found?.map Value.persisted) :
    ∃ found current, found? = some found ∧ s.get? key = some current ∧
      current.isEqual found = true ∧ current.unsigned = found.unsigned := by
  unfold isStill at still
  cases hcurrent : s.get? key with
  | none =>
    cases found? with
    | none => exact absurd (by rw [hcurrent]) differs
    | some found => simp [hcurrent] at still
  | some current =>
    cases found? with
    | none => simp [hcurrent] at still
    | some found =>
      simp only [hcurrent] at still
      obtain ⟨-, -, hunsigned⟩ := (Value.isEqual_iff current found).mp still
      exact ⟨found, current, rfl, rfl, still, hunsigned⟩

/-- Where the entry is written differently than the value that was read, no resolved form is
kept: constants hold no zeros. -/
theorem cacheResolved_of_differs {found : Value} {v : t.Val}
    (differs : (s.get? key).map Value.persisted ≠ some found.persisted) :
    s.cacheResolved key found (t.toCachedValue v) = s := by
  unfold cacheResolved
  rw [if_neg]
  rintro ⟨hholds, -, hsame, hstill⟩
  have hdiffers : (s.get? key).map Value.persisted ≠ (some found).map Value.persisted := differs
  obtain ⟨found', current, hfound', hcurrent, hequal, -⟩ := exists_of_isStill hstill hdiffers
  cases hfound'
  have hnamed := t.isNamed_of_holdsConstant v hholds
  have hfound : found.persisted = t.toValue v := by
    rw [← (Value.samePersisted_iff _ _).mp hsame, t.toCachedValue_persisted]
  have hpersisted := t.persisted_eq_of_isEqual hnamed v current found hfound hequal
  apply differs
  rw [hcurrent, Option.map_some, hpersisted]

end Store

namespace Phase

variable {t : SettingType} {key : String} {default : t.Val} {found? : Option Value}
  {s store : Store} {p q : Phase} {counted : Bool}

/-- **The section of a read writes nothing over an entry that is written differently than it was
found**, unless that could not be read and differs in the signs of zeros only. Then the default
takes its place. -/
theorem IsReading.change (h : p.IsReading t key default found?)
    (hchange : p.change s = some (counted, store, q))
    (differs : (s.get? key).map Value.persisted ≠ found?.map Value.persisted) :
    (store = s ∧ counted = false) ∨
      ∃ found current, found? = some found ∧ s.get? key = some current ∧
        (∀ v, t.fromValue found ≠ .ok v) ∧ current.isEqual found = true ∧
        current.unsigned = found.unsigned ∧
        (store.get? key).map Value.persisted = some (t.toValue default) := by
  cases h with
  | @populating value unread hvalue =>
    by_cases still : s.isStill key found? = true
    · obtain ⟨found, current, hfound, hcurrent, hequal, hunsigned⟩ :=
        Store.exists_of_isStill still differs
      refine .inr ⟨found, current, hfound, hcurrent, unread found hfound, hequal, hunsigned, ?_⟩
      have hstore : store = (s.populateSection key found? value).2 := by
        cases hchange
        rfl
      have hentry : store.get? key = some value := by
        rw [hstore, Store.populateSection, if_pos still]
        exact SortedMap.get?_insert_self _ _ _
      rw [hentry, Option.map_some, hvalue]
    · refine .inl ?_
      simp only [Phase.change, Store.populateSection, if_neg still] at hchange
      cases hchange
      exact ⟨rfl, rfl⟩
  | @caching v found hfound hread =>
    subst hfound
    refine .inl ?_
    simp only [Phase.change, Store.cacheResolved_of_differs differs] at hchange
    cases hchange
    exact ⟨rfl, rfl⟩
  | _ => cases hchange

/-! ### Steps of any threads -/

/-- **A step of any thread leaves a read where it is, or takes it on.** -/
theorem IsReading.step {s s' : SharedStore} {es : List Effect} {i : ℕ}
    (h : (s.phase i).IsReading t key default found?) (step : Step s es s') :
    (s'.phase i).IsReading t key default found? ∨ ∃ reply, s'.phase i = .done reply := by
  obtain ⟨hidle, hsaving⟩ := h.busy
  -- a step of another thread, whatever it does to the rest
  have other : ∀ {shared : SharedStore} {j : ℕ} {q : Phase}, s.phase j ≠ s.phase i →
      shared.phase = s.phase → ((shared.put j q).phase i).IsReading t key default found? := by
    intro shared j q hphase hshared
    have hij : i ≠ j := by
      rintro rfl
      exact hphase rfl
    rw [shared.put_phase_of_ne hij, hshared]
    exact h
  have saving : ∀ {shared : SharedStore} {j : ℕ} {q : Phase} {sp : SavePhase},
      s.phase j = .saving sp → shared.phase = s.phase →
        ((shared.put j q).phase i).IsReading t key default found? := by
    intro shared j q sp hj
    apply other
    rw [hj]
    exact (hsaving sp).symm
  cases step with
  | @begins j c hj =>
    refine .inl (other ?_ rfl)
    rw [hj]
    exact hidle.symm
  | @looks j q hlook =>
    by_cases hij : i = j
    · subst hij
      rw [s.put_phase]
      exact h.look hlook
    · rw [s.put_phase_of_ne hij]
      exact .inl h
  | @changes j counted store q hchange =>
    by_cases hij : i = j
    · subst hij
      rw [SharedStore.put_phase]
      exact .inr (h.done_of_change hchange)
    · rw [SharedStore.put_phase_of_ne _ hij]
      exact .inl h
  | claims hj => exact .inl (saving hj rfl)
  | locks hj _ => exact .inl (saving hj rfl)
  | snaps nonce hj => exact .inl (saving hj rfl)
  | publishes hj => exact .inl (saving hj rfl)
  | writes hj _ => exact .inl (saving hj rfl)
  | misses hj _ => exact .inl (saving hj rfl)
  | givesUp hj => exact .inl (saving hj rfl)
  | rollsBack hj => exact .inl (saving hj rfl)
  | releases hj => exact .inl (saving hj rfl)
  | turns fails => exact .inl h

end Phase

namespace SharedStore

/-- Thread `i` looked at the entry of a key for a read when the store was `seen`, and since then
steps of any threads led to here, where it has not answered yet. -/
inductive Looked (i : ℕ) (t : SettingType) (key : String) (default : t.Val) (seen : SharedStore) :
    SharedStore → Prop
  | look {p : Phase} (reads : seen.phase i = .reading t key default)
    (h : (seen.phase i).look seen.store = some p) : Looked i t key default seen (seen.put i p)
  | step {s s' : SharedStore} {es : List Effect} (since : Looked i t key default seen s)
    (step : Step s es s') (busy : ∀ reply, s'.phase i ≠ .done reply) :
    Looked i t key default seen s'

variable {i : ℕ} {t : SettingType} {key : String} {default : t.Val} {seen s : SharedStore}

/-- All that time the thread is in a read of what it saw. -/
theorem Looked.isReading (h : Looked i t key default seen s) :
    (s.phase i).IsReading t key default (seen.store.get? key) := by
  induction h with
  | look reads hlook =>
    rw [reads] at hlook
    rw [seen.put_phase]
    exact Phase.isReading_of_look hlook
  | step _ step busy ih =>
    rcases ih.step step with h | ⟨reply, h⟩
    · exact h
    · exact absurd h (busy reply)

/-- **A read yields to changes, if it can tell them.** Thread `i` looked at an entry, other threads
took any steps, and now comes the section in which the read may write. If the entry is written
differently than it was seen, or came or went, then the read writes nothing and counts nothing;
but where what was seen could not be read at the type, and the entry differs from it in the signs
of zeros only, the default takes its place and the change is lost. -/
theorem read_yields_to_changes (looked : Looked i t key default seen s) {counted : Bool}
    {store : Store} {p : Phase} (answers : (s.phase i).change s.store = some (counted, store, p))
    (differs : (s.store.get? key).map Value.persisted ≠
      (seen.store.get? key).map Value.persisted) :
    (store = s.store ∧ counted = false) ∨
      ∃ found current, seen.store.get? key = some found ∧ s.store.get? key = some current ∧
        (∀ v, t.fromValue found ≠ .ok v) ∧ current.isEqual found = true ∧
        current.unsigned = found.unsigned ∧
        (store.get? key).map Value.persisted = some (t.toValue default) :=
  looked.isReading.change answers differs

/-- A store in memory that has the float zero under `k`, and a thread that is about to read it as
an integer. -/
def readingZero : SharedStore :=
  (Workspace.blank.run [.put .double "k" (Binary.zero false)]).2.shared.put 0
    (.reading .integer "k" 7)

/-- Before the thread comes to store its default, another one puts the negative zero and is told
that this is a change. The default is stored over it. -/
theorem read_yields_to_changes_notToZero :
    ∃ s store p, Looked 0 .integer "k" 7 readingZero s ∧
      readingZero.store.get? "k" = some (.float (Binary.zero false)) ∧
      s.phase 1 = .done (.changed true) ∧
      s.store.get? "k" = some (.float (Binary.zero true)) ∧
      (s.phase 0).change s.store = some (true, store, p) ∧
      (store.get? "k").map Value.persisted = some (.int 7) := by
  have h : Looked 0 .integer "k" 7 readingZero _ := .look rfl rfl
  have h := h.step (.looks (i := 0) rfl) nofun
  have h := h.step (.begins (i := 1) (.put .double "k" (Binary.zero true)) rfl) nofun
  have h := h.step (.looks (i := 0) rfl) nofun
  have h := h.step (.looks (i := 1) rfl) nofun
  have h := h.step (.changes (i := 1) rfl) nofun
  have hseen : readingZero.store.get? "k" = some (.float (Binary.zero false)) := rfl
  obtain ⟨s, store, p, looked, htold, hcurrent, answers⟩ :
      ∃ s store p, Looked 0 .integer "k" 7 readingZero s ∧ s.phase 1 = .done (.changed true) ∧
        s.store.get? "k" = some (.float (Binary.zero true)) ∧
        (s.phase 0).change s.store = some (true, store, p) := ⟨_, _, _, h, rfl, rfl, rfl⟩
  have differs : (s.store.get? "k").map Value.persisted ≠
      (readingZero.store.get? "k").map Value.persisted := by
    rw [hcurrent, hseen]
    intro hsame
    have hzeros : (Binary.zero true : Binary64) = Binary.zero false := by
      simpa [Value.persisted] using hsame
    exact absurd hzeros (by decide)
  refine ⟨s, store, p, looked, hseen, htold, hcurrent, answers, ?_⟩
  rcases read_yields_to_changes looked answers differs with ⟨-, hnone⟩ | ⟨_, _, _, _, _, _, _, hlost⟩
  · cases hnone
  · exact hlost

end SharedStore

end TypedConfig
