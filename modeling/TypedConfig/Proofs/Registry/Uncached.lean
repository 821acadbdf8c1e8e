/-
# Settings do not see the cache

A setting reads its current value and writes through typed operations on the store, and so
does a registry. Each does the same over the projection of a store as over the store itself,
with the same result and the same event (`Registry.perform_uncached`), as long as the settings
have types whose constants have words for names.

Key definitions: `Registry.NamesAreWords`, `WriteOutcome.uncached`, `RegistryStep.uncached`.
Key theorems: `Setting.current_uncached`, `Setting.assign_uncached`, `Registry.perform_uncached`.
-/
import Mathlib
import TypedConfig.Proofs.Store.Uncached
import TypedConfig.Registry.Command

namespace TypedConfig

/-! ### Settings -/

/-- The outcome over the projection of the store. -/
def WriteOutcome.uncached (o : WriteOutcome) : WriteOutcome := { o with store := o.store.uncached }

namespace Setting

variable {t : SettingType}

/-- The current value is seen in the projection. -/
theorem current_uncached (s : Setting t) (store : Store) :
    s.current store.uncached = s.current store := by
  simp only [current, store.get?_uncached]
  cases store.get? s.key with
  | none => rfl
  | some value =>
    rcases t.fromValue_uncached_cases value with ⟨v, hv, hv'⟩ | ⟨e, e', he, he'⟩
    · simp only [Option.map_some, hv, hv']
    · simp only [Option.map_some, he, he']

theorem isDefault_uncached (s : Setting t) (store : Store) :
    s.isDefault store.uncached = s.isDefault store := by
  rw [isDefault, current_uncached, isDefault]

theorem read_uncached (words : t.NamesAreWords) (s : Setting t) (store : Store) :
    s.read store.uncached = ((s.read store).1, (s.read store).2.uncached) :=
  store.get_uncached words s.key s.default

theorem assign_uncached (words : t.NamesAreWords) (s : Setting t) (store : Store) (v : t.Val) :
    s.assign store.uncached v = (s.assign store v).uncached := by
  unfold assign
  cases s.validate v with
  | error reason => rfl
  | ok u =>
    simp only [store.put_uncached words, current_uncached]
    cases store.put t s.key v <;> rfl

theorem reset_uncached (words : t.NamesAreWords) (s : Setting t) (store : Store) :
    s.reset store.uncached = (s.reset store).uncached :=
  s.assign_uncached words store s.default

theorem assignValue_uncached (words : t.NamesAreWords) (s : Setting t) (store : Store)
    (value : Value) : s.assignValue store.uncached value = (s.assignValue store value).uncached := by
  unfold assignValue
  cases t.fromValue value with
  | error reason => rfl
  | ok v => exact s.assign_uncached words store v

end Setting

/-! ### Registries -/

namespace Registry

/-- No constant of the types of the settings has a name that spells an integer. -/
def NamesAreWords (r : Registry) : Prop :=
  ∀ key s, r.settings.get? key = some s → s.type.NamesAreWords

variable {r : Registry}

theorem namesAreWords_place (words : r.NamesAreWords) {s : AnySetting}
    (hs : s.type.NamesAreWords) : (r.place s).NamesAreWords := by
  intro key found h
  simp only [place] at h
  rw [SortedMap.get?_insert] at h
  split at h
  · cases h
    exact hs
  · exact words key found h

theorem namesAreWords_of_find (words : r.NamesAreWords) {key : String} {s : AnySetting}
    (h : r.find key = .ok s) : s.type.NamesAreWords := by
  unfold find at h
  cases hget : r.settings.get? key with
  | none =>
    rw [hget] at h
    cases h
  | some found =>
    rw [hget] at h
    cases h
    exact words key s hget

theorem namesAreWords_of_setting (words : r.NamesAreWords) {t : SettingType} {key : String}
    {s : Setting t} (h : r.setting t key = .ok s) : t.NamesAreWords := by
  unfold setting at h
  split at h
  · cases h
  · rename_i found hfind
    split at h
    · rename_i htype
      exact htype ▸ namesAreWords_of_find words hfind
    · cases h

theorem namesAreWords_of_register (words : r.NamesAreWords) {t : SettingType}
    {d : Declaration t} (ht : t.NamesAreWords) {s : Setting t} {r' : Registry}
    (h : r.register d = .ok (s, r')) : r'.NamesAreWords := by
  unfold register at h
  split at h
  · cases h
  · split at h
    · cases h
    · cases h
      exact namesAreWords_place words ht

/-! ### Values by their keys -/

theorem readValue_uncached (words : r.NamesAreWords) (store : Store) (key : String) :
    r.readValue store.uncached key =
      (r.readValue store key).map fun p => (p.1, p.2.uncached) := by
  unfold readValue
  cases hfind : r.find key with
  | error e => rfl
  | ok s =>
    have hread := s.setting.read_uncached (namesAreWords_of_find words hfind) store
    simp only [hread]
    rfl

theorem assignValue_uncached (words : r.NamesAreWords) (store : Store) (key : String)
    (value : Value) :
    r.assignValue store.uncached key value = (r.assignValue store key value).uncached := by
  unfold assignValue
  cases hfind : r.find key with
  | error e => rfl
  | ok s => exact s.setting.assignValue_uncached (namesAreWords_of_find words hfind) store value

theorem reset_uncached (words : r.NamesAreWords) (store : Store) (key : String) :
    r.reset store.uncached key = (r.reset store key).uncached := by
  unfold reset
  cases hfind : r.find key with
  | error e => rfl
  | ok s => exact s.setting.reset_uncached (namesAreWords_of_find words hfind) store

theorem assign_uncached (words : r.NamesAreWords) (store : Store) (t : SettingType) (key : String)
    (v : t.Val) : r.assign store.uncached t key v = (r.assign store t key v).uncached := by
  unfold assign
  cases hsetting : r.setting t key with
  | error e => rfl
  | ok s => exact s.assign_uncached (namesAreWords_of_setting words hsetting) store v

end Registry

/-! ### Commands -/

/-- No constant of the types in a command has a name that spells an integer. -/
def RegistryCommand.NamesAreWords : RegistryCommand → Prop
  | .register t _ => t.NamesAreWords
  | _ => True

/-- The step over the projection of the workspace. -/
def RegistryStep.uncached (step : RegistryStep) : RegistryStep :=
  { step with workspace := step.workspace.uncached }

namespace Registry

variable {r : Registry}

theorem perform_namesAreWords (words : r.NamesAreWords) (w : Workspace) {c : RegistryCommand}
    (hc : c.NamesAreWords) : (r.perform w c).registry.NamesAreWords := by
  cases c with
  | register t d =>
    simp only [perform]
    cases hregister : r.register d with
    | error e => exact words
    | ok p => exact namesAreWords_place (namesAreWords_of_register words hc hregister) hc
  | initializing t key =>
    simp only [perform]
    cases hsetting : r.setting t key with
    | error e => exact words
    | ok s => exact namesAreWords_place words (namesAreWords_of_setting words hsetting)
  | read t key =>
    simp only [perform]
    split <;> exact words
  | assign t key v => exact words
  | resetTyped t key =>
    simp only [perform]
    split <;> exact words
  | readValue key =>
    simp only [perform]
    split <;> exact words
  | assignValue key value => exact words
  | reset key => exact words
  | save =>
    simp only [perform]
    split <;> exact words

theorem written_uncached (r : Registry) (w : Workspace) (o : WriteOutcome) :
    r.written w.uncached o.uncached = (r.written w o).uncached := rfl

/-- **An operation on a registry is that over the projection of its store.** -/
theorem perform_uncached (words : r.NamesAreWords) (w : Workspace) (c : RegistryCommand) :
    r.perform w.uncached c = (r.perform w c).uncached := by
  cases c with
  | register t d =>
    simp only [perform]
    cases r.register d <;> rfl
  | initializing t key =>
    simp only [perform]
    cases r.setting t key <;> rfl
  | read t key =>
    simp only [perform]
    cases hsetting : r.setting t key with
    | error e => rfl
    | ok s =>
      have hread := s.read_uncached (namesAreWords_of_setting words hsetting) w.store
      simp only [Workspace.uncached, hread]
      rfl
  | assign t key v =>
    simp only [perform]
    rw [← written_uncached, ← r.assign_uncached words w.store t key v]
    rfl
  | resetTyped t key =>
    simp only [perform]
    cases hsetting : r.setting t key with
    | error e => rfl
    | ok s =>
      have hwords := namesAreWords_of_setting words hsetting
      dsimp only
      rw [← written_uncached, ← s.reset_uncached hwords w.store]
      rfl
  | readValue key =>
    have hread := readValue_uncached words w.store key
    simp only [perform, Workspace.uncached, hread]
    cases r.readValue w.store key <;> rfl
  | assignValue key value =>
    simp only [perform]
    rw [← written_uncached, ← assignValue_uncached words w.store key value]
    rfl
  | reset key =>
    simp only [perform]
    rw [← written_uncached, ← reset_uncached words w.store key]
    rfl
  | save =>
    simp only [perform, w.save_uncached]
    rcases w.save with ⟨result, saved⟩
    cases result <;> rfl

end Registry
end TypedConfig
