/-
# A registry guards its store

A registry guards a store if every entry is that of one of its settings and is written like
a value that the declaration of the setting accepts (`Registry.Guards`). An empty store is
guarded by any registry. Each operation on the registry keeps its store guarded
(`Registry.Guards.perform`): what it writes was accepted first, a default was accepted when
the setting was declared, and a setting that is added has no entry yet. So do operations on
the store itself that bring no entry about (`Registry.Guards.command`).

Key definitions: `Registry.Admits`, `Registry.Guards`, `Registry.Extends`,
`StoreCommand.AddsNothing`.
Key theorems: `Registry.Guards.perform`, `Registry.Guards.command`,
`Registry.Guards.accepts_read`.
-/
import Mathlib
import TypedConfig.Proofs.Registry.Writing
import TypedConfig.Proofs.Store.Tally

namespace TypedConfig

namespace Registry

/-! ### Registries that grow -/

/-- Every setting of a registry is in another one too, declared alike. -/
def Extends (r r' : Registry) : Prop :=
  ∀ t key s, r.setting t key = .ok s →
    ∃ s', r'.setting t key = .ok s' ∧ s'.declaration = s.declaration

theorem Extends.trans {r r' r'' : Registry} (h : r.Extends r') (h' : r'.Extends r'') :
    r.Extends r'' := by
  intro t key s hs
  obtain ⟨s', hs', hd⟩ := h t key s hs
  obtain ⟨s'', hs'', hd'⟩ := h' t key s' hs'
  exact ⟨s'', hs'', hd'.trans hd⟩

variable {r r' : Registry} {t : SettingType} {key : String}

theorem setting_place (r : Registry) (s : Setting t) :
    (r.place ⟨t, s⟩).setting t s.key = .ok s :=
  setting_eq_ok_iff.mpr (r.settings.get?_insert_self s.key ⟨t, s⟩)

theorem setting_place_of_ne {u : SettingType} {s : Setting t} {other : Setting u}
    (hkey : s.key ≠ key) :
    (r.place ⟨t, s⟩).setting u key = .ok other ↔ r.setting u key = .ok other := by
  rw [setting_eq_ok_iff, setting_eq_ok_iff]
  show (r.settings.insert s.key ⟨t, s⟩).get? key = some ⟨u, other⟩ ↔ _
  rw [SortedMap.get?_insert, if_neg hkey]

/-- A setting may be replaced by one that is declared alike. -/
theorem extends_place {s s' : Setting t} (h : r.setting t key = .ok s)
    (hd : s'.declaration = s.declaration) : r.Extends (r.place ⟨t, s'⟩) := by
  have hkey : s'.key = key := (congrArg Declaration.key hd).trans (key_of_setting h)
  intro u other old hold
  by_cases hother : s'.key = other
  · subst hother
    rw [← hkey, setting_eq_ok_iff] at h
    rw [setting_eq_ok_iff, h] at hold
    cases hold
    exact ⟨s', r.setting_place s', hd⟩
  · exact ⟨old, (setting_place_of_ne hother).mpr hold, rfl⟩

/-- A declaration that is taken in has a key of its own. -/
theorem extends_register {d : Declaration t} {s : Setting t} (h : r.register d = .ok (s, r')) :
    r.Extends r' ∧ r'.setting t s.key = .ok s ∧ r'.name = r.name := by
  unfold register at h
  split at h
  · cases h
  split at h
  · cases h
  rename_i hfree
  cases h
  refine ⟨fun u other old hold => ?_, r.setting_place _, rfl⟩
  refine ⟨old, (setting_place_of_ne fun hkey => hfree ?_).mpr hold, rfl⟩
  rw [SortedMap.contains, show d.key = other from hkey, setting_eq_ok_iff.mp hold]
  rfl

/-- No operation renames a registry. -/
theorem perform_name (r : Registry) (w : Workspace) (c : RegistryCommand) :
    (r.perform w c).registry.name = r.name := by
  cases c with
  | register t d =>
    simp only [perform]
    cases hregister : r.register d with
    | error e => rfl
    | ok p => exact (extends_register hregister).2.2
  | initializing t key =>
    simp only [perform]
    cases r.setting t key <;> rfl
  | read t key =>
    simp only [perform]
    cases r.setting t key <;> rfl
  | assign t key v => rfl
  | resetTyped t key =>
    simp only [perform]
    cases r.setting t key <;> rfl
  | readValue key =>
    simp only [perform]
    cases r.readValue w.store key <;> rfl
  | assignValue key value => rfl
  | reset key => rfl
  | save =>
    simp only [perform]
    rcases w.save with ⟨_ | _, after⟩ <;> rfl

/-! ### Entries that a registry admits -/

/-- A value is written like one that the setting of a key accepts. -/
def Admits (r : Registry) (key : String) (value : Value) : Prop :=
  ∃ t s, r.setting t key = .ok s ∧
    ∃ v, value.persisted = t.toValue v ∧ s.declaration.Accepts v

/-- Every entry of a store is one that the registry admits. -/
def Guards (r : Registry) (store : Store) : Prop :=
  ∀ key value, store.get? key = some value → r.Admits key value

variable {store store' : Store}

theorem Admits.of_persisted {old value : Value} (h : r.Admits key old)
    (written : value.persisted = old.persisted) : r.Admits key value := by
  obtain ⟨t, s, hs, v, hv, accepts⟩ := h
  exact ⟨t, s, hs, v, written.trans hv, accepts⟩

theorem Admits.mono {value : Value} (h : r.Admits key value) (grows : r.Extends r') :
    r'.Admits key value := by
  obtain ⟨t, s, hs, v, hv, accepts⟩ := h
  obtain ⟨s', hs', hd⟩ := grows t key s hs
  exact ⟨t, s', hs', v, hv, hd ▸ accepts⟩

/-- The default of a setting is admitted. -/
theorem admits_default {s : Setting t} (h : r.setting t key = .ok s) {value : Value}
    (written : value.persisted = t.toValue s.default) : r.Admits key value :=
  ⟨t, s, h, s.default, written, Declaration.accepts_default s.sound⟩

namespace Guards

theorem mono (guards : r.Guards store) (grows : r.Extends r') : r'.Guards store :=
  fun key value h => (guards key value h).mono grows

/-- Entries that were there before are no concern. -/
theorem of_subset (guards : r.Guards store)
    (subset : ∀ key value, store'.get? key = some value → store.get? key = some value) :
    r.Guards store' :=
  fun key value h => guards key value (subset key value h)

/-! ### Operations on a setting -/

theorem read (guards : r.Guards store) {s : Setting t} (h : r.setting t key = .ok s) :
    r.Guards (s.read store).2 := by
  intro other value hvalue
  rcases Store.get_entry hvalue with ⟨old, hold, written⟩ | ⟨hkey, written⟩
  · exact (guards other old hold).of_persisted written
  · rw [hkey, key_of_setting h]
    exact admits_default h written

theorem assign (guards : r.Guards store) {s : Setting t} (h : r.setting t key = .ok s)
    (v : t.Val) : r.Guards (s.assign store v).store := by
  unfold Setting.assign
  cases hvalid : s.validate v with
  | error reason => exact guards
  | ok u =>
    cases hput : store.put t s.key v with
    | error e => exact guards
    | ok p =>
      obtain ⟨changed, after⟩ := p
      have accepts : s.declaration.Accepts v :=
        ⟨(t.validateAll_eq_ok_iff v _).mp hvalid, (Store.put_eq_ok_iff.mp hput).2.2.1⟩
      intro other value hvalue
      have hvalue : after.get? other = some value := hvalue
      rw [Store.get?_of_put hput] at hvalue
      split at hvalue
      · rename_i hkey
        cases hvalue
        rw [← hkey, key_of_setting h]
        exact ⟨t, s, h, v, store.memoryForm_persisted t v, accepts⟩
      · exact guards other value hvalue

theorem assignValue (guards : r.Guards store) {s : Setting t} (h : r.setting t key = .ok s)
    (value : Value) : r.Guards (s.assignValue store value).store := by
  unfold Setting.assignValue
  cases t.fromValue value with
  | error e => exact guards
  | ok v => exact guards.assign h v

/-! ### Operations on the registry -/

/-- **An operation on a registry keeps its store guarded.** -/
theorem perform {w : Workspace} (guards : r.Guards w.store) (c : RegistryCommand) :
    (r.perform w c).registry.Guards (r.perform w c).workspace.store := by
  cases c with
  | register t d =>
    simp only [Registry.perform]
    cases hregister : r.register d with
    | error e => exact guards
    | ok p =>
      obtain ⟨s, grown⟩ := p
      obtain ⟨grows, hs, -⟩ := extends_register hregister
      -- the setting is placed twice, first as declared and then as set up
      refine guards.mono (grows.trans (extends_place hs ?_))
      simp only [Setting.initializing]
      split <;> rfl
  | initializing t key =>
    simp only [Registry.perform]
    cases hs : r.setting t key with
    | error e => exact guards
    | ok s =>
      refine guards.mono (extends_place hs ?_)
      simp only [Setting.initializing]
      split <;> rfl
  | read t key =>
    simp only [Registry.perform]
    cases hs : r.setting t key with
    | error e => exact guards
    | ok s => exact guards.read hs
  | assign t key v =>
    simp only [Registry.perform, Registry.assign]
    cases hs : r.setting t key with
    | error e => exact guards
    | ok s => exact guards.assign hs v
  | resetTyped t key =>
    simp only [Registry.perform]
    cases hs : r.setting t key with
    | error e => exact guards
    | ok s => exact guards.assign hs s.default
  | readValue key =>
    simp only [Registry.perform, Registry.readValue]
    cases hfind : r.find key with
    | error e => exact guards
    | ok s => exact guards.read (setting_of_find hfind)
  | assignValue key value =>
    simp only [Registry.perform, Registry.assignValue]
    cases hfind : r.find key with
    | error e => exact guards
    | ok s => exact guards.assignValue (setting_of_find hfind) value
  | reset key =>
    simp only [Registry.perform, Registry.reset]
    cases hfind : r.find key with
    | error e => exact guards
    | ok s => exact guards.assign (setting_of_find hfind) s.setting.default
  | save =>
    have hentries := (w.save_keeps).1
    rw [Workspace.perform_save] at hentries
    have hstore : r.Guards w.save.2.store := guards.of_subset fun key value h => by
      rwa [Store.get?, hentries] at h
    simp only [Registry.perform]
    rcases hsave : w.save with ⟨_ | _, after⟩ <;> rw [hsave] at hstore <;> exact hstore

end Guards

/-! ### Operations on the store -/

end Registry

/-- Whether an operation on a store can bring no entry about. -/
def StoreCommand.AddsNothing : StoreCommand → Prop
  | .get _ _ _ => False
  | .put _ _ _ => False
  | .putValue _ _ => False
  | _ => True

/-- What is there after such an operation was there before. -/
theorem Workspace.perform_subset {w : Workspace} {c : StoreCommand} (hc : c.AddsNothing)
    {key : String} {value : Value} (h : (w.perform c).2.store.get? key = some value) :
    w.store.get? key = some value := by
  cases c with
  | get t key default => exact hc.elim
  | put t key v => exact hc.elim
  | putValue key value => exact hc.elim
  | remove other =>
    simp only [perform] at h
    cases hremove : w.store.remove other with
    | error e =>
      rw [hremove] at h
      exact h
    | ok p =>
      rw [hremove] at h
      exact Store.remove_entry hremove h
  | clear =>
    rw [perform_clear] at h
    split at h
    · exact h
    · cases h
  | save =>
    rw [Store.get?, w.save_keeps.1] at h
    exact h
  | close => exact h
  | setAutoPopulate on => exact h
  | setEnumCache on => exact h

namespace Registry.Guards

variable {r : Registry} {t : SettingType} {key : String} {store : Store}

/-- **An operation on the store that adds nothing keeps it guarded.** -/
theorem command {w : Workspace} (guards : r.Guards w.store) {c : StoreCommand}
    (hc : c.AddsNothing) : r.Guards (w.perform c).2.store :=
  guards.of_subset fun _ _ h => Workspace.perform_subset hc h

theorem of_empty (r : Registry) (h : store.entries = SortedMap.empty) : r.Guards store := by
  intro key value hvalue
  rw [Store.get?, h] at hvalue
  cases hvalue

/-! ### What a guarded store is read as -/

/-- **The entry of a setting reads as a value that its declaration accepts.** -/
theorem accepts_entry (guards : r.Guards store) {s : Setting t} (h : r.setting t key = .ok s)
    {value : Value} (found : store.get? key = some value) :
    ∃ v, t.fromValue value = .ok v ∧ s.declaration.Accepts v := by
  obtain ⟨t', s', hs', v, written, accepts⟩ := guards key value found
  rw [setting_eq_ok_iff] at h hs'
  rw [h] at hs'
  cases hs'
  exact ⟨v, accepts.fromValue_eq written, accepts⟩

/-- **A setting is read as a value that its declaration accepts.** -/
theorem accepts_read (guards : r.Guards store) {s : Setting t} (h : r.setting t key = .ok s) :
    s.declaration.Accepts (s.read store).1 := by
  by_cases hclosed : store.closed = true
  · rw [s.read_of_closed hclosed]
    exact Declaration.accepts_default s.sound
  rw [s.read_eq_current (Bool.not_eq_true _ ▸ hclosed)]
  unfold Setting.current
  rw [key_of_setting h]
  cases hfound : store.get? key with
  | none => exact Declaration.accepts_default s.sound
  | some value =>
    obtain ⟨v, hread, accepts⟩ := guards.accepts_entry h hfound
    simp only [hread]
    exact accepts

end Registry.Guards
end TypedConfig
