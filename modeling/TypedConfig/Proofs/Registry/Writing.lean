/-
# What a setting reads and writes

A setting reads an open store as it stands, and a closed one as its default. Writing a
value has one of three outcomes: a constraint rejects it, the store refuses it, or it is
stored, and then the setting reads as the value (`Setting.read_of_stored`). A registry
finds a setting under its own key and with its own type (`Registry.setting_eq_ok_iff`).

Key theorems: `Setting.read_eq_current`, `Setting.assign_of_rejected`,
`Setting.assign_of_refused`, `Setting.assign_of_stored`, `Setting.reset_of_open`,
`Registry.setting_eq_ok_iff`.
-/
import Mathlib
import TypedConfig.Proofs.Schema.Validation
import TypedConfig.Proofs.Store.Entries
import TypedConfig.Registry.Command

namespace TypedConfig

/-! ### Settings -/

namespace Setting

variable {t : SettingType} {s : Setting t} {store : Store} {v : t.Val}

theorem key_ne_empty (s : Setting t) : s.key ≠ "" := Declaration.key_ne_empty s.sound

/-- An open store is read as it stands. -/
theorem read_eq_current (s : Setting t) (hopen : store.closed = false) :
    (s.read store).1 = s.current store := by
  have hguard : ¬ (s.key = "" ∨ store.closed = true) := by
    rintro (hkey | hclosed)
    · exact s.key_ne_empty hkey
    · rw [hopen] at hclosed
      cases hclosed
  simp only [read, Store.get, current, if_neg hguard]
  cases store.get? s.key with
  | none => rfl
  | some found => cases hread : t.fromValue found <;> simp only [hread]

/-- A closed store is read as the default, and left alone. -/
theorem read_of_closed (s : Setting t) (hclosed : store.closed = true) :
    s.read store = (s.default, store) := by
  simp only [read, Store.get, if_pos (Or.inr hclosed)]

/-- An entry that is written like an accepted value stands for this value. -/
theorem current_of_written {value : Value} (found : store.get? s.key = some value)
    (accepts : s.declaration.Accepts v) (written : value.persisted = t.toValue v) :
    s.current store = v := by
  simp only [current, found, accepts.fromValue_eq written]

/-- A value that a constraint rejects is not stored. -/
theorem assign_of_rejected (store : Store)
    (rejected : ∃ c ∈ s.declaration.constraints, ∃ e, t.validate c v = .error e) :
    ∃ c ∈ s.declaration.constraints, ∃ reason, t.validate c v = .error reason ∧
      s.assign store v =
        { result := .error (.validation s.key reason)
          store := store
          event? := some (.rejected s.key t.variant (t.toValue v) reason) } := by
  obtain ⟨reason, hreason⟩ := SettingType.exists_validateAll_error rejected
  obtain ⟨c, hmem, hc⟩ := SettingType.exists_of_validateAll_error hreason
  refine ⟨c, hmem, reason, hc, ?_⟩
  simp only [assign, validate, hreason]

theorem validate_of_valid (valid : ∀ c ∈ s.declaration.constraints, t.validate c v = .ok ()) :
    s.validate v = .ok () :=
  (t.validateAll_eq_ok_iff v _).mpr valid

/-- A value that the store refuses is not stored, and nothing is reported. -/
theorem assign_of_refused (valid : ∀ c ∈ s.declaration.constraints, t.validate c v = .ok ())
    {e : StoreError} (refused : store.put t s.key v = .error e) :
    s.assign store v = { result := .error (.store e), store := store } := by
  simp only [assign, validate_of_valid valid, refused]

/-- Any other value is stored, and this is reported. -/
theorem assign_of_stored (valid : ∀ c ∈ s.declaration.constraints, t.validate c v = .ok ())
    {changed : Bool} {after : Store} (stored : store.put t s.key v = .ok (changed, after)) :
    s.assign store v =
      { result := .ok ()
        store := after
        event? := some
          (.updated s.key t.variant (t.toValue (s.current store)) (t.toValue v)) } := by
  simp only [assign, validate_of_valid valid, stored]

/-- **What was stored is what is read from then on.** -/
theorem read_of_stored (valid : ∀ c ∈ s.declaration.constraints, t.validate c v = .ok ())
    {changed : Bool} {after : Store} (stored : store.put t s.key v = .ok (changed, after)) :
    (s.read after).1 = v := by
  obtain ⟨-, -, hcheck, -⟩ := Store.put_eq_ok_iff.mp stored
  rw [s.read_eq_current (Store.closed_of_put stored).2]
  refine current_of_written ?_ ⟨valid, hcheck⟩ (store.memoryForm_persisted t v)
  rw [Store.get?_of_put stored, if_pos rfl]

/-- The default is stored in an open store. -/
theorem exists_put_default (s : Setting t) (hopen : store.closed = false) :
    ∃ changed after, store.put t s.key s.default = .ok (changed, after) :=
  ⟨_, _, Store.put_eq_ok_iff.mpr
    ⟨s.key_ne_empty, hopen, (Declaration.accepts_default s.sound).persistable, rfl⟩⟩

/-- **A setting of an open store can be reset, and then stands at its default.** -/
theorem reset_of_open (s : Setting t) (hopen : store.closed = false) :
    ∃ after, s.reset store =
        { result := .ok ()
          store := after
          event? := some
            (.updated s.key t.variant (t.toValue (s.current store)) (t.toValue s.default)) } ∧
      s.isDefault after = true := by
  have accepts := Declaration.accepts_default s.sound
  obtain ⟨changed, after, hput⟩ := s.exists_put_default hopen
  refine ⟨after, assign_of_stored accepts.valid hput, ?_⟩
  rw [isDefault, ← s.read_eq_current (Store.closed_of_put hput).2,
    read_of_stored accepts.valid hput]
  exact accepts.isEqual_self

end Setting

/-! ### Looking a setting up -/

namespace Registry

variable {r : Registry} {t : SettingType} {key : String}

theorem find_eq_ok_iff {s : AnySetting} : r.find key = .ok s ↔ r.settings.get? key = some s :=
  orError_eq_ok_iff

/-- The setting of a key and a type is the one that stands under the key, if it is of the
type. -/
theorem setting_eq_ok_iff {s : Setting t} :
    r.setting t key = .ok s ↔ r.settings.get? key = some ⟨t, s⟩ := by
  unfold setting
  cases hfind : r.find key with
  | error e =>
    have hnone : r.settings.get? key ≠ some ⟨t, s⟩ := by
      intro hget
      rw [find_eq_ok_iff.mpr hget] at hfind
      cases hfind
    simp [hnone]
  | ok found =>
    obtain ⟨type, setting⟩ := found
    rw [find_eq_ok_iff.mp hfind]
    by_cases htype : type = t
    · subst htype
      simp
    · simp [htype]

theorem key_of_setting {s : Setting t} (h : r.setting t key = .ok s) : s.key = key :=
  r.keyed key ⟨t, s⟩ (setting_eq_ok_iff.mp h)

theorem find_of_setting {s : Setting t} (h : r.setting t key = .ok s) : r.find key = .ok ⟨t, s⟩ :=
  find_eq_ok_iff.mpr (setting_eq_ok_iff.mp h)

theorem setting_of_find {s : AnySetting} (h : r.find key = .ok s) :
    r.setting s.type key = .ok s.setting :=
  setting_eq_ok_iff.mpr (find_eq_ok_iff.mp h)

theorem settingListeners_of_setting {s : Setting t} (h : r.setting t key = .ok s) :
    r.settingListeners key = s.listeners := by
  simp only [settingListeners, setting_eq_ok_iff.mp h]

end Registry
end TypedConfig
