/-
# What a sound declaration promises

A value meets a list of constraints if it meets every one of them
(`SettingType.validateAll_eq_ok_iff`). A declaration accepts a value that meets its
constraints and can be written (`Declaration.Accepts`); the default of a sound one is
such a value (`Declaration.accepts_default`). An accepted value has finite floats only,
so it equals itself and is read back as it was written (`Declaration.Accepts.fromValue_eq`).

Key definitions: `Declaration.Accepts`.
Key theorems: `SettingType.validateAll_eq_ok_iff`, `Declaration.accepts_default`,
`Declaration.Accepts.fromValue_eq`.
-/
import Mathlib
import TypedConfig.Proofs.Schema.Reading
import TypedConfig.Schema.Declaration

namespace TypedConfig

/-! ### All constraints -/

namespace SettingType

/-- A value meets all constraints if it meets every one. -/
theorem validateAll_eq_ok_iff (t : SettingType) (v : t.Val) (cs : List Constraint) :
    t.validateAll v cs = .ok () ↔ ∀ c ∈ cs, t.validate c v = .ok () := by
  induction cs with
  | nil => simp [validateAll]
  | cons c rest ih =>
    rw [validateAll, List.forall_mem_cons]
    cases hc : t.validate c v with
    | error e => simp
    | ok u => simpa using ih

/-- A value is refused if some constraint refuses it. -/
theorem exists_validateAll_error {t : SettingType} {v : t.Val} {cs : List Constraint}
    (h : ∃ c ∈ cs, ∃ e, t.validate c v = .error e) : ∃ e, t.validateAll v cs = .error e := by
  obtain ⟨c, hc, e, he⟩ := h
  cases hall : t.validateAll v cs with
  | error e => exact ⟨e, rfl⟩
  | ok u =>
    have hok := (t.validateAll_eq_ok_iff v cs).mp hall c hc
    rw [he] at hok
    cases hok

/-- A value that is refused is refused for the reason of the first constraint that it does not
meet. -/
theorem exists_first_of_validateAll_error {t : SettingType} {v : t.Val} {cs : List Constraint}
    {e : ValidationError} (h : t.validateAll v cs = .error e) : ∃ before c after,
      cs = before ++ c :: after ∧ (∀ b ∈ before, t.validate b v = .ok ()) ∧
        t.validate c v = .error e := by
  induction cs with
  | nil => cases h
  | cons c rest ih =>
    rw [validateAll] at h
    cases hc : t.validate c v with
    | error e' =>
      rw [hc] at h
      cases h
      exact ⟨[], c, rest, rfl, nofun, hc⟩
    | ok u =>
      rw [hc] at h
      obtain ⟨before, c', after, hcs, hbefore, he⟩ := ih h
      refine ⟨c :: before, c', after, congrArg (c :: ·) hcs, ?_, he⟩
      exact List.forall_mem_cons.mpr ⟨hc, hbefore⟩

/-- A value that is refused is refused for the reason of one of the constraints. -/
theorem exists_of_validateAll_error {t : SettingType} {v : t.Val} {cs : List Constraint}
    {e : ValidationError} (h : t.validateAll v cs = .error e) :
    ∃ c ∈ cs, t.validate c v = .error e := by
  obtain ⟨before, c, after, rfl, -, he⟩ := exists_first_of_validateAll_error h
  exact ⟨c, List.mem_append_right _ List.mem_cons_self, he⟩

/-! ### Finite values -/

theorem listEqual_self {α : Type} {equal : α → α → Bool} :
    ∀ as : List α, (∀ a ∈ as, equal a a = true) → listEqual equal as as = true
  | [], _ => rfl
  | a :: rest, h => by
    rw [listEqual, h a List.mem_cons_self, Bool.true_and]
    exact listEqual_self rest fun b hb => h b (List.mem_cons_of_mem _ hb)

/-- A value with finite floats equals itself. -/
theorem isEqual_self_of_finite : ∀ (t : SettingType) (v : t.Val), (t.toValue v).AllFinite →
    t.isEqual v v = true
  | .boolean, _, _ => decide_eq_true rfl
  | .byte, _, _ => decide_eq_true rfl
  | .integer, _, _ => decide_eq_true rfl
  | .long, _, _ => decide_eq_true rfl
  | .float, x, finite => by
    have hx := Binary.isFinite_of_convert (x := x) BinaryFormat.single_embeds_double finite
    rw [isEqual, Binary.isEqual_self, Binary.isNaN_of_isFinite hx]
    rfl
  | .double, x, finite => by
    rw [isEqual, Binary.isEqual_self, Binary.isNaN_of_isFinite finite]
    rfl
  | .string, _, _ => decide_eq_true rfl
  | .enumeration _, _, _ => decide_eq_true rfl
  | .array t, items, finite => by
    refine listEqual_self items fun v hv => isEqual_self_of_finite t v ?_
    exact (Value.itemsFinite_iff _).mp finite _ (List.mem_map_of_mem hv)

end SettingType

/-! ### Accepted values -/

/-- A value meets the constraints of a declaration and can be written. -/
structure Declaration.Accepts {t : SettingType} (d : Declaration t) (v : t.Val) : Prop where
  valid : ∀ c ∈ d.constraints, t.validate c v = .ok ()
  persistable : (t.toValue v).checkPersistable = .ok ()

namespace Declaration

variable {t : SettingType} {d : Declaration t} {v : t.Val}

/-- The key of a sound declaration is not empty. -/
theorem key_ne_empty (sound : d.check = .ok ()) : d.key ≠ "" := by
  intro hkey
  rw [check, if_pos hkey] at sound
  cases sound

/-- **A sound declaration accepts its default.** -/
theorem accepts_default (sound : d.check = .ok ()) : d.Accepts d.default := by
  rw [check, if_neg (key_ne_empty sound)] at sound
  split at sound
  · cases sound
  split at sound
  · cases sound
  rename_i hvalid
  split at sound
  · cases sound
  rename_i hpersistable
  exact ⟨(t.validateAll_eq_ok_iff _ _).mp hvalid, hpersistable⟩

namespace Accepts

theorem finite (h : d.Accepts v) : (t.toValue v).AllFinite :=
  Value.allFinite_of_checkPersistable _ h.persistable

/-- What is written as an accepted value is reads as that value. -/
theorem fromValue_eq (h : d.Accepts v) {found : Value} (hfound : found.persisted = t.toValue v) :
    t.fromValue found = .ok v :=
  SettingType.fromValue_eq_of_written hfound h.finite

theorem isEqual_self (h : d.Accepts v) : t.isEqual v v = true :=
  t.isEqual_self_of_finite v h.finite

end Accepts
end Declaration
end TypedConfig
