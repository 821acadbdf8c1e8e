/-
# Sound declarations

A declaration is sound if its key is not empty, the type allows all its constraints, these
have well-formed bounds and admit every number in the default, and the floats of the default
are finite, so that it can be written (`Declaration.IsSound`). The check accepts exactly the
sound declarations (`Declaration.check_eq_ok_iff`).

Key definitions: `Declaration.IsSound`.
Key theorems: `Declaration.checkConstraints_eq_ok_iff`, `Declaration.check_eq_ok_iff`.
-/
import Mathlib
import TypedConfig.Proofs.Schema.Ranges
import TypedConfig.Proofs.Schema.Writing

namespace TypedConfig

/-- A value can be written exactly if its floats are finite. -/
theorem SettingType.checkPersistable_eq_ok_iff (t : SettingType) (v : t.Val) :
    (t.toValue v).checkPersistable = .ok () ↔ t.isFinite v = true := by
  rw [checkPersistable_toValue]
  split <;> rename_i h <;> simp [h]

namespace Declaration

variable {t : SettingType}

/-- What a declaration has to be for its setting to be used. -/
structure IsSound (d : Declaration t) : Prop where
  named : d.key ≠ ""
  allowed : ∀ c ∈ d.constraints, c.kind ∈ t.allowedConstraints
  wellFormed : ∀ c ∈ d.constraints, c.IsWellFormed
  admitted : ∀ c ∈ d.constraints, ∀ p leaf, t.leafAt? d.default p = some leaf → c.Admits leaf
  finite : t.isFinite d.default = true

/-- Constraints pass if each is allowed and has well-formed bounds. -/
theorem checkConstraints_eq_ok_iff (key : String) (t : SettingType) (cs : List Constraint) :
    checkConstraints key t cs = .ok () ↔
      ∀ c ∈ cs, c.kind ∈ t.allowedConstraints ∧ c.IsWellFormed := by
  induction cs with
  | nil => simp [checkConstraints]
  | cons c rest ih =>
    rw [checkConstraints, List.forall_mem_cons, ← ih, ← Constraint.boundsProblem?_eq_none_iff]
    by_cases hc : c.kind ∈ t.allowedConstraints
    · cases hproblem : c.boundsProblem? <;> simp [hc]
    · simp [hc]

/-- **The check accepts exactly the sound declarations.** -/
theorem check_eq_ok_iff (d : Declaration t) : d.check = .ok () ↔ d.IsSound := by
  constructor
  · intro h
    have hkey := key_ne_empty h
    have accepts := accepts_default h
    rw [check, if_neg hkey] at h
    cases hconstraints : checkConstraints d.key t d.constraints with
    | error e =>
      rw [hconstraints] at h
      cases h
    | ok u =>
      have hcs := (checkConstraints_eq_ok_iff _ _ _).mp hconstraints
      have hall := (t.validateAll_eq_ok_iff _ _).mpr accepts.valid
      have allowed := fun c hc => (hcs c hc).1
      have wellFormed := fun c hc => (hcs c hc).2
      exact ⟨hkey, allowed, wellFormed,
        (SettingType.validateAll_eq_ok_iff_admits allowed wellFormed).mp hall,
        (t.checkPersistable_eq_ok_iff _).mp accepts.persistable⟩
  · intro h
    have hcs : ∀ c ∈ d.constraints, c.kind ∈ t.allowedConstraints ∧ c.IsWellFormed :=
      fun c hc => ⟨h.allowed c hc, h.wellFormed c hc⟩
    have hall := (SettingType.validateAll_eq_ok_iff_admits h.allowed h.wellFormed).mpr h.admitted
    simp only [check, if_neg h.named, (checkConstraints_eq_ok_iff d.key t _).mpr hcs, hall,
      (t.checkPersistable_eq_ok_iff _).mpr h.finite]

end Declaration
end TypedConfig
