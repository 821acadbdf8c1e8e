/-
# Taking declarations in

A registry takes in a declaration that is sound and whose key is free, and refuses any other
one without a change. What it took in is then set up, which is told
(`Registry.perform_register`).

Key theorems: `Registry.register_of_unsound`, `Registry.register_of_taken`,
`Registry.register_of_free`, `Registry.perform_register`.
-/
import Mathlib
import TypedConfig.Proofs.Registry.Guarding
import TypedConfig.Proofs.Schema.Soundness

namespace TypedConfig

theorem Setting.isSound {t : SettingType} (s : Setting t) : s.declaration.IsSound :=
  s.declaration.check_eq_ok_iff.mp s.sound

namespace Registry

variable {r : Registry} {t : SettingType} {d : Declaration t}

theorem register_of_unsound {e : SchemaError} (unsound : d.check = .error e) :
    r.register d = .error e := by
  unfold register
  split <;> rename_i h <;> rw [unsound] at h <;> cases h
  rfl

theorem register_of_taken (sound : d.check = .ok ()) (taken : r.settings.get? d.key ≠ none) :
    r.register d = .error (.duplicateKey d.key) := by
  unfold register
  split
  · rename_i h
    rw [sound] at h
    cases h
  · exact if_pos (Option.isSome_iff_ne_none.mpr taken)

theorem register_of_free (sound : d.check = .ok ()) (free : r.settings.get? d.key = none) :
    r.register d = .ok ({ declaration := d, sound }, r.place ⟨t, { declaration := d, sound }⟩) := by
  unfold register
  split
  · rename_i h
    rw [sound] at h
    cases h
  · refine if_neg fun taken => ?_
    rw [SortedMap.contains, free] at taken
    cases taken

/-- **A declaration is taken in exactly if it is sound and its key is free. A refused one changes
nothing and is not told of.** -/
theorem perform_register (r : Registry) (w : Workspace) (d : Declaration t) :
    ((d.IsSound ∧ r.settings.get? d.key = none) ∧
      ∃ s after, r.perform w (.register t d) =
          { reply := .registered t s
            registry := after
            workspace := w
            event? := some (.initialized d.key t.variant) } ∧
        after.setting t d.key = .ok s ∧ s.declaration = d ∧ s.initialized = true) ∨
    (¬ (d.IsSound ∧ r.settings.get? d.key = none) ∧
      ∃ e, r.perform w (.register t d) = { reply := .unsound e, registry := r, workspace := w }) := by
  have hrefused : ∀ e, r.register d = .error e →
      r.perform w (.register t d) = { reply := .unsound e, registry := r, workspace := w } := by
    intro e he
    simp only [perform, he]
  rw [← d.check_eq_ok_iff]
  cases hcheck : d.check with
  | error e =>
    refine .inr ⟨?_, e, hrefused e (register_of_unsound hcheck)⟩
    rintro ⟨h, -⟩
    cases h
  | ok u =>
    cases hfound : r.settings.get? d.key with
    | some found =>
      have htaken : r.settings.get? d.key ≠ none := by
        rw [hfound]
        exact Option.some_ne_none found
      refine .inr ⟨?_, _, hrefused _ (register_of_taken hcheck htaken)⟩
      rintro ⟨-, h⟩
      cases h
    | none =>
      let s : Setting t := { declaration := d, sound := hcheck, initialized := true }
      have hperform : r.perform w (.register t d) =
          { reply := .registered t s
            registry := (r.place ⟨t, { declaration := d, sound := hcheck }⟩).place ⟨t, s⟩
            workspace := w
            event? := some (.initialized d.key t.variant) } := by
        simp only [perform, register_of_free hcheck hfound]
        rfl
      exact .inl ⟨⟨rfl, rfl⟩, s, _, hperform, setting_place _ s, rfl, rfl⟩

end Registry
end TypedConfig
