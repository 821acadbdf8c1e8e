/-
# Reading what is written alike

A document keeps the name of a constant only, and only the name decides what is read. At the
type of an enumeration a resolved constant reads as its name does, down to the error; its type
and place may be those of any other enumeration, or of none. What a value reads as, its
persisted form reads as too (`SettingType.fromValue_persisted_of_ok`), so two values that are
written alike never read as different things. One of them may still be refused where the other is
not: a name that spells an integer can be read at a type of integers, and the constant cannot.
Without such names both read alike at every type (`SettingType.constants_by_name`).

Key theorems: `Enumeration.named_or_unknown`, `SettingType.fromValue_persisted_of_ok`,
`SettingType.constants_by_name`.
-/
import Mathlib
import TypedConfig.Proofs.Schema.Uncached

namespace TypedConfig

/-! ### Names -/

namespace Enumeration

theorem name_injective (e : Enumeration) : Function.Injective e.name := fun i j h => by
  have hi := (e.index?_eq_some_iff (e.name i) i).mpr rfl
  rw [(e.index?_eq_some_iff (e.name i) j).mpr h.symm] at hi
  exact (Option.some.inj hi).symm

/-- A text reads as the one constant of this name, or is reported as unknown. -/
theorem named_or_unknown (e : Enumeration) (name : String) :
    (∃! i, e.name i = name) ∧
        (∀ i, e.name i = name → SettingType.fromValue (.enumeration e) (.string name) = .ok i) ∨
      (∀ i, e.name i ≠ name) ∧ SettingType.fromValue (.enumeration e) (.string name) =
        .error (.unknownConstant e.fullName name) := by
  by_cases hnamed : ∃ i, e.name i = name
  · obtain ⟨i, hi⟩ := hnamed
    refine .inl ⟨⟨i, hi, fun j hj => e.name_injective (hj.trans hi.symm)⟩, fun j hj => ?_⟩
    simp only [SettingType.fromValue, (e.index?_eq_some_iff name j).mpr hj, orError]
  · have hnone : e.index? name = none := by
      rw [Option.eq_none_iff_forall_ne_some]
      exact fun i hi => hnamed ⟨i, (e.index?_eq_some_iff name i).mp hi⟩
    refine .inr ⟨not_exists.mp hnamed, ?_⟩
    simp only [SettingType.fromValue, hnone, orError]

end Enumeration

/-! ### Values -/

namespace SettingType

/-- At the type of an enumeration a resolved constant reads as its name. -/
theorem fromValue_constant (e : Enumeration) (c : Constant) :
    fromValue (.enumeration e) (.constant c) = fromValue (.enumeration e) (.string c.name) := by
  simp only [fromValue, e.ofConstant?_eq]

/-- **What a value reads as, its persisted form reads as too.** -/
theorem fromValue_persisted_of_ok : ∀ (t : SettingType) {value : Value} {v : t.Val},
    t.fromValue value = .ok v → t.fromValue value.persisted = .ok v
  | t, .constant c, v, h => by
    cases t with
    | string => exact h
    | enumeration e =>
      rw [fromValue_constant] at h
      exact h
    | _ => cases h
  | .array t, .array items, vs, h => by
    have hitems := readAll_eq_ok_iff.mp h
    rw [Value.persisted, Value.allPersisted_eq_map, fromValue, readAll_eq_ok_iff,
      List.forall₂_map_left_iff]
    exact hitems.imp fun _ _ => t.fromValue_persisted_of_ok
  | .boolean, .array _, _, h => by cases h
  | .byte, .array _, _, h => by cases h
  | .integer, .array _, _, h => by cases h
  | .long, .array _, _, h => by cases h
  | .float, .array _, _, h => by cases h
  | .double, .array _, _, h => by cases h
  | .string, .array _, _, h => by cases h
  | .enumeration _, .array _, _, h => by cases h
  | _, .bool _, _, h => h
  | _, .int _, _, h => h
  | _, .float _, _, h => h
  | _, .string _, _, h => h

/-- Where no name spells an integer, this is all that is read. -/
theorem fromValue_persisted_eq_ok_iff (t : SettingType) {value : Value}
    (words : value.NamesAreWords) {v : t.Val} :
    t.fromValue value.persisted = .ok v ↔ t.fromValue value = .ok v := by
  refine ⟨fun h => ?_, t.fromValue_persisted_of_ok⟩
  have hoption := t.fromValue_persisted words
  rw [h] at hoption
  cases hread : t.fromValue value with
  | error e =>
    rw [hread] at hoption
    cases hoption
  | ok w =>
    rw [hread] at hoption
    cases hoption
    rfl

/-- **Constants are read by their names.** At the type of an enumeration a resolved constant reads
as its name, whatever type and place it carries: as the one constant that has the name, or as the
error that there is none. Two values that are written alike never read as different values of a
type, and if no name of a constant in them spells an integer, both read as the same value or
neither reads, at every type. -/
theorem constants_by_name :
    (∀ (e : Enumeration) (c : Constant),
      fromValue (.enumeration e) (.constant c) = fromValue (.enumeration e) (.string c.name) ∧
      ((∃! i, e.name i = c.name) ∧
          (∀ i, e.name i = c.name → fromValue (.enumeration e) (.constant c) = .ok i) ∨
        (∀ i, e.name i ≠ c.name) ∧ fromValue (.enumeration e) (.constant c) =
          .error (.unknownConstant e.fullName c.name))) ∧
    ∀ (t : SettingType) (a b : Value), a.samePersisted b = true →
      (∀ v w, t.fromValue a = .ok v → t.fromValue b = .ok w → v = w) ∧
      (a.NamesAreWords → b.NamesAreWords → ∀ v, t.fromValue a = .ok v ↔ t.fromValue b = .ok v) := by
  refine ⟨fun e c => ⟨fromValue_constant e c, ?named⟩, fun t a b same => ⟨?never, ?alike⟩⟩
  case named =>
    rw [fromValue_constant]
    exact e.named_or_unknown c.name
  case never =>
    intro v w hv hw
    have hpersisted := t.fromValue_persisted_of_ok hv
    rw [(Value.samePersisted_iff a b).mp same, t.fromValue_persisted_of_ok hw] at hpersisted
    cases hpersisted
    rfl
  case alike =>
    intro wordsA wordsB v
    rw [← t.fromValue_persisted_eq_ok_iff wordsA, (Value.samePersisted_iff a b).mp same,
      t.fromValue_persisted_eq_ok_iff wordsB]

end SettingType

/-- An enumeration of two constants. -/
def Enumeration.theme : Enumeration :=
  { fullName := "app::Theme", shortName := "Theme", first := "Light", others := ["Dark"] }

/-- A list in which names and constants alternate, one of them from another enumeration with
another order, reads as the list of its names does. -/
theorem SettingType.constants_by_name_alternating :
    let mixed := Value.array
      [.constant ⟨"old::Theme", "Dark", 0⟩, .string "Light", .constant ⟨"app::Theme", "Dark", 7⟩]
    let names := Value.array [.string "Dark", .constant ⟨"app::Theme", "Light", 0⟩, .string "Dark"]
    mixed.samePersisted names = true ∧
      fromValue (.array (.enumeration .theme)) mixed = .ok ([1, 0, 1] : List (Fin 2)) ∧
      fromValue (.array .string) mixed = .ok ["Dark", "Light", "Dark"] := by
  intro mixed names
  have same : mixed.samePersisted names = true := by decide
  have words : mixed.NamesAreWords := ⟨rfl, trivial, rfl, trivial⟩
  have words' : names.NamesAreWords := ⟨trivial, rfl, trivial, trivial⟩
  refine ⟨same, ?_, ?_⟩
  · exact ((constants_by_name.2 (.array (.enumeration .theme)) mixed names same).2 words words'
      _).mpr rfl
  · exact ((constants_by_name.2 (.array .string) mixed names same).2 words words' _).mpr rfl

end TypedConfig
