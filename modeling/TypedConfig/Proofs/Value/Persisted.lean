/-
# The persisted form of a value

What a document keeps of a value: `Value.persisted` puts the string of its name in
place of every resolved constant, however deep it stands. Two values are written
alike exactly if they have the same persisted form (`samePersisted_iff`), so being
written alike is an equivalence, and everything that is decided by the text of a
value, such as whether it can be written at all, is decided by its persisted form.

Key definitions: `Value.persisted`, `Value.allPersisted`.
Key theorems: `Value.samePersisted_iff`, `Value.checkPersistable_persisted`,
`Value.json_persisted`.
-/
import Mathlib
import TypedConfig.Json.Layout
import TypedConfig.Value.Persistable

namespace TypedConfig
namespace Value

mutual

/-- The value as a document keeps it: a constant is the string of its name. -/
def persisted : Value → Value
  | .constant c => .string c.name
  | .array items => .array (allPersisted items)
  | v => v

/-- The values of a list as a document keeps them. -/
def allPersisted : List Value → List Value
  | [] => []
  | v :: rest => v.persisted :: allPersisted rest

end

theorem allPersisted_eq_map : ∀ vs : List Value, allPersisted vs = vs.map persisted
  | [] => rfl
  | v :: rest => by simp [allPersisted, allPersisted_eq_map rest]

mutual

@[simp] theorem persisted_persisted : ∀ v : Value, v.persisted.persisted = v.persisted
  | .bool _ => rfl
  | .int _ => rfl
  | .float _ => rfl
  | .string _ => rfl
  | .constant _ => rfl
  | .array items => by simp [persisted, allPersisted_allPersisted items]

theorem allPersisted_allPersisted :
    ∀ vs : List Value, allPersisted (allPersisted vs) = allPersisted vs
  | [] => rfl
  | v :: rest => by
    simp [allPersisted, persisted_persisted v, allPersisted_allPersisted rest]

end

/-! ### Being written alike -/

mutual

/-- **Being written alike is having one persisted form.** -/
theorem samePersisted_iff : ∀ a b : Value, a.samePersisted b = true ↔ a.persisted = b.persisted
  | .bool _, b => by cases b <;> simp [samePersisted, persisted, text?]
  | .int _, b => by cases b <;> simp [samePersisted, persisted, text?]
  | .float _, b => by cases b <;> simp [samePersisted, persisted, text?]
  | .string _, b => by cases b <;> simp [samePersisted, persisted, text?]
  | .constant _, b => by cases b <;> simp [samePersisted, persisted, text?]
  | .array as, .array bs => by simp [samePersisted, persisted, allSamePersisted_iff as bs]
  | .array _, .bool _ => by simp [samePersisted, persisted, text?]
  | .array _, .int _ => by simp [samePersisted, persisted, text?]
  | .array _, .float _ => by simp [samePersisted, persisted, text?]
  | .array _, .string _ => by simp [samePersisted, persisted, text?]
  | .array _, .constant _ => by simp [samePersisted, persisted, text?]

theorem allSamePersisted_iff :
    ∀ as bs : List Value, allSamePersisted as bs = true ↔ allPersisted as = allPersisted bs
  | [], [] => by simp [allSamePersisted, allPersisted]
  | [], _ :: _ => by simp [allSamePersisted, allPersisted]
  | _ :: _, [] => by simp [allSamePersisted, allPersisted]
  | a :: as, b :: bs => by
    simp [allSamePersisted, allPersisted, samePersisted_iff a b, allSamePersisted_iff as bs]

end

/-! ### What depends on the persisted form alone -/

@[simp] theorem persistedKind_persisted (v : Value) :
    v.persisted.persistedKind = v.persistedKind := by
  cases v <;> rfl

mutual

/-- Whether a value can be written, and why not, is seen in its persisted form. -/
theorem checkPersistable_persisted :
    ∀ v : Value, v.persisted.checkPersistable = v.checkPersistable
  | .bool _ => rfl
  | .int _ => rfl
  | .float _ => rfl
  | .string _ => rfl
  | .constant _ => by simp [persisted, checkPersistable]
  | .array items => by
    simp only [persisted, checkPersistable]
    exact checkElements_allPersisted none 0 items

theorem checkElements_allPersisted (expected : Option Kind) (index : Nat) :
    ∀ vs : List Value,
      checkElements expected index (allPersisted vs) = checkElements expected index vs
  | [] => rfl
  | v :: rest => by
    simp only [allPersisted, checkElements, checkPersistable_persisted v, persistedKind_persisted,
      checkElements_allPersisted _ (index + 1) rest]

end

mutual

/-- The text of a value is that of its persisted form. -/
theorem json_persisted (layout : JsonLayout) (level : Nat) :
    ∀ v : Value, v.persisted.json layout level = v.json layout level
  | .bool _ => rfl
  | .int _ => rfl
  | .float _ => rfl
  | .string _ => rfl
  | .constant _ => by simp [persisted, json]
  | .array [] => rfl
  | .array (v :: rest) => by
    simp only [persisted, allPersisted, json, json_persisted layout (level + 1) v,
      jsonItems_allPersisted layout (level + 1) rest]

theorem jsonItems_allPersisted (layout : JsonLayout) (level : Nat) :
    ∀ vs : List Value, jsonItems layout level (allPersisted vs) = jsonItems layout level vs
  | [] => rfl
  | v :: rest => by
    simp only [allPersisted, jsonItems, json_persisted layout level v,
      jsonItems_allPersisted layout level rest]

end

end Value
end TypedConfig
