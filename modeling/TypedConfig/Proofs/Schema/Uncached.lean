/-
# Values without a trace of the cache

The cache of constants puts resolved constants where names stood. `Value.uncached`
puts the names back, so it undoes what the cache did. It leaves a constant alone, but for
its type and place, where the name spells an integer: the name could be read at a type of
integers and the constant cannot. So a value and its uncached form read as the same thing
at every type, or not at all (`fromValue_uncached`).

Key definitions: `Value.uncached`, `SettingType.NamesAreWords`, `Value.NamesAreWords`.
Key theorems: `Value.persisted_uncached`, `SettingType.fromValue_uncached`,
`SettingType.toCachedValue_uncached`, `SettingType.uncached_eq_of_persisted_eq`,
`SettingType.fromValue_persisted`.
-/
import Mathlib
import TypedConfig.Proofs.Schema.Reading

namespace TypedConfig

/-! ### The uncached form -/

/-- A constant without its type and place: its name, if this is a word. -/
def Constant.uncached (c : Constant) : Value :=
  if readInteger? c.name = none then .string c.name else .constant ⟨"", c.name, 0⟩

namespace Value

mutual

/-- The value with the names of its constants in their place. -/
def uncached : Value → Value
  | .constant c => c.uncached
  | .array items => .array (allUncached items)
  | v => v

/-- The values of a list with the names of their constants in their place. -/
def allUncached : List Value → List Value
  | [] => []
  | v :: rest => v.uncached :: allUncached rest

end

theorem allUncached_eq_map (vs : List Value) : allUncached vs = vs.map uncached := by
  induction vs with
  | nil => rfl
  | cons v rest ih => simp [allUncached, ih]

mutual

/-- The uncached form is written like the value. -/
@[simp] theorem persisted_uncached : ∀ v : Value, v.uncached.persisted = v.persisted
  | .bool _ => rfl
  | .int _ => rfl
  | .float _ => rfl
  | .string _ => rfl
  | .constant c => by
    simp only [uncached, Constant.uncached]
    split <;> rfl
  | .array items => by simp only [uncached, persisted, allPersisted_allUncached items]

theorem allPersisted_allUncached :
    ∀ vs : List Value, allPersisted (allUncached vs) = allPersisted vs
  | [] => rfl
  | v :: rest => by
    simp only [allUncached, allPersisted, persisted_uncached v, allPersisted_allUncached rest]

end

mutual

/-- What is written holds no constant. -/
@[simp] theorem uncached_persisted : ∀ v : Value, v.persisted.uncached = v.persisted
  | .bool _ => rfl
  | .int _ => rfl
  | .float _ => rfl
  | .string _ => rfl
  | .constant _ => rfl
  | .array items => by simp only [persisted, uncached, allUncached_allPersisted items]

theorem allUncached_allPersisted :
    ∀ vs : List Value, allUncached (allPersisted vs) = allPersisted vs
  | [] => rfl
  | v :: rest => by
    simp only [allPersisted, allUncached, uncached_persisted v, allUncached_allPersisted rest]

end

mutual

/-- A value equals itself if its uncached form does: only a float may differ from itself. -/
theorem isEqual_self_uncached : ∀ v : Value, v.uncached.isEqual v.uncached = v.isEqual v
  | .bool _ => rfl
  | .int _ => rfl
  | .float _ => rfl
  | .string _ => rfl
  | .constant c => by
    simp only [uncached, Constant.uncached]
    split <;> simp [isEqual]
  | .array items => by simp only [uncached, isEqual, allEqual_self_allUncached items]

theorem allEqual_self_allUncached :
    ∀ vs : List Value, allEqual (allUncached vs) (allUncached vs) = allEqual vs vs
  | [] => rfl
  | v :: rest => by
    simp only [allUncached, allEqual, isEqual_self_uncached v, allEqual_self_allUncached rest]

end

theorem samePersisted_of_uncached_eq {a b : Value} (h : a.uncached = b.uncached) :
    a.samePersisted b = true := by
  rw [samePersisted_iff, ← persisted_uncached a, h, persisted_uncached]

theorem samePersisted_uncached (a b : Value) :
    a.uncached.samePersisted b.uncached = a.samePersisted b := by
  rw [Bool.eq_iff_iff, samePersisted_iff, samePersisted_iff, persisted_uncached, persisted_uncached]

theorem checkPersistable_uncached (v : Value) :
    v.uncached.checkPersistable = v.checkPersistable := by
  rw [← checkPersistable_persisted, persisted_uncached, checkPersistable_persisted]

theorem isPersistable_uncached (v : Value) : v.uncached.isPersistable = v.isPersistable := by
  simp only [isPersistable, checkPersistable_uncached]

end Value

/-! ### Names -/

/-- No constant of the type has a name that spells an integer. -/
def SettingType.NamesAreWords : SettingType → Prop
  | .enumeration e => ∀ i, readInteger? (e.name i) = none
  | .array t => t.NamesAreWords
  | _ => True

namespace Value

mutual

/-- No constant in the value has a name that spells an integer. -/
def NamesAreWords : Value → Prop
  | .constant c => readInteger? c.name = none
  | .array items => AllNamesAreWords items
  | _ => True

/-- No constant in the values of a list has a name that spells an integer. -/
def AllNamesAreWords : List Value → Prop
  | [] => True
  | v :: rest => v.NamesAreWords ∧ AllNamesAreWords rest

end

mutual

theorem uncached_eq_persisted : ∀ v : Value, v.NamesAreWords → v.uncached = v.persisted
  | .bool _, _ => rfl
  | .int _, _ => rfl
  | .float _, _ => rfl
  | .string _, _ => rfl
  | .constant _, h => if_pos h
  | .array items, h => by
    simp only [uncached, persisted, allUncached_eq_allPersisted items h]

theorem allUncached_eq_allPersisted :
    ∀ vs : List Value, AllNamesAreWords vs → allUncached vs = allPersisted vs
  | [], _ => rfl
  | v :: rest, h => by
    simp only [allUncached, allPersisted, uncached_eq_persisted v h.1,
      allUncached_eq_allPersisted rest h.2]

end

end Value

/-! ### The stored forms -/

namespace SettingType

theorem toValue_uncached (t : SettingType) (v : t.Val) : (t.toValue v).uncached = t.toValue v := by
  rw [← t.toValue_persisted v, Value.uncached_persisted]

theorem toCachedValue_uncached : ∀ (t : SettingType), t.NamesAreWords → ∀ v : t.Val,
    (t.toCachedValue v).uncached = t.toValue v
  | .boolean, _, _ => rfl
  | .byte, _, _ => rfl
  | .integer, _, _ => rfl
  | .long, _, _ => rfl
  | .float, _, _ => rfl
  | .double, _, _ => rfl
  | .string, _, _ => rfl
  | .enumeration _, words, i => if_pos (words i)
  | .array t, words, items => by
    simp only [toCachedValue, toValue, Value.uncached, Value.allUncached_eq_map, List.map_map]
    congr 1
    exact List.map_congr_left fun v _ => toCachedValue_uncached t words v

/-- At a type of constants, what is written as a value of the type is has words for names. -/
theorem uncached_eq_of_persisted_eq : ∀ (t : SettingType), t.isNamed = true → t.NamesAreWords →
    ∀ (v : t.Val) (found : Value), found.persisted = t.toValue v →
      found.uncached = found.persisted
  | .enumeration e, _, words, i, found, h => by
    cases found with
    | constant c =>
      simp only [Value.persisted, toValue, Value.string.injEq] at h
      have hword : readInteger? c.name = none := h ▸ words i
      exact if_pos hword
    | array items => simp [Value.persisted, toValue] at h
    | _ => rfl
  | .array t, hnamed, words, items, found, h => by
    cases found with
    | array founds =>
      simp only [Value.persisted, Value.uncached, Value.allPersisted_eq_map,
        Value.allUncached_eq_map, toValue, Value.array.injEq] at h ⊢
      refine List.map_congr_left fun w hw => ?_
      have hmem : w.persisted ∈ List.map t.toValue items := h ▸ List.mem_map_of_mem hw
      obtain ⟨v, -, hv⟩ := List.mem_map.mp hmem
      exact uncached_eq_of_persisted_eq t hnamed words v w hv.symm
    | constant c => simp [Value.persisted, toValue] at h
    | _ => rfl

/-! ### Reading -/

/-- Reading a list is decided by what each of its values reads as. -/
theorem readAll_map {α : Type} (read : Value → Except ConversionError α) (f : Value → Value) :
    ∀ vs : List Value, (∀ v ∈ vs, (read (f v)).toOption = (read v).toOption) →
      (readAll read (vs.map f)).toOption = (readAll read vs).toOption
  | [], _ => rfl
  | v :: rest, h => by
    have hv := h v List.mem_cons_self
    have hrest := readAll_map read f rest fun w hw => h w (List.mem_cons_of_mem _ hw)
    simp only [List.map_cons, readAll]
    cases hfv : read (f v) <;> cases hw : read v <;>
      simp only [hfv, hw, Except.toOption, reduceCtorEq, Option.some.injEq] at hv
    · rfl
    · subst hv
      cases hfr : readAll read (rest.map f) <;> cases hr : readAll read rest <;>
        simp_all [Except.toOption]

/-- **A value reads as its uncached form does**, at every type. -/
theorem fromValue_uncached : ∀ (t : SettingType) (v : Value),
    (t.fromValue v.uncached).toOption = (t.fromValue v).toOption
  | t, .constant c => by
    simp only [Value.uncached, Constant.uncached]
    cases t with
    | string => split <;> rfl
    | enumeration e =>
      simp only [fromValue, e.ofConstant?_eq]
      split <;> simp only [fromValue, e.ofConstant?_eq]
    | _ =>
      split
      · rename_i hword
        simp [fromValue, hword, orError, Except.toOption]
      · rfl
  | .array t, .array items => by
    simp only [Value.uncached, Value.allUncached_eq_map, fromValue]
    exact readAll_map t.fromValue _ items fun w _ => fromValue_uncached t w
  | .boolean, .array _ => rfl
  | .byte, .array _ => rfl
  | .integer, .array _ => rfl
  | .long, .array _ => rfl
  | .float, .array _ => rfl
  | .double, .array _ => rfl
  | .string, .array _ => rfl
  | .enumeration _, .array _ => rfl
  | _, .bool _ => rfl
  | _, .int _ => rfl
  | _, .float _ => rfl
  | _, .string _ => rfl

/-- A value and its uncached form both read as one thing, or neither reads. -/
theorem fromValue_uncached_cases (t : SettingType) (v : Value) :
    (∃ a, t.fromValue v = .ok a ∧ t.fromValue v.uncached = .ok a) ∨
      ∃ e e', t.fromValue v = .error e ∧ t.fromValue v.uncached = .error e' := by
  have h := t.fromValue_uncached v
  cases hread : t.fromValue v with
  | ok a =>
    cases hread' : t.fromValue v.uncached with
    | ok a' =>
      rw [hread, hread'] at h
      cases h
      exact .inl ⟨a, rfl, rfl⟩
    | error e' =>
      rw [hread, hread'] at h
      cases h
  | error e =>
    cases hread' : t.fromValue v.uncached with
    | ok a' =>
      rw [hread, hread'] at h
      cases h
    | error e' => exact .inr ⟨e, e', rfl, rfl⟩

/-- A value reads as its persisted form does, unless the name of a constant in it spells an
integer. -/
theorem fromValue_persisted (t : SettingType) {v : Value} (words : v.NamesAreWords) :
    (t.fromValue v.persisted).toOption = (t.fromValue v).toOption := by
  rw [← v.uncached_eq_persisted words, t.fromValue_uncached]

end SettingType
end TypedConfig
