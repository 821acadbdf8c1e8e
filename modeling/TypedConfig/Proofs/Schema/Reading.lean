/-
# Reading what was written

A setting's two stored forms are written alike, and what is written as a value of a
type is can be read at it: as that value, if all its floats are finite
(`fromValue_eq_of_written`). A resolved constant is found by its name alone, whatever
type and place it carries (`ofConstant?_eq`).

Key definitions: `SettingType.isNamed`.
Key theorems: `Enumeration.ofConstant?_eq`, `SettingType.toCachedValue_persisted`,
`SettingType.fromValue_of_written`, `SettingType.persisted_eq_of_isEqual`.
-/
import Mathlib
import TypedConfig.Proofs.Binary.Widening
import TypedConfig.Proofs.Schema.Integers
import TypedConfig.Proofs.Value.Shape

namespace TypedConfig

/-! ### Constants -/

namespace Enumeration

theorem index?_eq_some_iff (e : Enumeration) (name : String) (i : e.Index) :
    e.index? name = some i ↔ e.name i = name := by
  simp only [index?, Enumeration.name, List.finIdxOf?_eq_some_iff, List.get_eq_getElem,
    Fin.getElem_fin, and_iff_left_iff_imp]
  intro hi j hj he
  have hij : j = i := Fin.ext ((List.Nodup.getElem_inj_iff e.distinct).mp (he.trans hi.symm))
  exact absurd hj (hij ▸ lt_irrefl i)

/-- **A resolved constant is found by its name.** The place that it carries is only a short
way to the same constant. -/
theorem ofConstant?_eq (e : Enumeration) (c : Constant) : e.ofConstant? c = e.index? c.name := by
  unfold ofConstant?
  split
  · split
    · rename_i hlt hc
      exact ((e.index?_eq_some_iff _ _).mpr hc.2).symm
    · rfl
  · rfl

end Enumeration

/-! ### The two stored forms -/

namespace SettingType

theorem toValue_persisted : ∀ (t : SettingType) (v : t.Val), (t.toValue v).persisted = t.toValue v
  | .boolean, _ => rfl
  | .byte, _ => rfl
  | .integer, _ => rfl
  | .long, _ => rfl
  | .float, _ => rfl
  | .double, _ => rfl
  | .string, _ => rfl
  | .enumeration _, _ => rfl
  | .array t, items => by
    simp only [toValue, Value.persisted, Value.allPersisted_eq_map, List.map_map]
    congr 1
    exact List.map_congr_left fun v _ => toValue_persisted t v

/-- The two forms are written alike. -/
theorem toCachedValue_persisted :
    ∀ (t : SettingType) (v : t.Val), (t.toCachedValue v).persisted = t.toValue v
  | .boolean, _ => rfl
  | .byte, _ => rfl
  | .integer, _ => rfl
  | .long, _ => rfl
  | .float, _ => rfl
  | .double, _ => rfl
  | .string, _ => rfl
  | .enumeration _, _ => rfl
  | .array t, items => by
    simp only [toCachedValue, toValue, Value.persisted, Value.allPersisted_eq_map, List.map_map]
    congr 1
    exact List.map_congr_left fun v _ => toCachedValue_persisted t v

end SettingType

/-! ### A form that was written -/

namespace SettingType

/-- A list is read exactly if each of its items is. -/
theorem readAll_eq_ok_iff {α : Type} {read : Value → Except ConversionError α}
    {founds : List Value} {vs : List α} : readAll read founds = .ok vs ↔
      List.Forall₂ (fun found v => read found = .ok v) founds vs := by
  induction founds generalizing vs with
  | nil => cases vs <;> simp [readAll]
  | cons found founds ih =>
    cases vs with
    | nil =>
      rw [List.forall₂_nil_right_iff, readAll]
      cases read found <;> cases readAll read founds <;> simp
    | cons v vs =>
      rw [List.forall₂_cons, ← ih, readAll]
      cases read found <;> cases readAll read founds <;> simp

/-- The items of a list are read one by one: as themselves, if their floats are finite. -/
theorem readAll_of_written {t : SettingType}
    (read : ∀ (d : t.Val) (found : Value), found.persisted = t.toValue d →
      ∃ v, t.fromValue found = .ok v ∧ ((t.toValue d).AllFinite → v = d)) :
    ∀ (ds : List t.Val) (founds : List Value), founds.map Value.persisted = ds.map t.toValue →
      ∃ vs, readAll t.fromValue founds = .ok vs ∧
        (Value.ItemsFinite (ds.map t.toValue) → vs = ds)
  | [], [], _ => ⟨[], rfl, fun _ => rfl⟩
  | [], _ :: _, h => by simp at h
  | _ :: _, [], h => by simp at h
  | d :: ds, found :: founds, h => by
    simp only [List.map_cons, List.cons.injEq] at h
    obtain ⟨v, hv, hvd⟩ := read d found h.1
    obtain ⟨vs, hvs, hvsd⟩ := readAll_of_written read ds founds h.2
    refine ⟨v :: vs, by simp only [readAll, hv, hvs], fun finite => ?_⟩
    rw [hvd finite.1, hvsd finite.2]

/-- **What is written as a value of a type is can be read at the type**, and is that value if all
its floats are finite. -/
theorem fromValue_of_written : ∀ (t : SettingType) (d : t.Val) (found : Value),
    found.persisted = t.toValue d →
      ∃ v, t.fromValue found = .ok v ∧ ((t.toValue d).AllFinite → v = d)
  | .boolean, d, found, h => by
    cases found <;> simp [Value.persisted, toValue] at h
    subst h
    exact ⟨_, rfl, fun _ => rfl⟩
  | .byte, d, found, h => by
    cases found <;> simp [Value.persisted, toValue] at h
    subst h
    exact ⟨d, orError_eq_ok_iff.mpr (int8?_eq_some_iff.mpr d.toInt_toInt64.symm), fun _ => rfl⟩
  | .integer, d, found, h => by
    cases found <;> simp [Value.persisted, toValue] at h
    subst h
    exact ⟨d, orError_eq_ok_iff.mpr (int32?_eq_some_iff.mpr d.toInt_toInt64.symm), fun _ => rfl⟩
  | .long, d, found, h => by
    cases found <;> simp [Value.persisted, toValue] at h
    subst h
    exact ⟨_, rfl, fun _ => rfl⟩
  | .float, d, found, h => by
    cases found <;> simp [Value.persisted, toValue] at h
    subst h
    -- the word of a float that is no number may come back as another one
    exact ⟨_, rfl, fun finite => Binary32.narrow_widen
      (Binary.isFinite_of_convert BinaryFormat.single_embeds_double finite)⟩
  | .double, d, found, h => by
    cases found <;> simp [Value.persisted, toValue] at h
    subst h
    exact ⟨_, rfl, fun _ => rfl⟩
  | .string, d, found, h => by
    cases found <;> simp [Value.persisted, toValue] at h
    · subst h
      exact ⟨_, rfl, fun _ => rfl⟩
    · subst h
      exact ⟨_, rfl, fun _ => rfl⟩
  | .enumeration e, d, found, h => by
    have hd : e.index? (e.name d) = some d := (e.index?_eq_some_iff _ _).mpr rfl
    cases found <;> simp [Value.persisted, toValue] at h
    · subst h
      exact ⟨d, by simp [fromValue, orError, hd], fun _ => rfl⟩
    · exact ⟨d, by simp [fromValue, orError, e.ofConstant?_eq, h, hd], fun _ => rfl⟩
  | .array t, d, found, h => by
    cases found with
    | array items =>
      simp only [Value.persisted, toValue, Value.array.injEq, Value.allPersisted_eq_map] at h
      exact readAll_of_written (fun d found h => fromValue_of_written t d found h) d items h
    | _ => simp [Value.persisted, toValue] at h

/-- What is written as a value of a type is can be read at the type. -/
theorem fromValue_of_persisted_eq (t : SettingType) (d : t.Val) (found : Value)
    (h : found.persisted = t.toValue d) : ∃ v, t.fromValue found = .ok v :=
  (t.fromValue_of_written d found h).imp fun _ hv => hv.1

/-- What is written as a value with finite floats is reads as that value. -/
theorem fromValue_eq_of_written {t : SettingType} {d : t.Val} {found : Value}
    (h : found.persisted = t.toValue d) (finite : (t.toValue d).AllFinite) :
    t.fromValue found = .ok d := by
  obtain ⟨v, hv, hvd⟩ := t.fromValue_of_written d found h
  rw [hv, hvd finite]

/-! ### Types whose values are constants

Two values in memory may be equal and yet be written differently: the two zeros are. What is
read at a type of constants holds no number, and there equal values are written alike. -/

/-- Whether the values of a type are made of constants of an enumeration alone. -/
def isNamed : SettingType → Bool
  | .enumeration _ => true
  | .array t => t.isNamed
  | _ => false

theorem isNamed_of_holdsConstant : ∀ (t : SettingType) (v : t.Val),
    (t.toCachedValue v).holdsConstant = true → t.isNamed = true
  | .boolean, _, h => by simp [toCachedValue, toValue, Value.holdsConstant] at h
  | .byte, _, h => by simp [toCachedValue, toValue, Value.holdsConstant] at h
  | .integer, _, h => by simp [toCachedValue, toValue, Value.holdsConstant] at h
  | .long, _, h => by simp [toCachedValue, toValue, Value.holdsConstant] at h
  | .float, _, h => by simp [toCachedValue, toValue, Value.holdsConstant] at h
  | .double, _, h => by simp [toCachedValue, toValue, Value.holdsConstant] at h
  | .string, _, h => by simp [toCachedValue, toValue, Value.holdsConstant] at h
  | .enumeration _, _, _ => rfl
  | .array t, items, h => by
    simp only [toCachedValue, Value.holdsConstant] at h
    induction items with
    | nil => simp [Value.anyHoldsConstant] at h
    | cons a rest ih =>
      simp only [List.map_cons, Value.anyHoldsConstant, Bool.or_eq_true] at h
      rcases h with h | h
      · exact isNamed_of_holdsConstant t a h
      · exact ih h

/-- Constants hold no float. -/
theorem allFinite_of_isNamed : ∀ (t : SettingType), t.isNamed = true → ∀ v : t.Val,
    (t.toValue v).AllFinite
  | .enumeration _, _, _ => trivial
  | .array t, ht, items => by
    simp only [toValue, Value.AllFinite, Value.itemsFinite_iff, List.forall_mem_map]
    exact fun v _ => allFinite_of_isNamed t ht v

theorem persisted_eq_of_allEqual : ∀ as bs : List Value,
    (∀ b ∈ bs, ∀ a : Value, a.isEqual b = true → a.persisted = b.persisted) →
      Value.allEqual as bs = true → as.map Value.persisted = bs.map Value.persisted
  | [], [], _, _ => rfl
  | [], _ :: _, _, h => by simp [Value.allEqual] at h
  | _ :: _, [], _, h => by simp [Value.allEqual] at h
  | a :: as, b :: bs, hb, h => by
    simp only [Value.allEqual, Bool.and_eq_true] at h
    have hrest := persisted_eq_of_allEqual as bs (fun c hc => hb c (List.mem_cons_of_mem _ hc)) h.2
    simp only [List.map_cons, hb b List.mem_cons_self a h.1, hrest]

/-- At a type of constants, what equals a readable value is written like it. -/
theorem persisted_eq_of_isEqual : ∀ (t : SettingType), t.isNamed = true → ∀ (v : t.Val)
    (a found : Value), found.persisted = t.toValue v → a.isEqual found = true →
      a.persisted = found.persisted
  | .enumeration e, _, v, a, found, hf, h => by
    cases found <;> simp only [Value.persisted, toValue, reduceCtorEq] at hf <;>
      cases a <;> simp only [Value.isEqual, Bool.false_eq_true, beq_iff_eq] at h
    · rw [h]
    · rw [h]
  | .array t, ht, items, a, found, hf, h => by
    cases found with
    | array founds =>
      cases a with
      | array as =>
        simp only [Value.isEqual] at h
        simp only [Value.persisted, Value.allPersisted_eq_map, toValue, Value.array.injEq] at hf ⊢
        refine persisted_eq_of_allEqual as founds (fun b hb a ha => ?_) h
        have hmem : b.persisted ∈ List.map t.toValue items := hf ▸ List.mem_map_of_mem hb
        obtain ⟨v, -, hv⟩ := List.mem_map.mp hmem
        exact persisted_eq_of_isEqual t ht v a b hv.symm ha
      | _ => simp [Value.isEqual] at h
    | _ => simp [Value.persisted, toValue] at hf

end SettingType
end TypedConfig
