/-
# Where a value offends

A position in a value is the list of indices on the way down to it. Two things can be wrong
at a position: it is a float that is not finite, or an element of another shape than the first
one of its array (`Value.Offends`). The check walks arrays from the left and is done with
what is inside an element before the element itself (`Position.Precedes`), so it reports the
offence that this order puts first, and accepts exactly the values without any
(`Value.reports_checkPersistable`).

Key definitions: `Position.Precedes`, `Value.at?`, `Value.Offends`, `Value.IsUniform`,
`IsFirstOffence`.
Key theorems: `Value.isUniform_iff`, `Value.reports_checkPersistable`,
`Value.checkPersistable_first`.
-/
import Mathlib
import TypedConfig.Proofs.Value.Persisted

namespace TypedConfig

/-! ### Places in the order of a walk -/

/-- A position in a value: the indices on the way down to it, that of the outermost array first. -/
abbrev Position : Type := List ℕ

/-- A walk is done with one position before it is done with another. -/
inductive Position.Precedes : Position → Position → Prop
  /-- What is inside a value comes before the value. -/
  | inside (i : ℕ) (p : Position) : Precedes (i :: p) []
  /-- What is inside or at an element comes before what is inside or at a later one. -/
  | left {i j : ℕ} (h : i < j) (p q : Position) : Precedes (i :: p) (j :: q)
  | along (i : ℕ) {p q : Position} (h : Precedes p q) : Precedes (i :: p) (i :: q)

namespace Position.Precedes

theorem asymm : ∀ {p q : Position}, p.Precedes q → ¬ q.Precedes p
  | _, _, inside _ _, h => nomatch h
  | _, _, left h _ _, left h' _ _ => lt_asymm h h'
  | _, _, left h _ _, along _ _ => lt_irrefl _ h
  | _, _, along _ _, left h' _ _ => lt_irrefl _ h'
  | _, _, along _ h, along _ h' => asymm h h'

theorem irrefl (p : Position) : ¬ p.Precedes p := fun h => h.asymm h

/-- A position inside an element, or the element itself, comes no later than the element. -/
theorem inside_or_eq (i : ℕ) (p : Position) : Precedes (i :: p) [i] ∨ p = [] := by
  cases p with
  | nil => exact .inr rfl
  | cons j p => exact .inl (.along i (.inside j p))

end Position.Precedes

/-! ### Offences -/

namespace Value

/-- What stands at a position. -/
def at? : Value → Position → Option Value
  | v, [] => some v
  | .array items, i :: p =>
    match items[i]? with
    | some item => item.at? p
    | none => none
  | _, _ :: _ => none

/-- What is wrong at a position of a value. -/
inductive Offends (v : Value) : Position → PersistenceError → Prop
  /-- It is a float that is not finite. -/
  | float {p : Position} {x : Binary64} (found : v.at? p = some (.float x))
    (h : x.isFinite = false) : Offends v p .nonFiniteFloat
  /-- It is an element of another shape than the first one of its array. -/
  | shape {p : Position} {items : List Value} {first item : Value} {i : ℕ}
    (found : v.at? p = some (.array items)) (hfirst : items[0]? = some first)
    (hitem : items[i]? = some item) (h : first.persistedKind ≠ item.persistedKind) :
    Offends v (p ++ [i]) (.mixedArray first.persistedKind item.persistedKind i)

/-- All floats are finite, and the elements of every array have one shape. -/
structure IsUniform (v : Value) : Prop where
  finite : ∀ p x, v.at? p = some (.float x) → x.isFinite = true
  alike : ∀ p items, v.at? p = some (.array items) →
    ∀ a ∈ items, ∀ b ∈ items, a.persistedKind = b.persistedKind

theorem isUniform_iff (v : Value) : v.IsUniform ↔ ∀ p e, ¬ v.Offends p e := by
  constructor
  · intro uniform p e h
    cases h with
    | float found hx =>
      rw [uniform.finite _ _ found] at hx
      cases hx
    | shape found hfirst hitem hkind =>
      exact hkind (uniform.alike _ _ found _ (List.mem_of_getElem? hfirst) _
        (List.mem_of_getElem? hitem))
  · intro none
    refine ⟨fun p x found => ?_, fun p items found => ?_⟩
    · by_contra hx
      exact none p _ (.float found (Bool.not_eq_true _ ▸ hx))
    · cases items with
      | nil => simp
      | cons first rest =>
        have hfirst : ∀ a ∈ first :: rest, first.persistedKind = a.persistedKind := by
          intro a ha
          obtain ⟨i, hi⟩ := List.mem_iff_getElem?.mp ha
          by_contra hkind
          exact none _ _ (.shape found rfl hi hkind)
        exact fun a ha b hb => (hfirst a ha).symm.trans (hfirst b hb)

/-! ### Offences in a scalar and in an array -/

theorem at?_scalar {v w : Value} (scalar : ∀ items, v ≠ .array items) {p : Position}
    (h : v.at? p = some w) : p = [] ∧ v = w := by
  cases p with
  | nil => exact ⟨rfl, Option.some.inj h⟩
  | cons i p => cases v <;> first | exact absurd rfl (scalar _) | cases h

/-- A value that is no array offends only as a float. -/
theorem offends_scalar {v : Value} (scalar : ∀ items, v ≠ .array items) {p : Position}
    {e : PersistenceError} (h : v.Offends p e) :
    p = [] ∧ e = .nonFiniteFloat ∧ ∃ x, v = .float x ∧ x.isFinite = false := by
  cases h with
  | float found hx =>
    obtain ⟨hp, hv⟩ := at?_scalar scalar found
    exact ⟨hp, rfl, _, hv, hx⟩
  | shape found => exact absurd (at?_scalar scalar found).2 (scalar _)

theorem at?_array {items : List Value} {item : Value} {i : ℕ} (hitem : items[i]? = some item)
    (p : Position) : (array items).at? (i :: p) = item.at? p := by
  simp only [at?, hitem]

theorem exists_item_of_at? {items : List Value} {i : ℕ} {p : Position} {w : Value}
    (h : (array items).at? (i :: p) = some w) :
    ∃ item, items[i]? = some item ∧ item.at? p = some w := by
  simp only [at?] at h
  cases hitem : items[i]? with
  | none =>
    rw [hitem] at h
    cases h
  | some item => exact ⟨item, rfl, by rwa [hitem] at h⟩

/-- What is wrong inside an element is wrong inside the array. -/
theorem Offends.below {items : List Value} {item : Value} {i : ℕ}
    (hitem : items[i]? = some item) {p : Position} {e : PersistenceError} (h : item.Offends p e) :
    (array items).Offends (i :: p) e := by
  cases h with
  | float found hx => exact .float ((at?_array hitem _).trans found) hx
  | shape found hfirst hother hkind =>
    exact .shape (p := i :: _) ((at?_array hitem _).trans found) hfirst hother hkind

/-- An array offends inside an element, or by the shape of one. -/
theorem offends_array {items : List Value} {p : Position} {e : PersistenceError}
    (h : (array items).Offends p e) : ∃ i item q, items[i]? = some item ∧ p = i :: q ∧
      (item.Offends q e ∨ q = [] ∧ ∃ first, items[0]? = some first ∧
        first.persistedKind ≠ item.persistedKind ∧
        e = .mixedArray first.persistedKind item.persistedKind i) := by
  cases h with
  | @float p x found hx =>
    cases p with
    | nil => cases found
    | cons i p =>
      obtain ⟨item, hitem, hfound⟩ := exists_item_of_at? found
      exact ⟨i, item, p, hitem, rfl, .inl (.float hfound hx)⟩
  | @shape p inner first item i found hfirst hitem hkind =>
    cases p with
    | nil =>
      cases found
      exact ⟨i, item, [], hitem, rfl, .inr ⟨rfl, first, hfirst, hkind, rfl⟩⟩
    | cons j p =>
      obtain ⟨outer, houter, hfound⟩ := exists_item_of_at? found
      exact ⟨j, outer, p ++ [i], houter, rfl, .inl (.shape hfound hfirst hitem hkind)⟩

/-- Nothing is wrong with a value itself but that it is a float. -/
theorem Offends.eq_of_nil {v : Value} {p : Position} {e : PersistenceError} (h : v.Offends p e)
    (hp : p = []) : e = .nonFiniteFloat := by
  cases h with
  | float => rfl
  | shape => exact absurd hp (by simp)

end Value

/-! ### The first offence -/

/-- Of some offences the one that a walk meets first. At one position a float that is not finite
comes before a shape that does not fit. -/
structure IsFirstOffence (isOffence : Position → PersistenceError → Prop) (p : Position)
    (e : PersistenceError) : Prop where
  offends : isOffence p e
  first : ∀ q f, isOffence q f → p.Precedes q ∨ p = q ∧ (e = .nonFiniteFloat ∨ e = f)

/-- Only one offence is the first. -/
theorem IsFirstOffence.unique {isOffence : Position → PersistenceError → Prop} {p q : Position}
    {e f : PersistenceError} (h : IsFirstOffence isOffence p e)
    (h' : IsFirstOffence isOffence q f) :
    p = q ∧ e = f := by
  rcases h.first q f h'.offends, h'.first p e h.offends with
    ⟨hpq | ⟨hpq, he⟩, hqp | ⟨hqp, hf⟩⟩
  · exact absurd hqp hpq.asymm
  · exact absurd (hqp ▸ hpq) (Position.Precedes.irrefl _)
  · exact absurd (hpq ▸ hqp) (Position.Precedes.irrefl _)
  · refine ⟨hpq, ?_⟩
    rcases he with rfl | rfl
    · rcases hf with rfl | rfl <;> rfl
    · rfl

/-- The outcome of a check tells the first of some offences, or that there is none. -/
def Reports (isOffence : Position → PersistenceError → Prop) : Except PersistenceError Unit → Prop
  | .ok () => ∀ p e, ¬ isOffence p e
  | .error e => ∃ p, IsFirstOffence isOffence p e

theorem Reports.congr {isOffence isOffence' : Position → PersistenceError → Prop}
    (h : ∀ p e, isOffence p e ↔ isOffence' p e) {r : Except PersistenceError Unit}
    (reports : Reports isOffence r) : Reports isOffence' r := by
  have heq : isOffence = isOffence' := by
    funext p e
    exact propext (h p e)
  rwa [← heq]

/-! ### What the check reports -/

namespace Value

/-- What is wrong in an array from position `index` on. -/
def OffendsFrom (items : List Value) (index : ℕ) (p : Position) (e : PersistenceError) : Prop :=
  (array items).Offends p e ∧ ∃ i q, p = i :: q ∧ index ≤ i

variable {items : List Value} {index : ℕ} {item : Value}

/-- The first offence inside an element comes before all that is wrong from the element on. -/
theorem reports_inside (hitem : items[index]? = some item) {e : PersistenceError}
    (h : Reports item.Offends (.error e)) : Reports (OffendsFrom items index) (.error e) := by
  obtain ⟨p, hp⟩ := h
  refine ⟨index :: p, ⟨hp.offends.below hitem, index, p, rfl, le_rfl⟩, ?_⟩
  rintro q f ⟨hq, i, q', rfl, hi⟩
  rcases hi.lt_or_eq with hlt | rfl
  · exact .inl (.left hlt p q')
  obtain ⟨j, other, q, hother, hcons, hf⟩ := offends_array hq
  cases hcons
  rw [hitem] at hother
  cases hother
  rcases hf with hf | ⟨rfl, -⟩
  · exact (hp.first _ f hf).imp (.along index) (And.imp_left (congrArg _))
  · -- the element's own shape is compared after what is inside it
    exact (Position.Precedes.inside_or_eq index p).imp_right fun hnil =>
      ⟨congrArg _ hnil, .inl (hp.offends.eq_of_nil hnil)⟩

/-- The shape of an element that is in order inside comes before all that is wrong after it. -/
theorem reports_shape {first : Value} (hfirst : items[0]? = some first)
    (hitem : items[index]? = some item) (inside : Reports item.Offends (.ok ()))
    (hkind : first.persistedKind ≠ item.persistedKind) :
    Reports (OffendsFrom items index)
      (.error (.mixedArray first.persistedKind item.persistedKind index)) := by
  have hshape : (array items).Offends [index] _ := .shape (p := []) rfl hfirst hitem hkind
  refine ⟨[index], ⟨hshape, index, [], rfl, le_rfl⟩, ?_⟩
  rintro q f ⟨hq, i, q', rfl, hi⟩
  rcases hi.lt_or_eq with hlt | rfl
  · exact .inl (.left hlt [] q')
  obtain ⟨j, other, q, hother, hcons, hf⟩ := offends_array hq
  cases hcons
  rw [hitem] at hother
  cases hother
  rcases hf with hf | ⟨rfl, first', hfirst', -, rfl⟩
  · exact absurd hf (inside _ _)
  · rw [hfirst] at hfirst'
    cases hfirst'
    exact .inr ⟨rfl, .inr rfl⟩

/-- An element that is in order and fits adds no offence. -/
theorem offendsFrom_succ (hitem : items[index]? = some item)
    (inside : Reports item.Offends (.ok ()))
    (hkind : ∀ first, items[0]? = some first → first.persistedKind = item.persistedKind)
    (p : Position) (e : PersistenceError) :
    OffendsFrom items (index + 1) p e ↔ OffendsFrom items index p e := by
  refine and_congr_right fun h => ⟨?_, ?_⟩
  · rintro ⟨i, q, rfl, hi⟩
    exact ⟨i, q, rfl, by omega⟩
  · rintro ⟨i, q, rfl, hi⟩
    refine ⟨i, q, rfl, hi.lt_of_ne ?_⟩
    rintro rfl
    obtain ⟨j, other, q, hother, hcons, hf⟩ := offends_array h
    cases hcons
    rw [hitem] at hother
    cases hother
    rcases hf with hf | ⟨-, first, hfirst, hne, -⟩
    · exact inside _ _ hf
    · exact hne (hkind first hfirst)

/-- What is no array and no float is in order. -/
theorem reports_of_plain {v : Value} (scalar : ∀ items, v ≠ .array items)
    (plain : ∀ x, v ≠ .float x) : Reports v.Offends (.ok ()) := by
  intro p e h
  obtain ⟨-, -, x, hx, -⟩ := offends_scalar scalar h
  exact plain x hx

mutual

/-- **The check of a value reports its first offence.** -/
theorem reports_checkPersistable : ∀ v : Value, Reports v.Offends v.checkPersistable
  | .float x => by
    have scalar : ∀ items, float x ≠ .array items := nofun
    unfold checkPersistable
    by_cases hx : x.isFinite = true
    · rw [if_pos hx]
      show ∀ p e, ¬ (float x).Offends p e
      intro p e h
      obtain ⟨-, -, y, hy, hfinite⟩ := offends_scalar scalar h
      cases hy
      rw [hx] at hfinite
      cases hfinite
    · rw [if_neg hx]
      refine ⟨[], .float rfl (Bool.not_eq_true _ ▸ hx), fun q f h => .inr ?_⟩
      exact ⟨(offends_scalar scalar h).1.symm, .inl rfl⟩
  | .bool _ => reports_of_plain nofun nofun
  | .int _ => reports_of_plain nofun nofun
  | .string _ => reports_of_plain nofun nofun
  | .constant _ => reports_of_plain nofun nofun
  | .array items =>
    (reports_checkElements [] items).congr fun p e => by
      refine ⟨And.left, fun h => ⟨h, ?_⟩⟩
      obtain ⟨i, item, q, -, hp, -⟩ := offends_array h
      exact ⟨i, q, hp, Nat.zero_le i⟩

/-- The check of the elements of an array behind some that were checked reports the first offence
from there on. -/
theorem reports_checkElements (checked : List Value) : ∀ rest : List Value,
    Reports (OffendsFrom (checked ++ rest) checked.length)
      (checkElements (checked.head?.map persistedKind) checked.length rest)
  | [] => by
    rintro p e ⟨h, i, q, rfl, hi⟩
    obtain ⟨j, item, q', hitem, hcons, -⟩ := offends_array h
    cases hcons
    rw [List.append_nil, List.getElem?_eq_none hi] at hitem
    cases hitem
  | v :: rest => by
    have hitem : (checked ++ v :: rest)[checked.length]? = some v := by simp
    have hv := reports_checkPersistable v
    have hrest := reports_checkElements (checked ++ [v]) rest
    rw [List.append_assoc, List.singleton_append, List.length_append, List.length_singleton]
      at hrest
    unfold checkElements
    cases hcheck : v.checkPersistable with
    | error e => exact reports_inside hitem (hcheck ▸ hv)
    | ok u =>
      have inside : Reports v.Offends (.ok ()) := hcheck ▸ hv
      cases checked with
      | nil =>
        refine hrest.congr (offendsFrom_succ hitem inside fun first hfirst => ?_)
        cases hfirst
        rfl
      | cons first before =>
        have hfirst : (first :: before ++ v :: rest)[0]? = some first := rfl
        by_cases hkind : first.persistedKind = v.persistedKind
        · simp only [List.head?_cons, Option.map_some, if_pos hkind]
          refine hrest.congr (offendsFrom_succ hitem inside fun first' hfirst' => ?_)
          cases hfirst'
          exact hkind
        · simp only [List.head?_cons, Option.map_some, if_neg hkind]
          exact reports_shape hfirst hitem inside hkind

end

/-- **The check accepts the uniform values, and otherwise reports the first offence.** A value
passes if all its floats are finite and the elements of each array in it have one shape in a
document, at whatever depth. Otherwise the error is that of the first offence, where a walk takes
the elements of an array from the left, and is done with what is inside an element before it
compares the element's own shape with that of the first one. Values that are written alike are
checked alike. -/
theorem checkPersistable_first (v : Value) :
    (v.checkPersistable = .ok () ↔ v.IsUniform) ∧
    (∀ e, v.checkPersistable = .error e ↔ ∃ p, IsFirstOffence v.Offends p e) ∧
    ∀ w : Value, v.samePersisted w = true → w.checkPersistable = v.checkPersistable := by
  have reports := v.reports_checkPersistable
  refine ⟨?uniform, fun e => ?first, fun w alike => ?alike⟩
  case uniform =>
    rw [isUniform_iff]
    cases hcheck : v.checkPersistable with
    | ok u =>
      rw [hcheck] at reports
      exact iff_of_true rfl reports
    | error e =>
      rw [hcheck] at reports
      obtain ⟨p, hp⟩ := reports
      exact iff_of_false nofun fun none => none p e hp.offends
  case first =>
    cases hcheck : v.checkPersistable with
    | ok u =>
      rw [hcheck] at reports
      exact iff_of_false nofun fun ⟨p, hp⟩ => reports p e hp.offends
    | error e' =>
      rw [hcheck] at reports
      obtain ⟨p, hp⟩ := reports
      constructor
      · intro h
        cases h
        exact ⟨p, hp⟩
      · rintro ⟨q, hq⟩
        rw [(hp.unique hq).2]
  case alike =>
    rw [← checkPersistable_persisted w, ← (samePersisted_iff v w).mp alike,
      checkPersistable_persisted]

/-- An array of one word, written in two ways, of a number beside an array, and of a number. -/
def unevenList (word : Value) : Value :=
  .array [.array [word, .string "FAST"],
    .array [.int 1, .array [.float (Binary.ofParts false BinaryFormat.double.infinityWord)]],
    .int 3]

/-- The infinity inside the number's neighbour comes before the neighbour's shape, and both come
before the last number's. -/
theorem checkPersistable_first_unevenList :
    let v := unevenList (.constant ⟨"Mode", "FAST", 1⟩)
    let w := unevenList (.string "FAST")
    v.Offends [2] (.mixedArray .array .int 2) ∧ v.Offends [1, 1] (.mixedArray .int .array 1) ∧
      v.Offends [1, 1, 0] .nonFiniteFloat ∧
      (∃ p, IsFirstOffence v.Offends p .nonFiniteFloat) ∧
      (∀ p i, ¬ IsFirstOffence v.Offends p (.mixedArray .int .array i)) ∧
      ¬ v.IsUniform ∧ w.checkPersistable = .error .nonFiniteFloat := by
  intro v w
  obtain ⟨uniform, first, alike⟩ := checkPersistable_first v
  have hcheck : v.checkPersistable = .error .nonFiniteFloat := rfl
  have hlast : v.Offends ([] ++ [2]) _ := .shape rfl (show _ = some (.array [_, _]) from rfl)
    (show _ = some (.int 3) from rfl) (by decide)
  have hinner : v.Offends ([1] ++ [1]) _ := .shape rfl (show _ = some (.int 1) from rfl)
    (show _ = some (.array [_]) from rfl) (by decide)
  refine ⟨hlast, hinner, .float rfl rfl, (first _).mp hcheck, fun p i h => ?_, fun h => ?_,
    (alike w rfl).trans hcheck⟩
  · have hother := (first _).mpr ⟨p, h⟩
    rw [hcheck] at hother
    cases hother
  · have hok := uniform.mpr h
    rw [hcheck] at hok
    cases hok

end Value
end TypedConfig
