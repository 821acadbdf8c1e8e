/-
# Numbers and the ranges of constraints

The numbers in a value are its leaves, each at a position: the indices on the way down to it
(`SettingType.leafAt?`). A constraint admits a leaf that is a number from its lower to its
upper bound. This is said of the numbers themselves (`Leaf.number?`), of whatever width they
are stored in, so a bound beyond the width of a leaf is what it says, and a 32-bit float
counts with its exact value.

A value is checked against the constraints of its setting in the order of their declaration, and
by each of them from the left. The first constraint that does not admit some leaf is the one
reported, at the leftmost leaf that it does not admit (`SettingType.validateAll_first`).

Key definitions: `Leaf`, `Leaf.number?`, `SettingType.leafAt?`, `Constraint.Admits`,
`Constraint.Rejects`, `Constraint.IsWellFormed`, `Constraint.IsFirstViolation`.
Key theorems: `Constraint.boundsProblem?_eq_none_iff`, `SettingType.finds_validate`,
`SettingType.validate_eq_ok_iff`, `SettingType.validateAll_eq_ok_iff_admits`,
`SettingType.validateAll_first`.
-/
import Mathlib
import TypedConfig.Proofs.Binary.Ordering
import TypedConfig.Proofs.Schema.Validation
import TypedConfig.Proofs.Value.Offences

namespace TypedConfig

open ExtendedRat (ofRat)

/-! ### The numbers in a value -/

/-- A number in a value, in the width of its type. -/
inductive Leaf where
  | byte (n : Int8)
  | integer (n : Int32)
  | long (n : Int64)
  | float (x : Binary32)
  | double (x : Binary64)

/-- The number that a quantity is, if it is one. -/
def Quantity.number? : Quantity → Option ExtendedRat
  | .int n => some (ofRat n.toInt)
  | .float x => x.number?

namespace Leaf

/-- The number that a leaf is, if it is one. -/
def number? : Leaf → Option ExtendedRat
  | .byte n => some (ofRat n.toInt)
  | .integer n => some (ofRat n.toInt)
  | .long n => some (ofRat n.toInt)
  | .float x => x.number?
  | .double x => x.number?

/-- A leaf as it is stored, and shown in messages. -/
def quantity : Leaf → Quantity
  | .byte n => .int n.toInt64
  | .integer n => .int n.toInt64
  | .long n => .int n
  | .float x => .float x.widen
  | .double x => .float x

/-- **What is stored of a leaf is the number that it is.** -/
theorem number?_quantity (leaf : Leaf) : leaf.quantity.number? = leaf.number? := by
  cases leaf with
  | byte n => simp only [quantity, Quantity.number?, number?, Int8.toInt_toInt64]
  | integer n => simp only [quantity, Quantity.number?, number?, Int32.toInt_toInt64]
  | long n => rfl
  | float x => exact Binary.number?_convert BinaryFormat.single_embeds_double x
  | double x => rfl

/-- The sort of constraint that a leaf is checked against. -/
def sort : Leaf → ConstraintKind
  | .byte _ => .intRange
  | .integer _ => .intRange
  | .long _ => .intRange
  | .float _ => .floatRange
  | .double _ => .floatRange

end Leaf

/-- The leaf at a position of a value. -/
def SettingType.leafAt? : (t : SettingType) → t.Val → Position → Option Leaf
  | .byte, n, [] => some (.byte n)
  | .integer, n, [] => some (.integer n)
  | .long, n, [] => some (.long n)
  | .float, x, [] => some (.float x)
  | .double, x, [] => some (.double x)
  | .array t, items, i :: p =>
    match (items : List t.Val)[i]? with
    | some v => t.leafAt? v p
    | none => none
  | _, _, _ => none

/-! ### Constraints as ranges of numbers -/

namespace Constraint

/-- The lower bound. -/
def min : Constraint → Quantity
  | .int r => .int r.min
  | .float r => .float r.min

/-- The upper bound. -/
def max : Constraint → Quantity
  | .int r => .int r.max
  | .float r => .float r.max

/-- The step of an input field. -/
def step : Constraint → Quantity
  | .int r => .int r.step
  | .float r => .float r.step

/-- The bounds are finite numbers in order, and the step is positive. -/
structure IsWellFormed (c : Constraint) : Prop where
  bounds : ∃ low high : ℚ, c.min.number? = some (ofRat low) ∧ c.max.number? = some (ofRat high) ∧
    low ≤ high
  step : ∃ n, c.step.number? = some n ∧ ofRat 0 < n

/-- A leaf is a number, not below the lower bound and not above the upper one. -/
def Admits (c : Constraint) (leaf : Leaf) : Prop :=
  ∃ n low high, leaf.number? = some n ∧ c.min.number? = some low ∧ c.max.number? = some high ∧
    low ≤ n ∧ n ≤ high

/-- Why a leaf is not admitted. -/
inductive Rejects (c : Constraint) (leaf : Leaf) : ValidationError → Prop
  | notANumber (h : leaf.number? = none) : Rejects c leaf .notANumber
  | belowMinimum {n low : ExtendedRat} (hn : leaf.number? = some n)
    (hlow : c.min.number? = some low) (h : n < low) :
    Rejects c leaf (.belowMinimum leaf.quantity c.min)
  | aboveMaximum {n high : ExtendedRat} (hn : leaf.number? = some n)
    (hhigh : c.max.number? = some high) (h : high < n) :
    Rejects c leaf (.aboveMaximum leaf.quantity c.max)

/-- What is rejected is not admitted. -/
theorem Rejects.not_admits {c : Constraint} {leaf : Leaf} {e : ValidationError}
    (h : c.Rejects leaf e) : ¬ c.Admits leaf := by
  rintro ⟨n, low, high, hn, hlow, hhigh, hle, hge⟩
  cases h with
  | notANumber h =>
    rw [hn] at h
    cases h
  | belowMinimum hn' hlow' h =>
    rw [hn, Option.some.injEq] at hn'
    rw [hlow, Option.some.injEq] at hlow'
    subst hn' hlow'
    exact absurd h hle.not_gt
  | aboveMaximum hn' hhigh' h =>
    rw [hn, Option.some.injEq] at hn'
    rw [hhigh, Option.some.injEq] at hhigh'
    subst hn' hhigh'
    exact absurd h hge.not_gt

/-! ### Well-formed bounds -/

theorem number?_zero : (Binary.zero false : Binary64).number? = some (ofRat 0) := by
  decide +kernel

/-- A finite float is a rational number. -/
theorem exists_rat_iff {x : Binary64} :
    (∃ q : ℚ, x.number? = some (ofRat q)) ↔ x.isFinite = true := by
  constructor
  · rintro ⟨q, hq⟩
    rcases x.sort_cases with hx | hx | hx
    · rw [Binary.number?_of_isNaN hx] at hq
      cases hq
    · exact hx
    · rw [Binary.number?_of_isInfinite hx, Option.some.injEq] at hq
      split at hq
      · exact absurd hq (ExtendedRat.bot_lt_ofRat q).ne
      · exact absurd hq (ExtendedRat.ofRat_lt_top q).ne'
  · exact fun hx => ⟨_, Binary.number?_of_isFinite hx⟩

theorem isWellFormed_int (r : IntRange) :
    (int r).IsWellFormed ↔ r.min.toInt ≤ r.max.toInt ∧ 0 < r.step.toInt := by
  constructor
  · rintro ⟨⟨low, high, hlow, hhigh, hle⟩, n, hn, hpos⟩
    simp only [min, max, step, Quantity.number?, Option.some.injEq] at hlow hhigh hn
    rw [← ExtendedRat.ofRat_le_ofRat, ← hlow, ← hhigh, ExtendedRat.ofRat_le_ofRat] at hle
    rw [← hn, ExtendedRat.ofRat_lt_ofRat] at hpos
    exact ⟨by exact_mod_cast hle, by exact_mod_cast hpos⟩
  · rintro ⟨hle, hpos⟩
    refine ⟨⟨_, _, rfl, rfl, by exact_mod_cast hle⟩, _, rfl, ?_⟩
    rw [ExtendedRat.ofRat_lt_ofRat]
    exact_mod_cast hpos

theorem isWellFormed_float (r : FloatRange) :
    (float r).IsWellFormed ↔ r.min.isFinite = true ∧ r.max.isFinite = true ∧
      r.max.isLess r.min = false ∧ (Binary.zero false).isLess r.step = true := by
  have hstep : (Binary.zero false).isLess r.step = true ↔
      ∃ n, r.step.number? = some n ∧ ofRat 0 < n := by
    rw [Binary.isLess_iff (by decide), number?_zero]
    simp
  rw [hstep, Bool.eq_false_iff, ne_eq, Binary.isLess_iff (by decide), ← exists_rat_iff,
    ← exists_rat_iff]
  constructor
  · rintro ⟨⟨low, high, hlow, hhigh, hle⟩, hpos⟩
    refine ⟨⟨low, hlow⟩, ⟨high, hhigh⟩, ?_, hpos⟩
    rintro ⟨a, b, ha, hb, hlt⟩
    rw [show r.max.number? = some (ofRat high) from hhigh, Option.some.injEq] at ha
    rw [show r.min.number? = some (ofRat low) from hlow, Option.some.injEq] at hb
    rw [← ha, ← hb, ExtendedRat.ofRat_lt_ofRat] at hlt
    exact hle.not_gt hlt
  · rintro ⟨⟨low, hlow⟩, ⟨high, hhigh⟩, hle, hpos⟩
    refine ⟨⟨low, high, hlow, hhigh, not_lt.mp fun hlt => hle ?_⟩, hpos⟩
    exact ⟨_, _, hhigh, hlow, ExtendedRat.ofRat_lt_ofRat.mpr hlt⟩

/-- **A constraint has no problem with its bounds exactly if these are finite numbers in order and
the step is positive.** -/
theorem boundsProblem?_eq_none_iff (c : Constraint) : c.boundsProblem? = none ↔ c.IsWellFormed := by
  cases c with
  | int r =>
    have hzero : (0 : Int64).toInt = 0 := rfl
    rw [isWellFormed_int]
    simp only [boundsProblem?, Int64.lt_iff_toInt_lt, Int64.le_iff_toInt_le, hzero]
    split_ifs <;> simp <;> omega
  | float r =>
    rw [isWellFormed_float]
    cases hmin : Binary.isFinite r.min <;> cases hmax : Binary.isFinite r.max <;>
      cases hless : Binary.isLess r.max r.min <;>
      cases hstep : (Binary.zero false).isLess r.step <;>
      simp [boundsProblem?, hmin, hmax, hless, hstep]

/-! ### One constraint and one leaf -/

/-- What a constraint says of a leaf. A constraint of another sort asks nothing. -/
def check (c : Constraint) (leaf : Leaf) : Except ValidationError Unit :=
  match c, leaf.quantity with
  | .int r, .int n => r.check n
  | .float r, .float x => r.check x
  | _, _ => .ok ()

theorem exists_int_of_sort {leaf : Leaf} (h : leaf.sort = .intRange) :
    ∃ n, leaf.quantity = .int n ∧ leaf.number? = some (ofRat n.toInt) := by
  rw [← leaf.number?_quantity]
  cases leaf <;> first | exact ⟨_, rfl, rfl⟩ | cases h

theorem exists_float_of_sort {leaf : Leaf} (h : leaf.sort = .floatRange) :
    ∃ x, leaf.quantity = .float x ∧ leaf.number? = x.number? := by
  rw [← leaf.number?_quantity]
  cases leaf <;> first | exact ⟨_, rfl, rfl⟩ | cases h

/-- A leaf is admitted, or rejected for a reason, as the outcome of a check says. -/
def Judges (c : Constraint) (leaf : Leaf) : Except ValidationError Unit → Prop
  | .ok () => c.Admits leaf
  | .error e => c.Rejects leaf e

/-- **A leaf is admitted or rejected as the number that it is.** -/
theorem judges_check {c : Constraint} (wellFormed : c.IsWellFormed) {leaf : Leaf}
    (sort : leaf.sort = c.kind) : c.Judges leaf (c.check leaf) := by
  cases c with
  | int r =>
    obtain ⟨n, hquantity, hn⟩ := exists_int_of_sort sort
    simp only [check, hquantity, IntRange.check, Int64.lt_iff_toInt_lt]
    split_ifs with hlow hhigh
    · exact hquantity ▸ .belowMinimum hn rfl (by
        rw [ExtendedRat.ofRat_lt_ofRat]
        exact_mod_cast hlow)
    · exact hquantity ▸ .aboveMaximum hn rfl (by
        rw [ExtendedRat.ofRat_lt_ofRat]
        exact_mod_cast hhigh)
    · refine ⟨_, _, _, hn, rfl, rfl, ?_, ?_⟩
      · rw [ExtendedRat.ofRat_le_ofRat]
        exact_mod_cast not_lt.mp hlow
      · rw [ExtendedRat.ofRat_le_ofRat]
        exact_mod_cast not_lt.mp hhigh
  | float r =>
    obtain ⟨x, hquantity, hx⟩ := exists_float_of_sort sort
    obtain ⟨⟨low, high, hlow, hhigh, -⟩, -⟩ := wellFormed
    have hmin : r.min.number? = some (ofRat low) := hlow
    have hmax : r.max.number? = some (ofRat high) := hhigh
    simp only [check, hquantity, FloatRange.check]
    by_cases hnan : x.isNaN = true
    · rw [if_pos hnan]
      exact .notANumber (hx.trans (Binary.number?_of_isNaN hnan))
    rw [if_neg hnan]
    obtain ⟨n, hn⟩ : ∃ n, x.number? = some n :=
      Option.ne_none_iff_exists'.mp fun hnone => hnan (Binary.number?_eq_none_iff.mp hnone)
    have hbelow : x.isLess r.min = true ↔ n < ofRat low := by
      rw [Binary.isLess_iff (by decide), hn, hmin]
      simp
    have habove : r.max.isLess x = true ↔ ofRat high < n := by
      rw [Binary.isLess_iff (by decide), hn, hmax]
      simp
    split_ifs with hlt hgt
    · exact hquantity ▸ .belowMinimum (hx.trans hn) hlow (hbelow.mp hlt)
    · exact hquantity ▸ .aboveMaximum (hx.trans hn) hhigh (habove.mp hgt)
    · exact ⟨n, _, _, hx.trans hn, hlow, hhigh, not_lt.mp (hbelow.not.mp hlt),
        not_lt.mp (habove.not.mp hgt)⟩

end Constraint

/-! ### One constraint and a whole value -/

/-- The error of a leaf at a position of a list: the indices on the way to it, around the reason. -/
def ValidationError.within (reason : ValidationError) (p : Position) : ValidationError :=
  p.foldr .element reason

namespace Constraint

/-- Of the leaves of a value the leftmost one that a constraint does not admit. -/
structure IsFirstViolation (c : Constraint) (leaf? : Position → Option Leaf) (p : Position)
    (leaf : Leaf) (reason : ValidationError) : Prop where
  found : leaf? p = some leaf
  first : ∀ q < p, ∀ other, leaf? q = some other → c.Admits other
  rejected : c.Rejects leaf reason

/-- The outcome of a check tells the leftmost leaf that is not admitted, or that there is none. -/
def Finds (c : Constraint) (leaf? : Position → Option Leaf) : Except ValidationError Unit → Prop
  | .ok () => ∀ p leaf, leaf? p = some leaf → c.Admits leaf
  | .error e => ∃ p leaf reason, c.IsFirstViolation leaf? p leaf reason ∧ e = reason.within p

end Constraint

namespace SettingType

/-- A list passes if its elements do. -/
theorem validateFrom_ok {α : Type} {check : α → Except ValidationError Unit} {index : ℕ} :
    ∀ {items : List α}, validateFrom check index items = .ok () → ∀ a ∈ items, check a = .ok ()
  | [], _ => nofun
  | a :: rest, h => by
    rw [validateFrom] at h
    cases ha : check a with
    | error e =>
      rw [ha] at h
      cases h
    | ok u =>
      rw [ha] at h
      exact List.forall_mem_cons.mpr ⟨ha, validateFrom_ok h⟩

/-- A list that is refused is refused for the first element that is. -/
theorem exists_of_validateFrom_error {α : Type} {check : α → Except ValidationError Unit}
    {index : ℕ} {e : ValidationError} : ∀ {items : List α},
    validateFrom check index items = .error e → ∃ before a after reason,
      items = before ++ a :: after ∧ (∀ b ∈ before, check b = .ok ()) ∧
        check a = .error reason ∧ e = .element (index + before.length) reason
  | [], h => by cases h
  | a :: rest, h => by
    rw [validateFrom] at h
    cases ha : check a with
    | error reason =>
      rw [ha] at h
      cases h
      exact ⟨[], a, rest, reason, rfl, nofun, ha, rfl⟩
    | ok u =>
      rw [ha] at h
      obtain ⟨before, b, after, reason, hrest, hbefore, hb, he⟩ := exists_of_validateFrom_error h
      refine ⟨a :: before, b, after, reason, congrArg (a :: ·) hrest,
        List.forall_mem_cons.mpr ⟨ha, hbefore⟩, hb, ?_⟩
      rw [he, List.length_cons, Nat.add_right_comm, Nat.add_assoc]

/-- The leaves of a list are those of its elements. -/
theorem leafAt?_array {t : SettingType} {items : List t.Val} {p : Position} {leaf : Leaf} :
    (array t).leafAt? items p = some leaf ↔
      ∃ i v q, items[i]? = some v ∧ p = i :: q ∧ t.leafAt? v q = some leaf := by
  cases p with
  | nil => simp [leafAt?]
  | cons i q => cases hitem : items[i]? <;> simp [leafAt?, hitem]

variable {c : Constraint}

/-- The elements are searched from the left, and each of them as a value of its own. -/
theorem finds_array {t : SettingType} {items : List t.Val}
    (finds : ∀ v, c.Finds (t.leafAt? v) (t.validate c v)) :
    c.Finds ((array t).leafAt? items) (validateFrom (t.validate c) 0 items) := by
  have admits : ∀ v, t.validate c v = .ok () → ∀ q leaf, t.leafAt? v q = some leaf →
      c.Admits leaf := by
    intro v hv
    have hfinds := finds v
    rwa [hv] at hfinds
  cases h : validateFrom (t.validate c) 0 items with
  | ok u =>
    intro p leaf hleaf
    obtain ⟨i, v, q, hitem, -, hq⟩ := leafAt?_array.mp hleaf
    exact admits v (validateFrom_ok h v (List.mem_of_getElem? hitem)) q leaf hq
  | error e =>
    obtain ⟨before, v, after, reason, rfl, hbefore, hv, rfl⟩ := exists_of_validateFrom_error h
    have hfinds := finds v
    rw [hv] at hfinds
    obtain ⟨q, leaf, inner, hq, rfl⟩ := hfinds
    have hitem : (before ++ v :: after)[before.length]? = some v := by simp
    refine ⟨before.length :: q, leaf, inner, ⟨?_, ?_, hq.rejected⟩, by rw [Nat.zero_add]; rfl⟩
    · exact leafAt?_array.mpr ⟨_, v, q, hitem, rfl, hq.found⟩
    · intro p hp other hother
      obtain ⟨i, w, q', hitem', rfl, hleaf⟩ := leafAt?_array.mp hother
      rcases List.cons_lt_cons_iff.mp hp with hlt | ⟨rfl, hlt⟩
      · -- it is a leaf of an element that passed
        rw [List.getElem?_append_left hlt] at hitem'
        exact admits w (hbefore w (List.mem_of_getElem? hitem')) q' other hleaf
      · rw [hitem] at hitem'
        cases hitem'
        exact hq.first q' hlt other hleaf

/-- In a number there is one leaf, the number itself. -/
theorem finds_number (wellFormed : c.IsWellFormed) (leaf : Leaf) (sort : leaf.sort = c.kind)
    {leaf? : Position → Option Leaf} (here : leaf? [] = some leaf)
    (nowhere : ∀ i p, leaf? (i :: p) = none) : c.Finds leaf? (c.check leaf) := by
  have hjudges := c.judges_check wellFormed sort
  cases h : c.check leaf with
  | ok u =>
    rw [h] at hjudges
    intro p other hother
    cases p with
    | nil =>
      rw [here] at hother
      cases hother
      exact hjudges
    | cons i p =>
      rw [nowhere] at hother
      cases hother
  | error reason =>
    rw [h] at hjudges
    exact ⟨[], leaf, reason, ⟨here, fun q hq => absurd hq (List.not_lt_nil q), hjudges⟩, rfl⟩

/-- **What a constraint finds in a value is the leftmost leaf that it does not admit.** -/
theorem finds_validate (wellFormed : c.IsWellFormed) : ∀ (t : SettingType) (v : t.Val),
    c.kind ∈ t.allowedConstraints → c.Finds (t.leafAt? v) (t.validate c v)
  | .boolean, _, allowed => nomatch allowed
  | .byte, n, allowed => by
    cases c with
    | int r => exact finds_number wellFormed (.byte n) rfl rfl fun _ _ => rfl
    | float r => simp [allowedConstraints, Constraint.kind] at allowed
  | .integer, n, allowed => by
    cases c with
    | int r => exact finds_number wellFormed (.integer n) rfl rfl fun _ _ => rfl
    | float r => simp [allowedConstraints, Constraint.kind] at allowed
  | .long, n, allowed => by
    cases c with
    | int r => exact finds_number wellFormed (.long n) rfl rfl fun _ _ => rfl
    | float r => simp [allowedConstraints, Constraint.kind] at allowed
  | .float, x, allowed => by
    cases c with
    | int r => simp [allowedConstraints, Constraint.kind] at allowed
    | float r => exact finds_number wellFormed (.float x) rfl rfl fun _ _ => rfl
  | .double, x, allowed => by
    cases c with
    | int r => simp [allowedConstraints, Constraint.kind] at allowed
    | float r => exact finds_number wellFormed (.double x) rfl rfl fun _ _ => rfl
  | .string, _, allowed => nomatch allowed
  | .enumeration _, _, allowed => nomatch allowed
  | .array t, _, allowed => finds_array fun v => finds_validate wellFormed t v allowed

/-- **A value meets a constraint exactly if all its leaves are admitted.** -/
theorem validate_eq_ok_iff (wellFormed : c.IsWellFormed) {t : SettingType} {v : t.Val}
    (allowed : c.kind ∈ t.allowedConstraints) :
    t.validate c v = .ok () ↔ ∀ p leaf, t.leafAt? v p = some leaf → c.Admits leaf := by
  have hfinds := finds_validate wellFormed t v allowed
  cases h : t.validate c v with
  | ok u =>
    rw [h] at hfinds
    exact iff_of_true rfl hfinds
  | error e =>
    rw [h] at hfinds
    obtain ⟨p, leaf, reason, hfirst, -⟩ := hfinds
    refine iff_of_false nofun fun hall => ?_
    exact hfirst.rejected.not_admits (hall p leaf hfirst.found)

/-! ### All constraints and a whole value -/

/-- **A value meets all constraints exactly if all its leaves are admitted by all of them.** -/
theorem validateAll_eq_ok_iff_admits {t : SettingType} {v : t.Val} {cs : List Constraint}
    (allowed : ∀ c ∈ cs, c.kind ∈ t.allowedConstraints) (wellFormed : ∀ c ∈ cs, c.IsWellFormed) :
    t.validateAll v cs = .ok () ↔
      ∀ c ∈ cs, ∀ p leaf, t.leafAt? v p = some leaf → c.Admits leaf := by
  rw [validateAll_eq_ok_iff]
  exact forall₂_congr fun c hc => validate_eq_ok_iff (wellFormed c hc) (allowed c hc)

/-- **A value is checked for whether all its leaves are admitted by all constraints; otherwise the
error is that of the first constraint that does not admit one, at the leftmost such leaf.** The
numbers that are compared are the exact ones. -/
theorem validateAll_first (t : SettingType) (v : t.Val) (cs : List Constraint)
    (allowed : ∀ c ∈ cs, c.kind ∈ t.allowedConstraints)
    (bounds : ∀ c ∈ cs, c.boundsProblem? = none) :
    (t.validateAll v cs = .ok () ↔
      ∀ c ∈ cs, ∀ p leaf, t.leafAt? v p = some leaf → c.Admits leaf) ∧
    (∀ e, t.validateAll v cs = .error e → ∃ before c after, cs = before ++ c :: after ∧
      (∀ b ∈ before, ∀ p leaf, t.leafAt? v p = some leaf → b.Admits leaf) ∧
      ∃ p leaf reason, c.IsFirstViolation (t.leafAt? v) p leaf reason ∧ e = reason.within p) ∧
    (∀ leaf : Leaf, leaf.quantity.number? = leaf.number?) := by
  have wellFormed : ∀ c ∈ cs, c.IsWellFormed := fun c hc =>
    c.boundsProblem?_eq_none_iff.mp (bounds c hc)
  refine ⟨validateAll_eq_ok_iff_admits allowed wellFormed, fun e he => ?_, Leaf.number?_quantity⟩
  obtain ⟨before, c, after, rfl, hbefore, hc⟩ := exists_first_of_validateAll_error he
  have hmem : c ∈ before ++ c :: after := List.mem_append_right _ List.mem_cons_self
  refine ⟨before, c, after, rfl, fun b hb => ?_, ?_⟩
  · have hb' := List.mem_append_left (c :: after) hb
    exact (validate_eq_ok_iff (wellFormed b hb') (allowed b hb')).mp (hbefore b hb)
  · have hfinds := finds_validate (wellFormed c hmem) t v (allowed c hmem)
    rwa [hc] at hfinds

/-- Of two ranges of bytes, one wider than the type, the second rejects the second element of the
first list. -/
theorem validateAll_first_bytes : ∃ before c after,
    [Constraint.int ⟨-1000, 1000, 1⟩, .int ⟨0, 100, 5⟩] = before ++ c :: after ∧
      (∀ b ∈ before, ∀ p leaf, (array (array byte)).leafAt? [[5, -3], [], [127]] p = some leaf →
        b.Admits leaf) ∧
      ∃ p leaf reason,
        c.IsFirstViolation ((array (array byte)).leafAt? [[5, -3], [], [127]]) p leaf reason ∧
          ValidationError.element 0 (.element 1 (.belowMinimum (.int (-3)) (.int 0))) =
            reason.within p :=
  (validateAll_first (array (array byte)) [[5, -3], [], [127]]
    [.int ⟨-1000, 1000, 1⟩, .int ⟨0, 100, 5⟩] (by decide) (by decide)).2.1 _ rfl

end SettingType
end TypedConfig
