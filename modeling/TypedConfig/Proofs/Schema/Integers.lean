/-
# Reading integers

The text of an integer is at most one sign and then one or more decimal digits, however
many zeros are in front (`SpellsInteger`). Such a text, and no other, is read as the integer
that its digits stand for by their places (`readInteger?_eq_some_iff`). What is read is then
held against the range of the type, so at every width an integer is read as itself or not at
all (`SettingType.integers_exact`).

Key definitions: `IsDigits`, `decimalValue`, `SpellsInteger`.
Key theorems: `readInteger?_eq_some_iff`, `spellsInteger_integerText`,
`SettingType.integers_exact`.
-/
import Mathlib
import TypedConfig.Schema.Conversion

namespace TypedConfig

/-! ### The texts of integers -/

/-- One or more decimal digits. -/
structure IsDigits (digits : List Char) : Prop where
  ne_nil : digits ≠ []
  isDigit : ∀ c ∈ digits, c.isDigit = true

/-- The number that decimal digits stand for: each counts for a power of ten, the last for one. -/
def decimalValue (digits : List Char) : ℕ :=
  Nat.ofDigits 10 (digits.reverse.map fun c => c.toNat - '0'.toNat)

/-- The characters of an integer: decimal digits, with at most one sign in front. -/
inductive SpellsInteger : List Char → ℤ → Prop
  | unsigned {digits : List Char} (h : IsDigits digits) :
    SpellsInteger digits (decimalValue digits)
  | plus {digits : List Char} (h : IsDigits digits) :
    SpellsInteger ('+' :: digits) (decimalValue digits)
  | minus {digits : List Char} (h : IsDigits digits) :
    SpellsInteger ('-' :: digits) (-(decimalValue digits : ℤ))

/-! ### Reading them -/

theorem digitValue?_eq_some_iff {c : Char} {d : ℕ} :
    digitValue? c = some d ↔ c.isDigit = true ∧ c.toNat - '0'.toNat = d := by
  have hrange : ('0' ≤ c ∧ c ≤ '9') ↔ c.isDigit = true := by
    simp [Char.isDigit, Char.le_def]
  unfold digitValue?
  split
  · rename_i h
    simp only [hrange.mp h, true_and, Option.some.injEq]
  · rename_i h
    simp only [mt hrange.mpr h, false_and, reduceCtorEq]

/-- The first of some digits counts for the power of ten that has as many zeros as there are digits
behind it. -/
theorem decimalValue_cons (c : Char) (digits : List Char) :
    decimalValue (c :: digits) =
      10 ^ digits.length * (c.toNat - '0'.toNat) + decimalValue digits := by
  simp only [decimalValue, List.reverse_cons, List.map_append, List.map_cons, List.map_nil,
    Nat.ofDigits_append, Nat.ofDigits_singleton, List.length_map, List.length_reverse]
  exact Nat.add_comm _ _

/-- Digits that follow a number are read as long as there is nothing else among them. -/
theorem readDigits?_eq_some_iff {digits : List Char} {before n : ℕ} :
    readDigits? before digits = some n ↔ (∀ c ∈ digits, c.isDigit = true) ∧
      10 ^ digits.length * before + decimalValue digits = n := by
  induction digits generalizing before with
  | nil => simp [readDigits?, decimalValue]
  | cons c rest ih =>
    rw [readDigits?, List.forall_mem_cons, decimalValue_cons, List.length_cons]
    cases hc : digitValue? c with
    | none =>
      have hdigit : ¬ c.isDigit = true := by
        intro h
        rw [digitValue?_eq_some_iff.mpr ⟨h, rfl⟩] at hc
        cases hc
      simp only [hdigit, false_and, reduceCtorEq]
    | some d =>
      obtain ⟨hdigit, rfl⟩ := digitValue?_eq_some_iff.mp hc
      have hplaces : 10 ^ (rest.length + 1) * before +
          (10 ^ rest.length * (c.toNat - '0'.toNat) + decimalValue rest) =
          10 ^ rest.length * (10 * before + (c.toNat - '0'.toNat)) + decimalValue rest := by
        rw [pow_succ]
        ring
      simp only [ih, hdigit, true_and, hplaces]

theorem readNatural?_eq_some_iff {digits : List Char} {n : ℕ} :
    readNatural? digits = some n ↔ IsDigits digits ∧ decimalValue digits = n := by
  cases digits with
  | nil => exact ⟨nofun, fun h => absurd rfl h.1.ne_nil⟩
  | cons c rest =>
    rw [readNatural?, readDigits?_eq_some_iff, Nat.mul_zero, Nat.zero_add]
    · exact and_congr_left' ⟨fun h => ⟨List.cons_ne_nil c rest, h⟩, fun h => h.isDigit⟩
    · exact nofun

/-- A sign in front acts on the number that is read behind it. -/
theorem map_readNatural?_eq_some_iff {sign : ℤ → ℤ} {digits : List Char} {n : ℤ} :
    Option.map sign (do let m ← readNatural? digits; pure (m : ℤ)) = some n ↔
      IsDigits digits ∧ sign (decimalValue digits) = n := by
  cases hread : readNatural? digits with
  | none =>
    have hdigits : ¬ IsDigits digits := by
      intro h
      rw [readNatural?_eq_some_iff.mpr ⟨h, rfl⟩] at hread
      cases hread
    simp [hdigits]
  | some m =>
    obtain ⟨hdigits, rfl⟩ := readNatural?_eq_some_iff.mp hread
    simp [hdigits]

/-- Digits do not start with anything else. -/
theorem IsDigits.ne_cons {digits : List Char} (h : IsDigits digits) {c : Char}
    (hc : c.isDigit = false) (rest : List Char) : digits ≠ c :: rest := by
  rintro rfl
  rw [h.isDigit c List.mem_cons_self] at hc
  cases hc

/-- **A text is read as an integer exactly if it spells it.** -/
theorem readInteger?_eq_some_iff {text : String} {n : ℤ} :
    readInteger? text = some n ↔ SpellsInteger text.toList n := by
  unfold readInteger?
  constructor
  · intro h
    split at h
    · rename_i heq
      obtain ⟨hdigits, rfl⟩ := map_readNatural?_eq_some_iff.mp h
      exact heq ▸ .plus hdigits
    · rename_i heq
      obtain ⟨hdigits, rfl⟩ := map_readNatural?_eq_some_iff.mp h
      exact heq ▸ .minus hdigits
    · obtain ⟨hdigits, rfl⟩ := map_readNatural?_eq_some_iff.mp h
      exact .unsigned hdigits
  · generalize text.toList = chars
    intro h
    cases h with
    | unsigned hdigits =>
      split
      · exact absurd rfl (hdigits.ne_cons (by decide) _)
      · exact absurd rfl (hdigits.ne_cons (by decide) _)
      · exact map_readNatural?_eq_some_iff.mpr ⟨hdigits, rfl⟩
    | plus hdigits => exact map_readNatural?_eq_some_iff.mpr ⟨hdigits, rfl⟩
    | minus hdigits => exact map_readNatural?_eq_some_iff.mpr ⟨hdigits, rfl⟩

/-! ### Writing them -/

/-- The digits of a number stand for it. -/
theorem decimalValue_toDigits (n : ℕ) : decimalValue (Nat.toDigits 10 n) = n := by
  have hvalue : ∀ digits : List Char, decimalValue digits = Nat.ofDigitChars 10 digits 0 := by
    intro digits
    induction digits with
    | nil => rfl
    | cons c rest ih =>
      rw [decimalValue_cons, ih, Nat.ofDigitChars_cons, Nat.mul_zero, Nat.zero_add,
        ← Nat.ofDigitChars_eq_ofDigitChars_zero]
  rw [hvalue, Nat.ofDigitChars_ten_toDigits]

theorem isDigits_toDigits (n : ℕ) : IsDigits (Nat.toDigits 10 n) :=
  ⟨Nat.toDigits_ne_nil, fun _ => Nat.isDigit_of_mem_toDigits (by norm_num) (by norm_num)⟩

/-- **The decimal text of an integer spells it.** -/
theorem spellsInteger_integerText (n : ℤ) :
    SpellsInteger (NumberStyle.integerText n).toList n := by
  have hdigits := isDigits_toDigits n.natAbs
  have hvalue := decimalValue_toDigits n.natAbs
  unfold NumberStyle.integerText NumberStyle.naturalText
  split
  · have hspells := SpellsInteger.minus hdigits
    rw [hvalue, show -(n.natAbs : ℤ) = n by omega] at hspells
    simpa using hspells
  · have hspells := SpellsInteger.unsigned hdigits
    rw [hvalue, show (n.natAbs : ℤ) = n by omega] at hspells
    simpa using hspells

/-! ### Ranges -/

/-- A range keeps the integers of a width, each as the one of the same value. -/
theorem isWithin_eq_some_iff {α : Type} {ofInt : ℤ → α} {toInt : α → ℤ} {low high : ℤ}
    (back : ∀ m, ofInt (toInt m) = m) (bounds : ∀ m, low ≤ toInt m ∧ toInt m ≤ high)
    (exact : ∀ n, low ≤ n → n ≤ high → toInt (ofInt n) = n) {n : ℤ} {m : α} :
    (if isWithin low high n then some (ofInt n) else none) = some m ↔ toInt m = n := by
  unfold isWithin
  constructor
  · intro h
    split at h
    · rename_i hrange
      cases h
      obtain ⟨hlow, hhigh⟩ := of_decide_eq_true hrange
      exact exact n hlow hhigh
    · cases h
  · rintro rfl
    rw [if_pos (decide_eq_true (bounds m)), back]

theorem int8?_eq_some_iff {n : ℤ} {m : Int8} : int8? n = some m ↔ m.toInt = n :=
  isWithin_eq_some_iff @Int8.ofInt_toInt (fun m => ⟨m.minValue_le_toInt, m.toInt_le⟩)
    fun _ hlow hhigh => Int8.toInt_ofInt_of_le hlow (Int.lt_add_one_of_le hhigh)

theorem int32?_eq_some_iff {n : ℤ} {m : Int32} : int32? n = some m ↔ m.toInt = n :=
  isWithin_eq_some_iff @Int32.ofInt_toInt (fun m => ⟨m.minValue_le_toInt, m.toInt_le⟩)
    fun _ hlow hhigh => Int32.toInt_ofInt_of_le hlow (Int.lt_add_one_of_le hhigh)

theorem int64?_eq_some_iff {n : ℤ} {m : Int64} : int64? n = some m ↔ m.toInt = n :=
  isWithin_eq_some_iff @Int64.ofInt_toInt (fun m => ⟨m.minValue_le_toInt, m.toInt_le⟩)
    fun _ hlow hhigh => Int64.toInt_ofInt_of_le hlow (Int.lt_add_one_of_le hhigh)

theorem orError_eq_ok_iff {ε α : Type} {error : ε} {a? : Option α} {a : α} :
    orError error a? = .ok a ↔ a? = some a := by
  cases a? <;> simp [orError]

/-! ### Stored values -/

/-- A stored value stands for an integer: it is the integer, or a text that spells it. -/
inductive Value.Denotes : Value → ℤ → Prop
  | int (m : Int64) : Denotes (.int m) m.toInt
  | string {text : String} {n : ℤ} (h : SpellsInteger text.toList n) : Denotes (.string text) n

namespace SettingType

variable {v : Value} {n : ℤ}

/-- At 64 bits a stored value reads as the integer that it stands for, if this is in range. -/
theorem reads_long_iff : (∃ m : Int64, fromValue .long v = .ok m ∧ m.toInt = n) ↔
    v.Denotes n ∧ -2 ^ 63 ≤ n ∧ n < 2 ^ 63 := by
  constructor
  · rintro ⟨m, hread, rfl⟩
    refine ⟨?_, m.minValue_le_toInt, Int.lt_add_one_of_le m.toInt_le⟩
    cases v <;> simp only [fromValue, reduceCtorEq] at hread
    case int k =>
      cases hread
      exact .int m
    case string text =>
      obtain ⟨k, hk, hm⟩ := Option.bind_eq_some_iff.mp (orError_eq_ok_iff.mp hread)
      rw [int64?_eq_some_iff.mp hm]
      exact .string (readInteger?_eq_some_iff.mp hk)
  · rintro ⟨hdenotes, hlow, hhigh⟩
    cases hdenotes with
    | int m => exact ⟨m, rfl, rfl⟩
    | string hspells =>
      have hm := Int64.toInt_ofInt_of_le hlow hhigh
      refine ⟨Int64.ofInt n, orError_eq_ok_iff.mpr ?_, hm⟩
      exact Option.bind_eq_some_iff.mpr
        ⟨n, readInteger?_eq_some_iff.mpr hspells, int64?_eq_some_iff.mpr hm⟩

/-- So it does at 32 bits. -/
theorem reads_integer_iff : (∃ m : Int32, fromValue .integer v = .ok m ∧ m.toInt = n) ↔
    v.Denotes n ∧ -2 ^ 31 ≤ n ∧ n < 2 ^ 31 := by
  constructor
  · rintro ⟨m, hread, rfl⟩
    refine ⟨?_, m.minValue_le_toInt, Int.lt_add_one_of_le m.toInt_le⟩
    cases v <;> simp only [fromValue, reduceCtorEq] at hread
    case int k =>
      rw [int32?_eq_some_iff.mp (orError_eq_ok_iff.mp hread)]
      exact .int k
    case string text =>
      obtain ⟨k, hk, hm⟩ := Option.bind_eq_some_iff.mp (orError_eq_ok_iff.mp hread)
      rw [int32?_eq_some_iff.mp hm]
      exact .string (readInteger?_eq_some_iff.mp hk)
  · rintro ⟨hdenotes, hlow, hhigh⟩
    have hm := Int32.toInt_ofInt_of_le hlow hhigh
    have hfits := int32?_eq_some_iff.mpr hm
    cases hdenotes with
    | int m => exact ⟨_, orError_eq_ok_iff.mpr hfits, hm⟩
    | string hspells =>
      refine ⟨_, orError_eq_ok_iff.mpr ?_, hm⟩
      exact Option.bind_eq_some_iff.mpr ⟨n, readInteger?_eq_some_iff.mpr hspells, hfits⟩

/-- At 8 bits only an integer reads, and no text. -/
theorem reads_byte_iff : (∃ m : Int8, fromValue .byte v = .ok m ∧ m.toInt = n) ↔
    (∃ m : Int64, v = .int m ∧ m.toInt = n) ∧ -2 ^ 7 ≤ n ∧ n < 2 ^ 7 := by
  constructor
  · rintro ⟨m, hread, rfl⟩
    refine ⟨?_, m.minValue_le_toInt, Int.lt_add_one_of_le m.toInt_le⟩
    cases v <;> simp only [fromValue, reduceCtorEq] at hread
    case int k => exact ⟨k, rfl, (int8?_eq_some_iff.mp (orError_eq_ok_iff.mp hread)).symm⟩
  · rintro ⟨⟨k, rfl, rfl⟩, hlow, hhigh⟩
    have hm := Int8.toInt_ofInt_of_le hlow hhigh
    exact ⟨Int8.ofInt k.toInt, orError_eq_ok_iff.mpr (int8?_eq_some_iff.mpr hm), hm⟩

/-- **Integers are read exactly.** A stored value reads at 64 bits as an integer exactly if it is
this integer, or a text that spells it while it is in range. It reads at 32 bits as an integer
exactly if it reads as the same one at 64 bits and this is in the smaller range; and at 8 bits,
exactly if it is this integer, in the smallest range. The decimal text of a 64-bit integer reads
as the integer. -/
theorem integers_exact :
    (∀ (v : Value) (n : ℤ),
      ((∃ m : Int64, fromValue .long v = .ok m ∧ m.toInt = n) ↔
        (∃ m : Int64, v = .int m ∧ m.toInt = n) ∨
          (∃ text, v = .string text ∧ SpellsInteger text.toList n) ∧
            -2 ^ 63 ≤ n ∧ n < 2 ^ 63) ∧
      ((∃ m : Int32, fromValue .integer v = .ok m ∧ m.toInt = n) ↔
        (∃ m : Int64, fromValue .long v = .ok m ∧ m.toInt = n) ∧ -2 ^ 31 ≤ n ∧ n < 2 ^ 31) ∧
      ((∃ m : Int8, fromValue .byte v = .ok m ∧ m.toInt = n) ↔
        (∃ m : Int64, v = .int m ∧ m.toInt = n) ∧ -2 ^ 7 ≤ n ∧ n < 2 ^ 7)) ∧
    ∀ m : Int64, fromValue .long (.string (NumberStyle.integerText m.toInt)) = .ok m := by
  refine ⟨fun v n => ⟨?long, ?integer, reads_byte_iff⟩, fun m => ?text⟩
  case long =>
    rw [reads_long_iff]
    constructor
    · rintro ⟨hdenotes, hrange⟩
      cases hdenotes with
      | int m => exact .inl ⟨m, rfl, rfl⟩
      | string hspells => exact .inr ⟨⟨_, rfl, hspells⟩, hrange⟩
    · rintro (⟨m, rfl, rfl⟩ | ⟨⟨text, rfl, hspells⟩, hrange⟩)
      · exact ⟨.int m, m.minValue_le_toInt, Int.lt_add_one_of_le m.toInt_le⟩
      · exact ⟨.string hspells, hrange⟩
  case integer =>
    rw [reads_integer_iff, reads_long_iff]
    constructor
    · rintro ⟨hdenotes, hlow, hhigh⟩
      exact ⟨⟨hdenotes, by omega, by omega⟩, hlow, hhigh⟩
    · rintro ⟨⟨hdenotes, -⟩, hrange⟩
      exact ⟨hdenotes, hrange⟩
  case text =>
    have hrange : -2 ^ 63 ≤ m.toInt ∧ m.toInt < 2 ^ 63 :=
      ⟨m.minValue_le_toInt, Int.lt_add_one_of_le m.toInt_le⟩
    obtain ⟨k, hread, hk⟩ := reads_long_iff.mpr ⟨.string (spellsInteger_integerText _), hrange⟩
    rw [hread, Int64.toInt_inj.mp hk]

end SettingType
end TypedConfig
