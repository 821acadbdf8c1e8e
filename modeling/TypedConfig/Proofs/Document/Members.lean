/-
# What is read of an object

A text that is one object, in any spelling, is read as a document exactly if every
member is null or built of truth values, numbers, strings and arrays alone, and so is
each member that a later one of its key replaces; otherwise it is malformed. Under
each key the document has the value of the last member, and nothing if that is null
(`Encoding.decode_object`).

A number is read as an integer if it is written as one, is not minus zero and fits 64
bits, and otherwise as a float (`JsonToken.NumberText.value?_numeral`).

Key definitions: `JsonToken.NumberText.IsInteger`, `JsonToken.NumbersInRange`,
`Json.isPlain`, `Json.Converts`, `Json.lastMember?`.
Key theorems: `JsonToken.NumberText.value?_numeral`, `Value.ofJson?_eq_some_iff`,
`Value.isSome_ofJson?`, `Document.addMembers?_of_plain`, `Encoding.decode_object`.
-/
import Mathlib
import TypedConfig.Proofs.Binary.Overflow
import TypedConfig.Proofs.Document.Settling
import TypedConfig.Proofs.Json.Lexing

namespace TypedConfig

/-! ### Numerals -/

/-- An integer is one of 64 bits exactly if it lies in their range. -/
theorem int64?_eq (n : ℤ) :
    int64? n = if -2 ^ 63 ≤ n ∧ n < 2 ^ 63 then some (Int64.ofInt n) else none := by
  have hmin : Int64.minValue.toInt = -2 ^ 63 := rfl
  have hmax : Int64.maxValue.toInt = 2 ^ 63 - 1 := rfl
  have hiff : (-2 ^ 63 ≤ n ∧ n ≤ 2 ^ 63 - 1) ↔ (-2 ^ 63 ≤ n ∧ n < 2 ^ 63) := by omega
  simp only [int64?, isWithin, hmin, hmax, decide_eq_true_eq, hiff]

namespace Numeral

/-- The integer that a numeral without a scale stands for. -/
def integer (n : Numeral) : ℤ := if n.negative then -(n.digits : ℤ) else n.digits

/-- Whether a numeral is read as an integer. -/
def IsInteger (n : Numeral) : Prop :=
  n.scale? = none ∧ ¬ (n.negative = true ∧ n.digits = 0) ∧ -2 ^ 63 ≤ n.integer ∧ n.integer < 2 ^ 63

instance (n : Numeral) : Decidable n.IsInteger := inferInstanceAs (Decidable (_ ∧ _))

/-- What is not read as an integer is read as a float. -/
theorem value?_eq (n : Numeral) : n.value? =
    if n.IsInteger then some (.int (Int64.ofInt n.integer)) else n.float? (n.scale?.getD 0) := by
  unfold value?
  cases hscale : n.scale? with
  | some scale =>
    have hfloat : ¬ n.IsInteger := fun h => by
      have := h.1
      rw [hscale] at this
      cases this
    rw [if_neg hfloat]
    rfl
  | none =>
    dsimp only
    by_cases hzero : n.negative = true ∧ n.digits = 0
    · have hfloat : ¬ n.IsInteger := fun h => h.2.1 hzero
      rw [if_pos hzero, if_neg hfloat]
      rfl
    · rw [if_neg hzero, int64?_eq]
      by_cases hfits : -2 ^ 63 ≤ n.integer ∧ n.integer < 2 ^ 63
      · have hinteger : n.IsInteger := ⟨hscale, hzero, hfits⟩
        rw [if_pos hinteger]
        unfold integer at hfits ⊢
        rw [if_pos hfits]
      · have hfloat : ¬ n.IsInteger := fun h => hfits h.2.2
        rw [if_neg hfloat]
        unfold integer at hfits
        rw [if_neg hfits]
        rfl

end Numeral

/-! ### Numbers as they are written -/

namespace JsonToken

theorem le_foldl_digits : ∀ (ds : List Char) (n : ℕ),
    n ≤ ds.foldl (fun n c => 10 * n + (c.toNat - '0'.toNat)) n
  | [], _ => le_rfl
  | c :: ds, n => by
    have ih := le_foldl_digits ds (10 * n + (c.toNat - '0'.toNat))
    rw [List.foldl_cons]
    omega

/-- Digits that stand for nothing are a single zero. -/
theorem IsWhole.eq_zero {ds : List Char} (h : IsWhole ds) (hzero : digitsValue ds = 0) :
    ds = ['0'] := by
  rcases h with rfl | ⟨hne, hhead, hall⟩
  · rfl
  · -- the first digit alone counts for something
    obtain ⟨c, ds, rfl⟩ := List.exists_cons_of_ne_nil hne
    have hdigit : '0' ≤ c := (of_decide_eq_true (hall c List.mem_cons_self)).1
    have hle := le_foldl_digits ds (10 * 0 + (c.toNat - '0'.toNat))
    have hvalue : digitsValue (c :: ds) =
        ds.foldl (fun n c => 10 * n + (c.toNat - '0'.toNat)) (10 * 0 + (c.toNat - '0'.toNat)) := rfl
    have hcode : '0'.toNat ≤ c.toNat := hdigit
    have hsame : c.toNat = '0'.toNat := by omega
    have hc : c = '0' := Char.toNat_inj.mp hsame
    exact absurd (by rw [hc]; rfl) hhead

namespace NumberText

/-- The integer that the digits before the point stand for. -/
def integer (n : NumberText) : ℤ :=
  if n.negative then -(digitsValue n.whole : ℤ) else digitsValue n.whole

/-- What is read as an integer: a number that is written as one, other than minus zero, and that
fits 64 bits. -/
structure IsInteger (n : NumberText) : Prop where
  noFraction : n.fraction? = none
  noExponent : n.exponent? = none
  notMinusZero : n.text ≠ ['-', '0']
  fits : -2 ^ 63 ≤ n.integer ∧ n.integer < 2 ^ 63

theorem scale?_eq_none_iff (n : NumberText) :
    n.numeral.scale? = none ↔ n.fraction? = none ∧ n.exponent? = none := by
  unfold numeral scaleOf?
  cases n.fraction? <;> cases n.exponent? <;> simp

section Whole

variable {n : NumberText} (noFraction : n.fraction? = none) (noExponent : n.exponent? = none)

include noFraction noExponent

theorem numeral_of_whole : n.numeral = ⟨n.negative, digitsValue n.whole, none⟩ := by
  rw [numeral, noFraction, noExponent]
  simp [trimZeros, scaleOf?]

theorem text_eq_minusZero_iff :
    n.text = ['-', '0'] ↔ n.negative = true ∧ digitsValue n.whole = 0 := by
  have htext : n.text = (if n.negative then ['-'] else []) ++ n.whole := by
    rw [text, noFraction, noExponent]
    simp [fractionText, exponentText]
  rw [htext]
  constructor
  · intro h
    by_cases hnegative : n.negative = true
    · rw [if_pos hnegative] at h
      have hwhole : n.whole = ['0'] := (List.cons.inj h).2
      exact ⟨hnegative, by rw [hwhole]; rfl⟩
    · -- no digits start with a minus
      rw [if_neg hnegative, List.nil_append] at h
      rcases n.isWhole with hwhole | ⟨-, -, hall⟩
      · rw [h] at hwhole
        cases hwhole
      · rw [h] at hall
        exact absurd (hall '-' List.mem_cons_self) (by decide)
  · rintro ⟨hnegative, hzero⟩
    rw [if_pos hnegative, n.isWhole.eq_zero hzero]
    rfl

end Whole

theorem isInteger_iff (n : NumberText) : n.IsInteger ↔ n.numeral.IsInteger := by
  constructor
  · rintro ⟨noFraction, noExponent, notMinusZero, fits⟩
    rw [ne_eq, text_eq_minusZero_iff noFraction noExponent] at notMinusZero
    rw [numeral_of_whole noFraction noExponent]
    exact ⟨rfl, notMinusZero, fits⟩
  · intro h
    obtain ⟨noFraction, noExponent⟩ := n.scale?_eq_none_iff.mp h.1
    rw [numeral_of_whole noFraction noExponent] at h
    obtain ⟨-, notMinusZero, fits⟩ := h
    exact ⟨noFraction, noExponent,
      mt (text_eq_minusZero_iff noFraction noExponent).mp notMinusZero, fits⟩

/-- **What a number that is not too large is read as.** -/
theorem value?_numeral (n : NumberText)
    (h : n.numeral.absValue < BinaryFormat.double.overflow) :
    (n.IsInteger → ∃ i : Int64, i.toInt = n.integer ∧ n.numeral.value? = some (.int i)) ∧
    (¬ n.IsInteger → ∃ x : Binary64, n.numeral.value? = some (.float x)) := by
  rw [n.numeral.value?_eq, n.isInteger_iff]
  constructor
  · intro hinteger
    rw [if_pos hinteger]
    obtain ⟨noFraction, noExponent, -, low, high⟩ := n.isInteger_iff.mpr hinteger
    have hsame : n.numeral.integer = n.integer := by
      rw [numeral_of_whole noFraction noExponent]
      rfl
    rw [hsame]
    exact ⟨Int64.ofInt n.integer, Int64.toInt_ofInt_of_le low high, rfl⟩
  · intro hfloat
    rw [if_neg hfloat]
    exact (n.numeral.exists_float?_iff _).mpr h

end NumberText

/-- No number among tokens is too large. -/
def NumbersInRange (tokens : List JsonToken) : Prop :=
  ∀ n : Numeral, .number n ∈ tokens → n.absValue < BinaryFormat.double.overflow

theorem NumbersInRange.mono {tokens tokens' : List JsonToken} (h : NumbersInRange tokens)
    (hsubset : tokens' ⊆ tokens) : NumbersInRange tokens' :=
  fun n hn => h n (hsubset hn)

end JsonToken

/-! ### Trees -/

namespace Json

mutual

/-- Whether a tree is built of truth values, numbers, strings and arrays alone. -/
def isPlain : Json → Bool
  | .null => false
  | .array items => allPlain items
  | .object _ => false
  | _ => true

def allPlain : List Json → Bool
  | [] => true
  | item :: rest => isPlain item && allPlain rest

end

/-- What a tree stands for: truth values and strings for themselves, numbers for integers or for
the floats that they are rounded to, arrays item by item, and nulls and objects for nothing. -/
inductive Converts : Json → Value → Prop
  | bool (b : Bool) : Converts (.bool b) (.bool b)
  | integer {n : Numeral} (h : n.IsInteger) :
    Converts (.number n) (.int (Int64.ofInt n.integer))
  | float {n : Numeral} {x : Binary64} (h : ¬ n.IsInteger)
    (hx : n.float? (n.scale?.getD 0) = some (.float x)) : Converts (.number n) (.float x)
  | string (s : String) : Converts (.string s) (.string s)
  | array {items : List Json} {vs : List Value} (h : List.Forall₂ Converts items vs) :
    Converts (.array items) (.array vs)

/-- The last member under a key. -/
def lastMember? (key : String) (members : List (String × Json)) : Option Json :=
  members.reverse.lookup key

theorem lastMember?_cons (key k : String) (j : Json) (rest : List (String × Json)) :
    lastMember? key ((k, j) :: rest) =
      (lastMember? key rest).or (if key = k then some j else none) := by
  unfold lastMember?
  rw [List.reverse_cons, List.lookup_append]
  congr 1
  by_cases hkey : key = k
  · simp [List.lookup, hkey]
  · have hne : (key == k) = false := beq_false_of_ne hkey
    simp [List.lookup, hkey, hne]

theorem mem_of_lastMember? {key : String} {j : Json} : ∀ {members : List (String × Json)},
    lastMember? key members = some j → (key, j) ∈ members
  | [], h => by cases h
  | (k, i) :: rest, h => by
    rw [lastMember?_cons] at h
    rcases Option.or_eq_some_iff.mp h with hlast | ⟨-, hfirst⟩
    · exact List.mem_cons_of_mem _ (mem_of_lastMember? hlast)
    · by_cases hkey : key = k
      · rw [if_pos hkey] at hfirst
        cases hfirst
        rw [hkey]
        exact List.mem_cons_self
      · rw [if_neg hkey] at hfirst
        cases hfirst

theorem tokens_subset_memberTokens : ∀ {members : List (String × Json)},
    ∀ m ∈ members, m.2.tokens ⊆ memberTokens members
  | [], m, hm => by cases hm
  | (k, j) :: rest, m, hm => by
    intro token htoken
    rcases List.mem_cons.mp hm with rfl | hm
    · simp [memberTokens, pairTokens, htoken]
    · simp [memberTokens, tokens_subset_memberTokens m hm htoken]

/-- The tokens of a member are among those of the object. -/
theorem tokens_subset_object {members : List (String × Json)} {m : String × Json}
    (hm : m ∈ members) : m.2.tokens ⊆ (Json.object members).tokens := by
  cases members with
  | nil => cases hm
  | cons first rest =>
    obtain ⟨k, j⟩ := first
    intro token htoken
    rcases List.mem_cons.mp hm with rfl | hm
    · simp [tokens, pairTokens, htoken]
    · simp [tokens, tokens_subset_memberTokens m hm htoken]

end Json

namespace Value

open JsonToken

theorem value?_eq_some_iff {n : Numeral} {v : Value} :
    n.value? = some v ↔ (Json.number n).Converts v := by
  rw [n.value?_eq]
  by_cases hinteger : n.IsInteger
  · rw [if_pos hinteger]
    constructor
    · intro h
      cases h
      exact .integer hinteger
    · intro h
      cases h with
      | integer _ => rfl
      | float hfloat _ => exact absurd hinteger hfloat
  · rw [if_neg hinteger]
    constructor
    · intro h
      obtain ⟨x, rfl⟩ : ∃ x, v = .float x := by
        simp only [Numeral.float?] at h
        split at h
        · exact ⟨_, (Option.some.inj h).symm⟩
        · cases h
      exact .float hinteger h
    · intro h
      cases h with
      | integer hinteger' => exact absurd hinteger' hinteger
      | float _ hx => exact hx

mutual

/-- **The reader gives what a tree stands for.** -/
theorem ofJson?_eq_some_iff : ∀ (j : Json) {v : Value}, ofJson? j = some v ↔ j.Converts v
  | .null, v => by
    constructor <;> intro h <;> cases h
  | .bool b, v => by
    constructor <;> intro h <;> cases h
    · exact .bool b
    · rfl
  | .number n, v => value?_eq_some_iff
  | .string s, v => by
    constructor <;> intro h <;> cases h
    · exact .string s
    · rfl
  | .array items, v => by
    rw [ofJson?, Option.map_eq_some_iff]
    constructor
    · rintro ⟨vs, hvs, rfl⟩
      exact .array ((allOfJson?_eq_some_iff items).mp hvs)
    · intro h
      cases h with
      | array hitems => exact ⟨_, (allOfJson?_eq_some_iff items).mpr hitems, rfl⟩
  | .object members, v => by
    constructor <;> intro h <;> cases h

theorem allOfJson?_eq_some_iff : ∀ (js : List Json) {vs : List Value},
    allOfJson? js = some vs ↔ List.Forall₂ Json.Converts js vs
  | [], vs => by
    constructor <;> intro h <;> cases h
    · exact .nil
    · rfl
  | j :: rest, vs => by
    constructor
    · intro h
      unfold allOfJson? at h
      split at h
      · cases h
      · rename_i v hv
        obtain ⟨ws, hws, rfl⟩ := Option.map_eq_some_iff.mp h
        exact .cons ((ofJson?_eq_some_iff j).mp hv) ((allOfJson?_eq_some_iff rest).mp hws)
    · intro h
      cases h with
      | cons hv hws =>
        rw [allOfJson?, (ofJson?_eq_some_iff j).mpr hv, (allOfJson?_eq_some_iff rest).mpr hws]
        rfl

end

theorem isSome_allOfJson?_cons {j : Json} {rest : List Json}
    (hj : (ofJson? j).isSome = j.isPlain) (hrest : (allOfJson? rest).isSome = Json.allPlain rest) :
    (allOfJson? (j :: rest)).isSome = Json.allPlain (j :: rest) := by
  rw [allOfJson?, Json.allPlain, ← hj, ← hrest]
  cases ofJson? j with
  | none => rfl
  | some v => rw [Option.isSome_map, Option.isSome_some, Bool.true_and]

mutual

/-- **A tree without a number that is too large has a value exactly if it is plain.** -/
theorem isSome_ofJson? : ∀ j : Json, NumbersInRange j.tokens → (ofJson? j).isSome = j.isPlain
  | .null, _ => rfl
  | .bool _, _ => rfl
  | .number n, h => by
    have hrange : n.absValue < BinaryFormat.double.overflow := h n List.mem_cons_self
    have hvalue : ∃ v, n.value? = some v := by
      rw [n.value?_eq]
      by_cases hinteger : n.IsInteger
      · rw [if_pos hinteger]
        exact ⟨_, rfl⟩
      · rw [if_neg hinteger]
        obtain ⟨x, hx⟩ := (n.exists_float?_iff _).mpr hrange
        exact ⟨.float x, hx⟩
    exact Option.isSome_iff_exists.mpr hvalue
  | .string _, _ => rfl
  | .array [], _ => rfl
  | .array (item :: rest), h => by
    have hitem := isSome_ofJson? item (h.mono fun token htoken => by simp [Json.tokens, htoken])
    have hrest := isSome_allOfJson? rest (h.mono fun token htoken => by simp [Json.tokens, htoken])
    rw [ofJson?, Option.isSome_map, Json.isPlain, isSome_allOfJson?_cons hitem hrest]
  | .object _, _ => rfl

theorem isSome_allOfJson? : ∀ js : List Json, NumbersInRange (Json.itemTokens js) →
    (allOfJson? js).isSome = Json.allPlain js
  | [], _ => rfl
  | j :: rest, h => by
    have hj := isSome_ofJson? j (h.mono fun token htoken => by simp [Json.itemTokens, htoken])
    have hrest := isSome_allOfJson? rest (h.mono fun token htoken => by
      simp [Json.itemTokens, htoken])
    exact isSome_allOfJson?_cons hj hrest

end

end Value

/-- A number that is not too large stands for one value. -/
theorem JsonToken.NumberText.converts (n : NumberText)
    (h : n.numeral.absValue < BinaryFormat.double.overflow) :
    (n.IsInteger → ∃ i : Int64, i.toInt = n.integer ∧
      ∀ v, (Json.number n.numeral).Converts v ↔ v = .int i) ∧
    (¬ n.IsInteger → ∃ x : Binary64, ∀ v, (Json.number n.numeral).Converts v ↔ v = .float x) := by
  have honly : ∀ u, n.numeral.value? = some u →
      ∀ v, (Json.number n.numeral).Converts v ↔ v = u := by
    intro u hu v
    rw [← Value.value?_eq_some_iff, hu, Option.some.injEq, eq_comm]
  obtain ⟨hinteger, hfloat⟩ := n.value?_numeral h
  constructor
  · intro hn
    obtain ⟨i, hi, hu⟩ := hinteger hn
    exact ⟨i, hi, honly _ hu⟩
  · intro hn
    obtain ⟨x, hu⟩ := hfloat hn
    exact ⟨x, honly _ hu⟩

/-! ### Members -/

namespace Document

variable {d : Document} {key : String} {j : Json}

theorem addMembers?_null (rest : List (String × Json)) :
    addMembers? d ((key, .null) :: rest) = addMembers? (d.erase key) rest := rfl

theorem addMembers?_refused (hj : j ≠ .null) (h : Value.ofJson? j = none)
    (rest : List (String × Json)) : addMembers? d ((key, j) :: rest) = none := by
  cases j with
  | null => exact absurd rfl hj
  | _ => simp only [addMembers?, h]

/-- **Members that may be added leave, under each key, the value of the last one of it.** -/
theorem addMembers?_of_plain : ∀ (members : List (String × Json)) (d : Document),
    (∀ m ∈ members, (Value.ofJson? m.2).isSome = m.2.isPlain) →
    (∀ m ∈ members, m.2 = .null ∨ m.2.isPlain = true) →
    ∃ d', addMembers? d members = some d' ∧ ∀ key,
      d'.get? key = (Json.lastMember? key members).elim (d.get? key) Value.ofJson?
  | [], d, _, _ => ⟨d, rfl, fun _ => rfl⟩
  | (k, j) :: rest, d, hvalue, hplain => by
    obtain ⟨hsome, hvalues⟩ := List.forall_mem_cons.mp hvalue
    obtain ⟨hfirst, hrest⟩ := List.forall_mem_cons.mp hplain
    -- the first member leaves its value, which is none if it is null
    obtain ⟨d₁, hadd, hget⟩ : ∃ d₁ : Document,
        addMembers? d ((k, j) :: rest) = addMembers? d₁ rest ∧
        ∀ key, d₁.get? key = if key = k then Value.ofJson? j else d.get? key := by
      rcases hfirst with hnull | hj
      · have hnull : j = .null := hnull
        subst hnull
        refine ⟨d.erase k, addMembers?_null rest, fun key => ?_⟩
        rw [SortedMap.get?_erase]
        simp only [eq_comm, Value.ofJson?]
      · obtain ⟨v, hv⟩ := Option.isSome_iff_exists.mp (hsome.trans hj)
        refine ⟨d.insert k v, addMembers?_cons hv rest, fun key => ?_⟩
        rw [SortedMap.get?_insert, hv]
        simp only [eq_comm]
    obtain ⟨d', hadd', hget'⟩ := addMembers?_of_plain rest d₁ hvalues hrest
    refine ⟨d', hadd.trans hadd', fun key => ?_⟩
    rw [hget' key, hget key, Json.lastMember?_cons]
    cases Json.lastMember? key rest with
    | some last => rfl
    | none =>
      by_cases hkey : key = k
      · simp [hkey]
      · simp [hkey]

/-- One member that may not be added spoils all, wherever it is. -/
theorem addMembers?_eq_none : ∀ (members : List (String × Json)) (d : Document),
    (∀ m ∈ members, (Value.ofJson? m.2).isSome = m.2.isPlain) →
    (¬ ∀ m ∈ members, m.2 = .null ∨ m.2.isPlain = true) →
    addMembers? d members = none
  | [], _, _, h => absurd (fun m hm => by cases hm) h
  | (k, j) :: rest, d, hvalue, h => by
    obtain ⟨hsome, hvalues⟩ := List.forall_mem_cons.mp hvalue
    by_cases hj : j = .null ∨ j.isPlain = true
    · have hrest : ¬ ∀ m ∈ rest, m.2 = .null ∨ m.2.isPlain = true := fun hall =>
        h (List.forall_mem_cons.mpr ⟨hj, hall⟩)
      rcases hj with rfl | hj
      · rw [addMembers?_null]
        exact addMembers?_eq_none rest _ hvalues hrest
      · obtain ⟨v, hv⟩ := Option.isSome_iff_exists.mp (hsome.trans hj)
        rw [addMembers?_cons hv]
        exact addMembers?_eq_none rest _ hvalues hrest
    · obtain ⟨hnull, hplain⟩ := not_or.mp hj
      rw [Bool.not_eq_true _ |>.mp hplain] at hsome
      exact addMembers?_refused hnull (Option.isNone_iff_eq_none.mp (by simpa using hsome)) rest

/-- The document of members that may all be added. -/
theorem exists_ofMembers? {members : List (String × Json)}
    (hvalue : ∀ m ∈ members, (Value.ofJson? m.2).isSome = m.2.isPlain)
    (hplain : ∀ m ∈ members, m.2 = .null ∨ m.2.isPlain = true) :
    ∃ d, ofMembers? members = some d ∧ ∀ key,
      (∀ v, d.get? key = some v ↔ ∃ j, Json.lastMember? key members = some j ∧ j.Converts v) ∧
      (d.get? key = none ↔ ∀ j, Json.lastMember? key members = some j → j = .null) := by
  obtain ⟨d, hadd, hget⟩ := addMembers?_of_plain members .empty hvalue hplain
  refine ⟨d, hadd, fun key => ?_⟩
  have hvalues : d.get? key = (Json.lastMember? key members).bind Value.ofJson? := by
    rw [hget key, SortedMap.get?_empty]
    cases Json.lastMember? key members <;> rfl
  rw [hvalues]
  constructor
  · intro v
    simp only [Option.bind_eq_some_iff, Value.ofJson?_eq_some_iff]
  cases hlast : Json.lastMember? key members with
  | none =>
    constructor
    · intro _ j hj
      cases hj
    · intro _
      rfl
  | some j =>
    constructor
    · -- a last member that is plain has a value
      rintro hnone j' hj'
      cases hj'
      have hmem := Json.mem_of_lastMember? hlast
      rcases hplain _ hmem with hnull | hj
      · exact hnull
      · have hsome := hvalue _ hmem
        rw [Option.bind_some] at hnone
        rw [hnone, hj] at hsome
        cases hsome
    · intro hnull
      rw [hnull j rfl]
      rfl

end Document

namespace Encoding

/-- **What is read of a text that is an object**, and what the numbers in it stand for. -/
theorem decode_object {text : String} {members : List (String × Json)}
    (lexes : JsonToken.Lexes text.toList (Json.object members).tokens)
    (shallow : (Json.object members).depth ≤ Json.maxDepth)
    (inRange : JsonToken.NumbersInRange (Json.object members).tokens) :
    ((∀ m ∈ members, m.2 = .null ∨ m.2.isPlain = true) →
      ∃ d, Encoding.plain.decode (Bytes.ofText text) = .ok d ∧ ∀ key,
        (∀ v, d.get? key = some v ↔ ∃ j, Json.lastMember? key members = some j ∧ j.Converts v) ∧
        (d.get? key = none ↔ ∀ j, Json.lastMember? key members = some j → j = .null)) ∧
    ((¬ ∀ m ∈ members, m.2 = .null ∨ m.2.isPlain = true) →
      Encoding.plain.decode (Bytes.ofText text) = .error .malformed) ∧
    (∀ n : JsonToken.NumberText, .number n.numeral ∈ (Json.object members).tokens →
      (n.IsInteger → ∃ i : Int64, i.toInt = n.integer ∧
        ∀ v, (Json.number n.numeral).Converts v ↔ v = .int i) ∧
      (¬ n.IsInteger → ∃ x : Binary64,
        ∀ v, (Json.number n.numeral).Converts v ↔ v = .float x)) := by
  have htree : Json.ofText? text.toList = some (.object members) :=
    Json.ofText?_eq_some_iff.mpr ⟨lexes, shallow⟩
  have hsome : text ≠ "" := by
    rintro rfl
    cases htree
  have hdecode : Encoding.plain.decode (Bytes.ofText text) =
      orError .malformed (Document.ofMembers? members) := by
    rw [decode_plain_ofText hsome, Document.ofText?, htree]
  have hvalue : ∀ m ∈ members, (Value.ofJson? m.2).isSome = m.2.isPlain := fun m hm =>
    Value.isSome_ofJson? m.2 (inRange.mono (Json.tokens_subset_object hm))
  refine ⟨fun hplain => ?_, fun hrefused => ?_, fun n hn => n.converts (inRange _ hn)⟩
  · obtain ⟨d, hmembers, hget⟩ := Document.exists_ofMembers? hvalue hplain
    refine ⟨d, ?_, hget⟩
    rw [hdecode, hmembers]
    rfl
  · rw [hdecode, Document.ofMembers?, Document.addMembers?_eq_none members .empty hvalue hrefused]
    rfl

/-- The members of the text that was edited by hand. -/
def editedMembers : List (String × Json) :=
  [("a", .number ⟨false, 1, none⟩), ("b", .number ⟨false, 2, none⟩), ("a", .null),
    ("b", .array [.number ⟨true, 0, none⟩, .number ⟨false, 1, some 2⟩,
      .array [.number ⟨false, 9223372036854775808, none⟩, .string "ü"], .number ⟨true, 5, none⟩])]

/-- A member that is no value, and that a later one replaces. -/
def spoiledText : String := "\x7b\"a\":\x7b\x7d, \"a\":1\x7d"

theorem decode_object_editedText :
    (∃ d, Encoding.plain.decode (Bytes.ofText editedText) = .ok d ∧
      d.get? "a" = none ∧ d.get? "b" ≠ none) ∧
    Encoding.plain.decode (Bytes.ofText spoiledText) = .error .malformed := by
  have hlarge : (2 : ℚ) ^ 64 < BinaryFormat.double.overflow := by
    have hbound : 2 ^ 64 < (2 ^ 54 - 1) * 2 ^ 970 := by decide +kernel
    rw [overflow_double]
    exact_mod_cast hbound
  constructor
  · have hlexes : JsonToken.Lexes editedText.toList (Json.object editedMembers).tokens :=
      JsonToken.lexes_of_scan? (by decide +kernel)
    have hrange : JsonToken.NumbersInRange (Json.object editedMembers).tokens := by
      intro n hn
      refine lt_trans ?_ hlarge
      simp only [editedMembers, Json.tokens, Json.pairTokens, Json.memberTokens, Json.itemTokens,
        List.cons_append, List.nil_append, List.mem_cons, JsonToken.number.injEq, reduceCtorEq,
        false_or, or_false, List.not_mem_nil] at hn
      rcases hn with rfl | rfl | rfl | rfl | rfl | rfl <;>
        norm_num [Numeral.absValue, Decimal.value]
    obtain ⟨hread, -⟩ := decode_object hlexes (by decide +kernel) hrange
    obtain ⟨d, hdecode, hget⟩ := hread (by simp [editedMembers, Json.isPlain, Json.allPlain])
    have hlastA : Json.lastMember? "a" editedMembers = some .null := rfl
    obtain ⟨item, rest, hlastB⟩ : ∃ item rest,
        Json.lastMember? "b" editedMembers = some (.array (item :: rest)) := ⟨_, _, rfl⟩
    refine ⟨d, hdecode, (hget "a").2.mpr fun j hj => ?_, fun hnone => ?_⟩
    · rw [hlastA] at hj
      exact (Option.some.inj hj).symm
    · have hnull := (hget "b").2.mp hnone _ hlastB
      cases hnull
  · have hlexes : JsonToken.Lexes spoiledText.toList
        (Json.object [("a", .object []), ("a", .number ⟨false, 1, none⟩)]).tokens :=
      JsonToken.lexes_of_scan? (by decide +kernel)
    have hrange : JsonToken.NumbersInRange
        (Json.object [("a", .object []), ("a", .number ⟨false, 1, none⟩)]).tokens := by
      intro n hn
      refine lt_trans ?_ hlarge
      have hone : n = ⟨false, 1, none⟩ := by
        simpa [Json.tokens, Json.pairTokens, Json.memberTokens] using hn
      rw [hone]
      norm_num [Numeral.absValue, Decimal.value]
    exact (decode_object hlexes (by decide +kernel) hrange).2.1 fun h => by
      simpa [Json.isPlain] using h _ List.mem_cons_self

end Encoding
end TypedConfig
