/-
# Binary interchange formats

A binary floating-point number is the word of bits it is stored as: a sign, an
exponent field and a fraction field. Everything else about it (its exact value,
whether it is finite, how it compares) is read off that word with integer
arithmetic, so nothing here depends on a machine's arithmetic unit.

Words are kept apart even where the numbers they stand for compare equal: the
two zeros are different words, and so are the many words that are no number.

Key definitions: `BinaryFormat`, `Binary`, `Binary.magnitude`, `Binary.significand`,
`Binary.exponent`, `Binary.isEqual`, `Binary.isLess`.
-/

namespace TypedConfig

/-- The widths of the two fields that follow the sign bit. -/
structure BinaryFormat where
  /-- Bits of the exponent field. -/
  exponentBits : Nat
  /-- Bits of the fraction field. -/
  fractionBits : Nat
deriving DecidableEq

namespace BinaryFormat

/-- The 32-bit format. -/
def single : BinaryFormat := ⟨8, 23⟩

/-- The 64-bit format. -/
def double : BinaryFormat := ⟨11, 52⟩

variable (f : BinaryFormat)

/-- Bits of the whole word. -/
def width : Nat := 1 + (f.exponentBits + f.fractionBits)

/-- The weight of the sign bit: one more than the largest word without it. -/
def signWeight : Nat := Nat.pow 2 (f.exponentBits + f.fractionBits)

/-- The weight of the exponent field's last bit: one more than the largest fraction. -/
def fractionWeight : Nat := Nat.pow 2 f.fractionBits

/-- The weight of the fraction's first bit, which is set in a word that is no number. -/
def quietWeight : Nat := Nat.pow 2 (f.fractionBits - 1)

/-- One more than the exponent of the largest finite numbers. -/
def topExponent : Nat := Nat.pow 2 (f.exponentBits - 1)

/-- The word of positive infinity: a full exponent field and an empty fraction. -/
def infinityWord : Nat := f.signWeight - f.fractionWeight

/-- The power of two that the last place of the smallest numbers counts. -/
def lowExponent : Int := 2 - (f.topExponent : Int) - f.fractionBits

end BinaryFormat

/-- A floating-point number of format `f`, as its word of bits. -/
structure Binary (f : BinaryFormat) where
  /-- The word. -/
  bits : BitVec f.width
deriving DecidableEq

/-- A 32-bit floating-point number. -/
abbrev Binary32 := Binary .single

/-- A 64-bit floating-point number. -/
abbrev Binary64 := Binary .double

namespace Binary

variable {f g : BinaryFormat}

/-! ### The fields of a word -/

/-- Whether the sign bit is set. -/
def isNegative (x : Binary f) : Bool := decide (f.signWeight ≤ x.bits.toNat)

/-- The word without its sign bit. -/
def magnitude (x : Binary f) : Nat := x.bits.toNat % f.signWeight

/-- The number with the given sign and remaining bits. -/
def ofParts (negative : Bool) (magnitude : Nat) : Binary f :=
  ⟨BitVec.ofNat f.width ((if negative then f.signWeight else 0) + magnitude)⟩

/-- The word of zero with the given sign. -/
def zero (negative : Bool) : Binary f := ofParts negative 0

instance : Inhabited (Binary f) := ⟨zero false⟩

/-- Whether the word stands for no number. -/
def isNaN (x : Binary f) : Bool := decide (f.infinityWord < x.magnitude)

/-- Whether the word is one of the two infinities. -/
def isInfinite (x : Binary f) : Bool := decide (x.magnitude = f.infinityWord)

/-- Whether the word stands for a finite number. -/
def isFinite (x : Binary f) : Bool := decide (x.magnitude < f.infinityWord)

/-- Whether the word is one of the two zeros. -/
def isZero (x : Binary f) : Bool := decide (x.magnitude = 0)

/-- The integer that a finite number's magnitude counts in units of two to its `exponent`. -/
def significand (x : Binary f) : Nat :=
  if x.magnitude < f.fractionWeight then x.magnitude
  else f.fractionWeight + x.magnitude % f.fractionWeight

/-- The power of two that a finite number's last place counts. -/
def exponent (x : Binary f) : Int :=
  if x.magnitude < f.fractionWeight then f.lowExponent
  else f.lowExponent + (x.magnitude / f.fractionWeight - 1 : Nat)

/-! ### Comparison

Among numbers the order of the values is the order of the signed magnitudes,
and the two zeros share one place in it. A word that is no number compares as
neither equal to, less than nor greater than anything. -/

/-- The place of a number in the order of values. -/
def rank (x : Binary f) : Int := if x.isNegative then -(x.magnitude : Int) else x.magnitude

/-- Whether two words stand for the same number. -/
def isEqual (x y : Binary f) : Bool := !x.isNaN && !y.isNaN && decide (x.rank = y.rank)

/-- Whether both words stand for numbers, the first below the second. -/
def isLess (x y : Binary f) : Bool := !x.isNaN && !y.isNaN && decide (x.rank < y.rank)

/-- A word that is no number is not equal even to itself. -/
theorem isEqual_self (x : Binary f) : x.isEqual x = !x.isNaN := by
  simp [isEqual]

end Binary

end TypedConfig
