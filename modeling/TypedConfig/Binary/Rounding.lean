/-
# Rounding to the nearest binary number

The binary number nearest to an exact ratio, a tie going to the even one. It
serves reading decimal digits, converting an integer and moving between
formats, which differ only in the ratio they hand over.

Key definitions: `nearestEven`, `BinaryFormat.nearestWord`, `Binary.ofRatio`,
`Binary.ofScaled`, `Binary.ofDecimal`, `Binary.convert`.
-/
import TypedConfig.Binary.Basic

namespace TypedConfig

/-- The integer nearest to `num / den`, a tie going to the even one. -/
def nearestEven (num den : Nat) : Nat :=
  let quotient := num / den
  let rest := num % den
  if 2 * rest < den then quotient
  else if den < 2 * rest then quotient + 1
  else quotient + quotient % 2

/-- `num / den` divided by `base` to the `power`, as a ratio of integers. -/
def scaleDown (base num den : Nat) (power : Int) : Nat × Nat :=
  if 0 ≤ power then (num, den * Nat.pow base power.toNat) else (num * Nat.pow base (-power).toNat, den)

namespace BinaryFormat

variable (f : BinaryFormat)

/-- The power of two that the last place counts in the number nearest to `num / den`: the
least one, not below the format's own, for which the significand fits. Zero fits the format's
own. -/
def lastPlace (num den : Nat) : Int :=
  if num = 0 then f.lowExponent
  else
    let start : Int := (Nat.log2 num : Int) - Nat.log2 den - (f.fractionBits + 1)
    let low := max f.lowExponent start
    let (a, b) := scaleDown 2 num den low
    if a / b < 2 * f.fractionWeight then low else low + 1

/-- The word, without a sign, of the number nearest to `num / den`; infinity if that lies
beyond the finite numbers. Rounding a significand up to the next power of two carries into the
exponent field, as it should. -/
def nearestWord (num den : Nat) : Nat :=
  let place := f.lastPlace num den
  let (a, b) := scaleDown 2 num den place
  min f.infinityWord ((place - f.lowExponent).toNat * f.fractionWeight + nearestEven a b)

end BinaryFormat

namespace Binary

variable {f : BinaryFormat}

/-- The number nearest to `num / den` with the given sign. -/
def ofRatio (negative : Bool) (num den : Nat) : Binary f :=
  ofParts negative (f.nearestWord num den)

/-- The number nearest to `significand · 2 ^ exponent` with the given sign. -/
def ofScaled (negative : Bool) (significand : Nat) (exponent : Int) : Binary f :=
  let (num, den) := scaleDown 2 significand 1 (-exponent)
  ofRatio negative num den

/-- The number nearest to an integer. -/
def ofInt (n : Int) : Binary f := ofRatio (decide (n < 0)) n.natAbs 1

/-- How many decimal digits a number is written with. -/
def decimalLength (n : Nat) : Nat := (Nat.toDigits 10 n).length

/-- The number nearest to `digits · 10 ^ exponent` with the given sign. Values so large or so
small that the format's range settles the answer are settled without computing the power. -/
def ofDecimal (negative : Bool) (digits : Nat) (exponent : Int) : Binary f :=
  let top := (decimalLength digits : Int) + exponent
  if digits = 0 then zero negative
  else if f.topExponent < top then ofParts negative f.infinityWord
  else if top < f.lowExponent then zero negative
  else
    let (num, den) := scaleDown 10 digits 1 (-exponent)
    ofRatio negative num den

/-- The number of format `g` nearest to a number of format `f`. A word that is no number keeps
its sign and its leading fraction bits, with the first of them set. -/
def convert (g : BinaryFormat) (x : Binary f) : Binary g :=
  if x.isNaN then
    let (payload, one) :=
      scaleDown 2 (x.magnitude % f.fractionWeight) 1 ((f.fractionBits : Int) - g.fractionBits)
    ofParts x.isNegative (g.infinityWord + ((payload / one) ||| g.quietWeight))
  else if x.isInfinite then ofParts x.isNegative g.infinityWord
  else ofScaled x.isNegative x.significand x.exponent

end Binary

/-- The 64-bit number of the same value. -/
def Binary32.widen (x : Binary32) : Binary64 := x.convert .double

/-- The nearest 32-bit number. -/
def Binary64.narrow (x : Binary64) : Binary32 := x.convert .single

end TypedConfig
