/-
# The fewest digits that read back

A finite binary number is written with the fewest decimal digits that read back
as the same word, and of the numbers with so many digits the one nearest to it.
On a grid of decimals only the two neighbours of the value need to be tried: if
any point of the grid reads back, one of them does.

Where both neighbours read back and lie equally far, the writer's own rule for
ties decides.

Key definitions: `Decimal`, `Tie`, `Binary.exactDecimal`, `Binary.shortest`.
-/
import TypedConfig.Binary.Rounding

namespace TypedConfig

/-- The decimal `digits · 10 ^ exponent`. -/
structure Decimal where
  /-- The digits, as an integer. -/
  digits : Nat
  /-- The power of ten that the last digit counts. -/
  exponent : Int
deriving DecidableEq

/-- Which of two equally near decimals is taken. -/
inductive Tie where
  /-- The one whose last digit is even. -/
  | even
  /-- The one farther from zero. -/
  | up
deriving DecidableEq

namespace Decimal

/-- Drops at most `fuel` zeros from the end of the digits. -/
def dropZeros : Nat → Decimal → Decimal
  | 0, d => d
  | fuel + 1, d =>
    if d.digits ≠ 0 ∧ d.digits % 10 = 0 then dropZeros fuel ⟨d.digits / 10, d.exponent + 1⟩ else d

/-- The same decimal without zeros at its end. -/
def trim (d : Decimal) : Decimal := dropZeros (Binary.decimalLength d.digits) d

end Decimal

namespace Binary

variable {f : BinaryFormat}

/-- The exact value of a finite number's magnitude, as a ratio. -/
def ratio (x : Binary f) : Nat × Nat := scaleDown 2 x.significand 1 (-x.exponent)

/-- Whether a decimal with the number's sign reads back as the number. -/
def readsBack (x : Binary f) (d : Decimal) : Bool :=
  decide ((ofDecimal x.isNegative d.digits d.exponent : Binary f) = x)

/-- The number's magnitude in decimal, digit for digit: two to a negative power is five to its
opposite, over a power of ten. -/
def exactDecimal (x : Binary f) : Decimal :=
  if 0 ≤ x.exponent then ⟨x.significand * Nat.pow 2 x.exponent.toNat, 0⟩
  else ⟨x.significand * Nat.pow 5 (-x.exponent).toNat, x.exponent⟩

/-- The power of ten of the leading digit of a positive ratio. -/
def leadingPower (num den : Nat) : Int :=
  let guess := (decimalLength num : Int) - decimalLength den
  let (a, b) := scaleDown 10 num den guess
  if b ≤ a then guess else guess - 1

/-- The better of the two neighbours of the number on the grid of multiples of ten to `power`,
if one of them reads back. -/
def neighbour? (x : Binary f) (tie : Tie) (power : Int) : Option Decimal :=
  let (num, den) := x.ratio
  let (a, b) := scaleDown 10 num den power
  let below : Decimal := ⟨a / b, power⟩
  let above : Decimal := ⟨a / b + 1, power⟩
  let nearer : Decimal :=
    if 2 * (a % b) < b then below
    else if b < 2 * (a % b) then above
    else match tie with
      | .even => if a / b % 2 = 0 then below else above
      | .up => above
  match x.readsBack below, x.readsBack above with
  | true, true => some nearer
  | true, false => some below
  | false, true => some above
  | false, false => none

/-- Tries `fuel` grids, each ten times as fine as the one before, and falls back on the exact
value. -/
def searchGrids (x : Binary f) (tie : Tie) : Nat → Int → Decimal
  | 0, _ => x.exactDecimal
  | fuel + 1, power => (x.neighbour? tie power).getD (searchGrids x tie fuel (power - 1))

/-- The fewest digits that read back as a finite number's magnitude. -/
def shortest (x : Binary f) (tie : Tie) : Decimal :=
  if x.isZero then ⟨0, 0⟩
  else (searchGrids x tie (f.fractionBits + 2) (leadingPower x.ratio.1 x.ratio.2)).trim

end Binary

end TypedConfig
