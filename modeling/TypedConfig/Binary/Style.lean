/-
# How numbers are spelled

The digits of a number are chosen once (`Binary.shortest`); a style says how they
are laid out. Three styles are in use: plain text for messages, the debugging
form, and the form inside a document.

Key definitions: `NumberStyle`, `NumberStyle.display`, `NumberStyle.debug`,
`NumberStyle.document`, `Binary.text`.
-/
import TypedConfig.Binary.Shortest

namespace TypedConfig

/-- The layout of a decimal. -/
structure NumberStyle where
  /-- The powers of ten of the leading digit for which no exponent is written, from the first to
  just before the second; all of them if absent. -/
  positional : Option (Int × Int)
  /-- Whether an integral value without an exponent ends in `.0`. -/
  pointZero : Bool
  /-- What stands between the mark `e` and a positive exponent. -/
  plus : String
  /-- Which of two equally near decimals is written. -/
  tie : Tie
  /-- The text of positive infinity; the negative one has a minus sign before it. -/
  infinity : Option String
  /-- The text of a word that is no number, and of the infinities if they have none. -/
  notANumber : String

namespace NumberStyle

/-- Plain text: never an exponent, and no point after an integral value. -/
def display : NumberStyle :=
  { positional := none, pointZero := false, plus := "", tie := .up, infinity := some "inf",
    notANumber := "NaN" }

/-- The debugging form: positional from 10⁻⁴ to just below 10¹⁶, and always with a point or an
exponent. -/
def debug : NumberStyle :=
  { positional := some (-4, 16), pointZero := true, plus := "", tie := .up,
    infinity := some "inf", notANumber := "NaN" }

/-- The form inside a document: positional from 10⁻⁵ to just below 10¹⁶, a sign before every
exponent, and `null` for what is no finite number. -/
def document : NumberStyle :=
  { positional := some (-5, 16), pointZero := true, plus := "+", tie := .even, infinity := none,
    notANumber := "null" }

/-- `n` zeros. -/
def zeros (n : Nat) : String := String.ofList (List.replicate n '0')

/-- The decimal digits of a natural number. -/
def naturalText (n : Nat) : String := String.ofList (Nat.toDigits 10 n)

/-- The decimal digits of an integer, after a minus sign if it is negative. -/
def integerText (n : Int) : String :=
  if n < 0 then "-" ++ naturalText n.natAbs else naturalText n.natAbs

/-- The power of ten that the leading digit of a decimal counts. -/
def leading (d : Decimal) : Int := d.exponent + Binary.decimalLength d.digits - 1

/-- Whether a decimal is written without an exponent. -/
def isPositional (s : NumberStyle) (d : Decimal) : Bool :=
  match s.positional with
  | none => true
  | some (low, high) => d.digits = 0 || (low ≤ leading d && leading d < high)

/-- The digits with the point at its place. -/
def positionalText (s : NumberStyle) (d : Decimal) : String :=
  let digits := naturalText d.digits
  if 0 ≤ d.exponent then
    digits ++ zeros d.exponent.toNat ++ (if s.pointZero then ".0" else "")
  else
    let places := (-d.exponent).toNat
    let padded := zeros (places + 1 - digits.length) ++ digits
    let whole := padded.length - places
    String.ofList (padded.toList.take whole) ++ "." ++ String.ofList (padded.toList.drop whole)

/-- One digit, a point before the others if there are any, and the exponent. -/
def exponentText (s : NumberStyle) (d : Decimal) : String :=
  let exponent := leading d
  let digits := Nat.toDigits 10 d.digits
  let fraction := String.ofList (digits.drop 1)
  String.ofList (digits.take 1) ++ (if fraction = "" then "" else "." ++ fraction) ++ "e"
    ++ (if exponent < 0 then "" else s.plus) ++ integerText exponent

/-- The text of a decimal. -/
def decimalText (s : NumberStyle) (d : Decimal) : String :=
  if s.isPositional d then s.positionalText d else s.exponentText d

end NumberStyle

/-- The text of a number in a style. -/
def Binary.text {f : BinaryFormat} (s : NumberStyle) (x : Binary f) : String :=
  if x.isFinite then
    (if x.isNegative then "-" else "") ++ s.decimalText (x.shortest s.tie)
  else if x.isNaN then s.notANumber
  else match s.infinity with
    | some name => if x.isNegative then "-" ++ name else name
    | none => s.notANumber

end TypedConfig
