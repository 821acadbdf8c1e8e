/-
# Scalars in settings files

A value that starts with no quote and no bracket is one word: a truth value, a
number, or a date, a time or both. The digits of a number may be grouped by single
underscores.

Key definitions: `Toml.readInteger?`, `Toml.readFloat?`, `Toml.isMoment`,
`Toml.ofWord?`, `Toml.readWord?`.
-/
import TypedConfig.Document.Basic
import TypedConfig.Toml.Basic

namespace TypedConfig
namespace Toml

open JsonToken (isDigit digitsValue hexValue?)

/-! ### Numbers -/

/-- Whether a text is groups of digits with single underscores between them. -/
def isGrouped (digit : Char → Bool) (cs : List Char) : Bool :=
  (cs.splitOn '_').all fun group => !group.isEmpty && group.all digit

/-- Whether a text is a natural number without zeros in front. -/
def isWhole (cs : List Char) : Bool :=
  isGrouped isDigit cs && (cs.length = 1 || cs.head? != some '0')

/-- The digits of grouped digits. -/
def ungrouped (cs : List Char) : List Char := cs.filter (· ≠ '_')

/-- A text without the sign that it may start with, and whether the sign is a minus. -/
def splitSign : List Char → Bool × List Char
  | '-' :: rest => (true, rest)
  | '+' :: rest => (false, rest)
  | cs => (false, cs)

/-- The number that grouped digits spell in a base. -/
def inBase? (base : Nat) (cs : List Char) : Option Nat :=
  let isDigitOf (c : Char) : Bool :=
    match hexValue? c with
    | some d => decide (d < base)
    | none => false
  if isGrouped isDigitOf cs then
    some ((ungrouped cs).foldl (fun n c => base * n + (hexValue? c).getD 0) 0)
  else none

/-- The integer that a word spells. -/
def readInteger? : List Char → Option Int
  | '0' :: 'x' :: rest => (inBase? 16 rest).map fun n => (n : Int)
  | '0' :: 'o' :: rest => (inBase? 8 rest).map fun n => (n : Int)
  | '0' :: 'b' :: rest => (inBase? 2 rest).map fun n => (n : Int)
  | cs =>
    let (negative, digits) := splitSign cs
    if isWhole digits then
      let n : Int := digitsValue (ungrouped digits)
      some (if negative then -n else n)
    else none

/-- The exponent that a text spells; none is zero. -/
def readExponent? : List Char → Option Int
  | [] => some 0
  | _ :: rest =>
    let (negative, digits) := splitSign rest
    if isGrouped isDigit digits then
      let n : Int := digitsValue (ungrouped digits)
      some (if negative then -n else n)
    else none

/-- The digits after a point, if there is one. -/
def readFraction? : List Char → Option (List Char)
  | [] => some []
  | '.' :: rest => if isGrouped isDigit rest then some (ungrouped rest) else none
  | _ :: _ => none

/-- The float that a word spells. A number that is too large is refused, and one too far below
zero is minus infinity. -/
def readFloat? (cs : List Char) : Option Binary64 :=
  let (negative, cs) := splitSign cs
  let isMark (c : Char) : Bool := c = 'e' || c = 'E'
  let (mantissa, exponent) := (cs.takeWhile (!isMark ·), cs.dropWhile (!isMark ·))
  let (whole, fraction) := (mantissa.takeWhile (· ≠ '.'), mantissa.dropWhile (· ≠ '.'))
  if isWhole whole then do
    let fraction ← readFraction? fraction
    let exponent ← readExponent? exponent
    let x : Binary64 := Binary.ofDecimal negative (digitsValue (ungrouped whole ++ fraction))
      (exponent - fraction.length)
    if x.isFinite || negative then some x else none
  else none

/-- The word that is no number. -/
def notANumber (negative : Bool) : Binary64 :=
  Binary.ofParts negative (BinaryFormat.double.infinityWord + BinaryFormat.double.quietWeight)

/-- The float that a word names. -/
def namedFloat? (cs : List Char) : Option Binary64 :=
  match splitSign cs with
  | (negative, ['i', 'n', 'f']) => some (Binary.ofParts negative BinaryFormat.double.infinityWord)
  | (negative, ['n', 'a', 'n']) => some (notANumber negative)
  | _ => none

/-! ### Dates and times -/

/-- The number that two digits spell. -/
def twoDigits? : List Char → Option Nat
  | [a, b] => if isDigit a && isDigit b then some (digitsValue [a, b]) else none
  | _ => none

/-- Whether a text is two digits of a number in a range. -/
def isTwoDigits (low high : Nat) (cs : List Char) : Bool :=
  match twoDigits? cs with
  | some n => decide (low ≤ n ∧ n ≤ high)
  | none => false

/-- The days of a month. -/
def daysIn (year month : Nat) : Nat :=
  if month = 2 then
    (if year % 4 = 0 ∧ (year % 100 ≠ 0 ∨ year % 400 = 0) then 29 else 28)
  else if month = 4 ∨ month = 6 ∨ month = 9 ∨ month = 11 then 30
  else 31

/-- Whether a text is a day: the year, the month and the day with dashes between them. -/
def isDate (cs : List Char) : Bool :=
  match cs.splitOn '-' with
  | [year, month, day] =>
    year.length = 4 && year.all isDigit && isTwoDigits 1 12 month
      && isTwoDigits 1 (daysIn (digitsValue year) (digitsValue month)) day
  | _ => false

/-- Whether a text is seconds: two digits, and after a point any number of further ones. -/
def isSeconds (cs : List Char) : Bool :=
  isTwoDigits 0 60 (cs.takeWhile (· ≠ '.')) &&
    match cs.dropWhile (· ≠ '.') with
    | [] => true
    | _ :: fraction => !fraction.isEmpty && fraction.all isDigit

/-- Whether a text is a time of the day, to the second. -/
def isTime (cs : List Char) : Bool :=
  match cs.splitOn ':' with
  | [hour, minute, second] => isTwoDigits 0 23 hour && isTwoDigits 0 59 minute && isSeconds second
  | _ => false

/-- Whether a text is a difference from universal time, or nothing. -/
def isOffset : List Char → Bool
  | [] => true
  | ['Z'] => true
  | ['z'] => true
  | sign :: rest =>
    (sign = '+' || sign = '-') &&
      match rest.splitOn ':' with
      | [hour, minute] => isTwoDigits 0 23 hour && isTwoDigits 0 59 minute
      | _ => false

/-- Whether a text is a time of the day and perhaps a difference from universal time. -/
def isTimeWithOffset (cs : List Char) : Bool :=
  let isOffsetStart (c : Char) : Bool := c = 'Z' || c = 'z' || c = '+' || c = '-'
  isTime (cs.takeWhile (!isOffsetStart ·)) && isOffset (cs.dropWhile (!isOffsetStart ·))

/-- Whether a text is a date, a time, or both with a mark or a space between them. -/
def isMoment (cs : List Char) : Bool :=
  isTime cs || isDate (cs.take 10) &&
    match cs.drop 10 with
    | [] => true
    | mark :: rest => (mark = 'T' || mark = 't' || mark = ' ') && isTimeWithOffset rest

/-! ### Words -/

/-- The scalar that a word spells. -/
def ofWord? (cs : List Char) : Option Toml :=
  if cs = ['t', 'r', 'u', 'e'] then some (.boolean true)
  else if cs = ['f', 'a', 'l', 's', 'e'] then some (.boolean false)
  else
    match readInteger? cs with
    | some n => (int64? n).map .integer
    | none =>
      match namedFloat? cs with
      | some x => some (.float x)
      | none =>
        match readFloat? cs with
        | some x => some (.float x)
        | none => if isMoment cs then some (.moment (String.ofList cs)) else none

/-- Whether a character may stand in a word. -/
def isWordChar (c : Char) : Bool :=
  c.isAlphanum || c = '+' || c = '-' || c = '_' || c = '.' || c = ':'

/-- The word at the start of a text, and what follows it. A date goes on after one space, if a
digit follows it. -/
def spanWord (cs : List Char) : List Char × List Char :=
  let word := cs.takeWhile isWordChar
  match cs.dropWhile isWordChar with
  | ' ' :: c :: rest =>
    if isDate word && isDigit c then
      (word ++ ' ' :: (c :: rest).takeWhile isWordChar, (c :: rest).dropWhile isWordChar)
    else (word, ' ' :: c :: rest)
  | rest => (word, rest)

/-- The scalar at the start of a text, and what follows it. -/
def readWord? (cs : List Char) : Option (Toml × List Char) :=
  let (word, rest) := spanWord cs
  (ofWord? word).map fun v => (v, rest)

end Toml
end TypedConfig
