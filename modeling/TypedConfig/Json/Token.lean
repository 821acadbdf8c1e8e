/-
# The tokens of a JSON text

A JSON text is read in two steps: its characters are grouped into tokens here,
and the tokens are put together to a tree in `TypedConfig.Json.Tree`. Blanks
(space, tab, line feed, carriage return) may stand between tokens and nowhere
else matter.

A number is kept by its digits, so that a later step can tell an integer from a
number with a point. Zeros at the end of the digits after a point are dropped:
they change neither.

Key definitions: `Numeral`, `JsonToken`, `JsonToken.scan?`.
-/

namespace TypedConfig

/-- A number by its digits: a sign, the digits without the point, and where the last of them
stands. -/
structure Numeral where
  /-- Whether a minus sign stands before it. -/
  negative : Bool
  /-- The digits before and after the point, as one number. -/
  digits : Nat
  /-- The power of ten that the last digit counts; absent if there is neither a point nor an
  exponent. -/
  scale? : Option Int
deriving DecidableEq

/-- A token of a JSON text. -/
inductive JsonToken where
  | null
  | bool (b : Bool)
  | number (n : Numeral)
  | string (s : String)
  | openArray
  | closeArray
  | openObject
  | closeObject
  | comma
  | colon
deriving DecidableEq

namespace JsonToken

/-! ### Numbers -/

/-- Whether a character is a decimal digit. -/
def isDigit (c : Char) : Bool := decide ('0' ≤ c ∧ c ≤ '9')

/-- The number that a list of digits spells. -/
def digitsValue (digits : List Char) : Nat :=
  digits.foldl (fun n c => 10 * n + (c.toNat - '0'.toNat)) 0

/-- The digits at the start of a text, and what follows them. -/
def spanDigits (cs : List Char) : List Char × List Char :=
  (cs.takeWhile isDigit, cs.dropWhile isDigit)

/-- The digits before the point: a single zero, or digits that do not start with one. -/
def readWhole? : List Char → Option (List Char × List Char)
  | [] => none
  | c :: rest =>
    if c = '0' then some (['0'], rest)
    else if isDigit c then some (spanDigits (c :: rest))
    else none

/-- The point and the digits after it, if a point follows: at least one. -/
def readFraction? : List Char → Option (Option (List Char) × List Char)
  | '.' :: rest =>
    match spanDigits rest with
    | ([], _) => none
    | (digits, rest) => some (some digits, rest)
  | cs => some (none, cs)

/-- The sign of an exponent. -/
def readSign : List Char → Bool × List Char
  | '-' :: rest => (true, rest)
  | '+' :: rest => (false, rest)
  | cs => (false, cs)

/-- The exponent, if its mark follows: a sign or none, and at least one digit. -/
def readExponent? : List Char → Option (Option Int × List Char)
  | [] => some (none, [])
  | c :: rest =>
    if c = 'e' ∨ c = 'E' then
      let (negative, rest) := readSign rest
      match spanDigits rest with
      | ([], _) => none
      | (digits, rest) =>
        let n : Int := digitsValue digits
        some (some (if negative then -n else n), rest)
    else some (none, c :: rest)

/-- Digits without the zeros at their end. -/
def trimZeros (digits : List Char) : List Char := (digits.reverse.dropWhile (· = '0')).reverse

/-- The number at the start of a text, and what follows it. -/
def readNumeral? (cs : List Char) : Option (Numeral × List Char) := do
  let (negative, cs) := match cs with
    | '-' :: rest => (true, rest)
    | cs => (false, cs)
  let (whole, cs) ← readWhole? cs
  let (fraction?, cs) ← readFraction? cs
  let (exponent?, cs) ← readExponent? cs
  let fraction := trimZeros (fraction?.getD [])
  let scale? : Option Int :=
    match fraction?, exponent? with
    | none, none => none
    | _, exponent? => some (exponent?.getD 0 - fraction.length)
  pure (⟨negative, digitsValue (whole ++ fraction), scale?⟩, cs)

/-! ### Strings -/

/-- The value of a hexadecimal digit, in either case. -/
def hexValue? (c : Char) : Option Nat :=
  if '0' ≤ c ∧ c ≤ '9' then some (c.toNat - '0'.toNat)
  else if 'a' ≤ c ∧ c ≤ 'f' then some (c.toNat - 'a'.toNat + 10)
  else if 'A' ≤ c ∧ c ≤ 'F' then some (c.toNat - 'A'.toNat + 10)
  else none

/-- The 16-bit unit that four hexadecimal digits spell, and what follows them. -/
def readUnit? : List Char → Option (Nat × List Char)
  | a :: b :: c :: d :: rest => do
    let a ← hexValue? a
    let b ← hexValue? b
    let c ← hexValue? c
    let d ← hexValue? d
    pure (((a * 16 + b) * 16 + c) * 16 + d, rest)
  | _ => none

/-- Whether a unit is the first half of a pair. -/
def isHighHalf (u : Nat) : Bool := decide (0xD800 ≤ u ∧ u < 0xDC00)

/-- Whether a unit is the second half of a pair. -/
def isLowHalf (u : Nat) : Bool := decide (0xDC00 ≤ u ∧ u < 0xE000)

/-- The character that an escape by code spells; the halves of a pair follow each other and are
nothing alone. -/
def readCoded? (cs : List Char) : Option (Char × List Char) := do
  let (u, rest) ← readUnit? cs
  if isLowHalf u then none
  else if isHighHalf u then
    match rest with
    | '\\' :: 'u' :: rest => do
      let (v, rest) ← readUnit? rest
      if isLowHalf v then
        pure (Char.ofNat (0x10000 + (u - 0xD800) * 0x400 + (v - 0xDC00)), rest)
      else none
    | _ => none
  else pure (Char.ofNat u, rest)

/-- The character that an escape spells, read from just after the backslash. -/
def readEscape? : List Char → Option (Char × List Char)
  | '"' :: rest => some ('"', rest)
  | '\\' :: rest => some ('\\', rest)
  | '/' :: rest => some ('/', rest)
  | 'b' :: rest => some ('\x08', rest)
  | 'f' :: rest => some ('\x0c', rest)
  | 'n' :: rest => some ('\n', rest)
  | 'r' :: rest => some ('\r', rest)
  | 't' :: rest => some ('\t', rest)
  | 'u' :: rest => readCoded? rest
  | _ => none

/-- The rest of a string, read from just after its opening quote, with at most `fuel`
characters; a control character may not stand for itself. -/
def readString? : Nat → List Char → Option (List Char × List Char)
  | 0, _ => none
  | _ + 1, [] => none
  | fuel + 1, c :: rest =>
    if c = '"' then some ([], rest)
    else if c = '\\' then do
      let (d, rest) ← readEscape? rest
      let (s, rest) ← readString? fuel rest
      pure (d :: s, rest)
    else if c.toNat < 0x20 then none
    else do
      let (s, rest) ← readString? fuel rest
      pure (c :: s, rest)

/-! ### Texts -/

/-- Whether a character may stand between tokens. -/
def isBlank (c : Char) : Bool := c = ' ' || c = '\t' || c = '\n' || c = '\r'

/-- The tokens of a text, with at most `fuel` characters. -/
def scanWith? : Nat → List Char → Option (List JsonToken)
  | _, [] => some []
  | 0, _ :: _ => none
  | fuel + 1, c :: rest =>
    if isBlank c then scanWith? fuel rest
    else
      match c, rest with
      | '[', rest => (scanWith? fuel rest).map (.openArray :: ·)
      | ']', rest => (scanWith? fuel rest).map (.closeArray :: ·)
      | '\x7b', rest => (scanWith? fuel rest).map (.openObject :: ·)
      | '\x7d', rest => (scanWith? fuel rest).map (.closeObject :: ·)
      | ',', rest => (scanWith? fuel rest).map (.comma :: ·)
      | ':', rest => (scanWith? fuel rest).map (.colon :: ·)
      | 'n', 'u' :: 'l' :: 'l' :: rest => (scanWith? fuel rest).map (.null :: ·)
      | 't', 'r' :: 'u' :: 'e' :: rest => (scanWith? fuel rest).map (.bool true :: ·)
      | 'f', 'a' :: 'l' :: 's' :: 'e' :: rest => (scanWith? fuel rest).map (.bool false :: ·)
      | '"', rest => do
        let (s, rest) ← readString? (rest.length + 1) rest
        let tokens ← scanWith? fuel rest
        pure (.string (String.ofList s) :: tokens)
      | c, rest => do
        let (n, rest) ← readNumeral? (c :: rest)
        let tokens ← scanWith? fuel rest
        pure (.number n :: tokens)

/-- The tokens of a text, if it consists of tokens and blanks. -/
def scan? (cs : List Char) : Option (List JsonToken) := scanWith? cs.length cs

end JsonToken

end TypedConfig
