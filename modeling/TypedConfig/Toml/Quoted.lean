/-
# Strings in settings files

A string is written in one of four forms. Between double quotes a backslash starts
an escape; between single quotes every character stands for itself. Three quotes
in place of one make a block, in which line breaks and up to two quotes in a row
stand for themselves; a line break right after the opening quotes does not count.

The writer takes the first form of these in which nothing needs an escape: double
quotes, single quotes, a block between double quotes, a block between single
quotes. If there is none, it writes escapes between double quotes, in a block if
the text has a line break.

Key definitions: `StringForm`, `StringForm.best`, `Toml.escaped`, `Toml.blockText`,
`Toml.stringText`, `Toml.readBasic?`, `Toml.readLiteral?`, `Toml.readBlock?`,
`Toml.readLiteralBlock?`, `Toml.readString?`.
-/
import TypedConfig.Json.Token
import TypedConfig.Toml.Basic

namespace TypedConfig

/-- A way to write a string. -/
inductive StringForm where
  /-- Between double quotes, with escapes. -/
  | basic
  /-- Between single quotes. -/
  | literal
  /-- Between three double quotes, with escapes. -/
  | block
  /-- Between three single quotes. -/
  | literalBlock
deriving DecidableEq

namespace StringForm

/-- Whether three of a quote follow each other in a text. -/
def hasTriple (quote : Char) : List Char → Bool
  | [] => false
  | c :: rest => (c :: rest).take 3 == [quote, quote, quote] || hasTriple quote rest

/-- Whether a text is without control characters, other than tabs and line breaks. -/
def isClean (cs : List Char) : Bool := cs.all fun c => c = '\n' || Toml.isPlain c

/-- Whether nothing in a text needs an escape in a form. -/
def fits (cs : List Char) : StringForm → Bool
  | .basic => isClean cs && !cs.contains '\\' && !cs.contains '"' && !cs.contains '\n'
  | .literal => isClean cs && !cs.contains '\'' && !cs.contains '\n'
  | .block => isClean cs && !cs.contains '\\' && !hasTriple '"' cs
  | .literalBlock => isClean cs && !hasTriple '\'' cs

/-- The form that a text is written in. -/
def best (cs : List Char) : StringForm :=
  if fits cs .basic then .basic
  else if fits cs .literal then .literal
  else if fits cs .block then .block
  else if fits cs .literalBlock then .literalBlock
  else if cs.contains '\n' then .block
  else .basic

end StringForm

namespace Toml

/-! ### Writing -/

/-- A digit of base 16, in upper case. -/
def upperHexDigit (n : Nat) : Char :=
  if n < 10 then Char.ofNat ('0'.toNat + n) else Char.ofNat ('A'.toNat + (n - 10))

/-- The four digits of a code in base 16. -/
def upperHex (n : Nat) : List Char :=
  [n / 4096 % 16, n / 256 % 16, n / 16 % 16, n % 16].map upperHexDigit

/-- One character between double quotes. A tab is escaped, though it need not be. -/
def escaped (c : Char) : List Char :=
  if c = '\x08' then ['\\', 'b']
  else if c = '\t' then ['\\', 't']
  else if c = '\n' then ['\\', 'n']
  else if c = '\x0c' then ['\\', 'f']
  else if c = '\r' then ['\\', 'r']
  else if c = '"' then ['\\', '"']
  else if c = '\\' then ['\\', '\\']
  else if isPlain c then [c]
  else '\\' :: 'u' :: upperHex c.toNat

/-- A text in a block between double quotes, behind a number of quotes: line breaks stand for
themselves, and so do quotes until a third would follow two. -/
def blockText : Nat → List Char → List Char
  | _, [] => []
  | quotes, c :: rest =>
    if c = '"' ∧ quotes < 2 then c :: blockText (quotes + 1) rest
    else if c = '\n' then c :: blockText 0 rest
    else escaped c ++ blockText 0 rest

/-- The line break that a block with line breaks starts with. -/
def openingBreak (cs : List Char) : List Char := if cs.contains '\n' then ['\n'] else []

/-- A text in a given form. -/
def textIn (cs : List Char) : StringForm → List Char
  | .basic => ['"'] ++ cs.flatMap escaped ++ ['"']
  | .literal => ['\''] ++ cs ++ ['\'']
  | .block => ['"', '"', '"'] ++ openingBreak cs ++ blockText 0 cs ++ ['"', '"', '"']
  | .literalBlock => ['\'', '\'', '\''] ++ openingBreak cs ++ cs ++ ['\'', '\'', '\'']

/-- A string as it is written. -/
def stringText (s : String) : List Char := textIn s.toList (StringForm.best s.toList)

/-! ### Reading -/

/-- The character of a code. -/
def charOf? (code : Nat) : Option Char :=
  if code.isValidChar then some (Char.ofNat code) else none

/-- The character that an escape spells, read from just after the backslash. -/
def readEscape? : List Char → Option (Char × List Char)
  | '"' :: rest => some ('"', rest)
  | '\\' :: rest => some ('\\', rest)
  | 'b' :: rest => some ('\x08', rest)
  | 'f' :: rest => some ('\x0c', rest)
  | 'n' :: rest => some ('\n', rest)
  | 'r' :: rest => some ('\r', rest)
  | 't' :: rest => some ('\t', rest)
  | 'u' :: rest => do
    let (code, rest) ← JsonToken.readUnit? rest
    let c ← charOf? code
    pure (c, rest)
  | 'U' :: rest => do
    let (high, rest) ← JsonToken.readUnit? rest
    let (low, rest) ← JsonToken.readUnit? rest
    let c ← charOf? (0x10000 * high + low)
    pure (c, rest)
  | _ => none

/-- The rest of a string between double quotes, with at most `fuel` characters. -/
def readBasic? : Nat → List Char → Option (List Char × List Char)
  | 0, _ => none
  | _ + 1, [] => none
  | fuel + 1, c :: rest =>
    if c = '"' then some ([], rest)
    else if c = '\\' then do
      let (d, rest) ← readEscape? rest
      let (s, rest) ← readBasic? fuel rest
      pure (d :: s, rest)
    else if isPlain c then do
      let (s, rest) ← readBasic? fuel rest
      pure (c :: s, rest)
    else none

/-- The rest of a string between single quotes. -/
def readLiteral? : List Char → Option (List Char × List Char)
  | [] => none
  | c :: rest =>
    if c = '\'' then some ([], rest)
    else if isPlain c then (readLiteral? rest).map fun (s, rest) => (c :: s, rest)
    else none

/-- What follows the three quotes that end a string: up to two more quotes belong to the
string. -/
def endBlock (quote : Char) (rest : List Char) : List Char × List Char :=
  let extra := (rest.takeWhile (· = quote)).take 2
  (extra, rest.drop extra.length)

/-- The text after a backslash at the end of a line: the blanks and line breaks that follow it
do not count. -/
def skipBreak? (cs : List Char) : Option (List Char) :=
  match cs.dropWhile isSpace with
  | '\n' :: rest => some (rest.dropWhile fun c => isSpace c || c = '\n')
  | _ => none

/-- The rest of a string between three double quotes, with at most `fuel` characters. -/
def readBlock? : Nat → List Char → Option (List Char × List Char)
  | 0, _ => none
  | _ + 1, [] => none
  | _ + 1, '"' :: '"' :: '"' :: rest => some (endBlock '"' rest)
  | fuel + 1, c :: rest =>
    if c = '\\' then
      match skipBreak? rest with
      | some rest => readBlock? fuel rest
      | none => do
        let (d, rest) ← readEscape? rest
        let (s, rest) ← readBlock? fuel rest
        pure (d :: s, rest)
    else if c = '\n' || isPlain c then do
      let (s, rest) ← readBlock? fuel rest
      pure (c :: s, rest)
    else none

/-- The rest of a string between three single quotes. -/
def readLiteralBlock? : List Char → Option (List Char × List Char)
  | [] => none
  | '\'' :: '\'' :: '\'' :: rest => some (endBlock '\'' rest)
  | c :: rest =>
    if c = '\n' || isPlain c then
      (readLiteralBlock? rest).map fun (s, rest) => (c :: s, rest)
    else none

/-- A text without the line break that it may start with. -/
def dropBreak : List Char → List Char
  | '\n' :: rest => rest
  | cs => cs

/-- The string at the start of a text that starts with a quote, and what follows it. -/
def readString? : List Char → Option (List Char × List Char)
  | '"' :: '"' :: '"' :: rest => readBlock? (rest.length + 1) (dropBreak rest)
  | '"' :: rest => readBasic? (rest.length + 1) rest
  | '\'' :: '\'' :: '\'' :: rest => readLiteralBlock? (dropBreak rest)
  | '\'' :: rest => readLiteral? rest
  | _ => none

end Toml

end TypedConfig
