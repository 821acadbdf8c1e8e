/-
# AES with a 256-bit key

The block cipher in the forward direction, which is all that counter mode needs.
A block is four columns of four bytes. The key gives fifteen round keys; a round
substitutes the bytes, shifts the rows, mixes the columns (but in the last round)
and adds the round key.

Key definitions: `Column`, `Columns`, `Aes.roundKeys`, `Aes.encryptBlock`.
-/
import TypedConfig.Cipher.Field

namespace TypedConfig

/-- Four bytes. -/
structure Column where
  b0 : UInt8
  b1 : UInt8
  b2 : UInt8
  b3 : UInt8
deriving DecidableEq, Inhabited

namespace Column

/-- The sum of two columns. -/
def add (a b : Column) : Column := ⟨a.b0 ^^^ b.b0, a.b1 ^^^ b.b1, a.b2 ^^^ b.b2, a.b3 ^^^ b.b3⟩

/-- The bytes moved up by one place, the first to the end. -/
def rotate (a : Column) : Column := ⟨a.b1, a.b2, a.b3, a.b0⟩

/-- Every byte substituted. -/
def substituted (a : Column) : Column :=
  ⟨substitute a.b0, substitute a.b1, substitute a.b2, substitute a.b3⟩

/-- One byte of a mixed column. -/
def mixed (a b c d : UInt8) : UInt8 := doubleByte a ^^^ (doubleByte b ^^^ b) ^^^ c ^^^ d

/-- The column multiplied by the mixing polynomial. -/
def mix (a : Column) : Column :=
  ⟨mixed a.b0 a.b1 a.b2 a.b3, mixed a.b1 a.b2 a.b3 a.b0, mixed a.b2 a.b3 a.b0 a.b1,
    mixed a.b3 a.b0 a.b1 a.b2⟩

/-- The bytes in order. -/
def toBytes (a : Column) : List UInt8 := [a.b0, a.b1, a.b2, a.b3]

end Column

/-- Four columns: a block, or a round key. -/
structure Columns where
  c0 : Column
  c1 : Column
  c2 : Column
  c3 : Column
deriving DecidableEq, Inhabited

namespace Columns

/-- The sum of two blocks. -/
def add (a b : Columns) : Columns :=
  ⟨a.c0.add b.c0, a.c1.add b.c1, a.c2.add b.c2, a.c3.add b.c3⟩

/-- Every byte substituted. -/
def substituted (a : Columns) : Columns :=
  ⟨a.c0.substituted, a.c1.substituted, a.c2.substituted, a.c3.substituted⟩

/-- Row `r` moved to the left by `r` places. -/
def shiftRows (a : Columns) : Columns :=
  ⟨⟨a.c0.b0, a.c1.b1, a.c2.b2, a.c3.b3⟩, ⟨a.c1.b0, a.c2.b1, a.c3.b2, a.c0.b3⟩,
    ⟨a.c2.b0, a.c3.b1, a.c0.b2, a.c1.b3⟩, ⟨a.c3.b0, a.c0.b1, a.c1.b2, a.c2.b3⟩⟩

/-- Every column mixed. -/
def mix (a : Columns) : Columns := ⟨a.c0.mix, a.c1.mix, a.c2.mix, a.c3.mix⟩

/-- The bytes, column by column. -/
def toBytes (a : Columns) : List UInt8 :=
  a.c0.toBytes ++ a.c1.toBytes ++ a.c2.toBytes ++ a.c3.toBytes

/-- The columns of the first sixteen bytes of a list; bytes that are missing are zero. -/
def ofBytes (bytes : List UInt8) : Columns :=
  let column (i : Nat) : Column :=
    ⟨bytes.getD (4 * i) 0, bytes.getD (4 * i + 1) 0, bytes.getD (4 * i + 2) 0,
      bytes.getD (4 * i + 3) 0⟩
  ⟨column 0, column 1, column 2, column 3⟩

/-- The four columns that continue a key schedule: each is the sum of the column before it and of
the one in its place in `old`, where the column before the first is `feed`. -/
def chain (old : Columns) (feed : Column) : Columns :=
  let c0 := old.c0.add feed
  let c1 := old.c1.add c0
  let c2 := old.c2.add c1
  let c3 := old.c3.add c2
  ⟨c0, c1, c2, c3⟩

end Columns

namespace Aes

/-- The round keys that follow two others, two at a time, `pairs` times; `constant` is the round
constant of the first pair. -/
def extend : Nat → UInt8 → Columns → Columns → List Columns
  | 0, _, _, _ => []
  | pairs + 1, constant, even, odd =>
    let even' := even.chain ((odd.c3.rotate.substituted).add ⟨constant, 0, 0, 0⟩)
    let odd' := odd.chain even'.c3.substituted
    even' :: odd' :: extend pairs (doubleByte constant) even' odd'

/-- The round keys of a key of 32 bytes. -/
def roundKeys (key : Vector UInt8 32) : List Columns :=
  let bytes := key.toList
  let even := Columns.ofBytes bytes
  let odd := Columns.ofBytes (bytes.drop 16)
  even :: odd :: extend 7 1 even odd

/-- The rounds with the given keys, of which the last does not mix. -/
def rounds : List Columns → Columns → Columns
  | [], s => s
  | [k], s => s.substituted.shiftRows.add k
  | k :: rest, s => rounds rest (s.substituted.shiftRows.mix.add k)

/-- Encrypts one block under fifteen round keys, of which a key schedule may give one more. -/
def encryptColumns (keys : List Columns) (s : Columns) : Columns :=
  match keys.take 15 with
  | [] => s
  | k :: rest => rounds rest (s.add k)

/-- Encrypts one block. -/
def encryptBlock (key : Vector UInt8 32) (b : Block) : Block :=
  Block.ofBytes (encryptColumns (roundKeys key) (Columns.ofBytes b.toBytes)).toBytes

end Aes

end TypedConfig
