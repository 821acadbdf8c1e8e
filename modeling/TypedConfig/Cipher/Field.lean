/-
# Two binary fields

The cipher works in a field of 256 elements, whose elements are bytes, and its tag
in one of 2¹²⁸ elements, whose elements are blocks. In both, addition is the
exclusive or and multiplication is that of polynomials over bits, reduced.

Key definitions: `mulByte`, `invertByte`, `substitute`, `Block`, `mulBlock`.
-/

namespace TypedConfig

/-! ### Bytes -/

/-- A byte times the polynomial `x`. -/
def doubleByte (a : UInt8) : UInt8 :=
  if a.toNat < 128 then a <<< 1 else (a <<< 1) ^^^ 0x1b

/-- Multiplication of bytes, taking `fuel` bits of the second one, the lowest first. -/
def mulByteFrom : Nat → UInt8 → UInt8 → UInt8
  | 0, _, _ => 0
  | fuel + 1, a, b =>
    (if b.toNat % 2 = 0 then 0 else a) ^^^ mulByteFrom fuel (doubleByte a) (b >>> 1)

/-- The product of two bytes. -/
def mulByte (a b : UInt8) : UInt8 := mulByteFrom 8 a b

/-- The product of the square of a byte, the square of that, and so on, `count` of them. -/
def mulSquares : Nat → UInt8 → UInt8
  | 0, _ => 1
  | count + 1, a => mulByte (mulByte a a) (mulSquares count (mulByte a a))

/-- The inverse of a byte, that of zero being zero: every other byte to the power of 255 is one. -/
def invertByte (a : UInt8) : UInt8 := mulSquares 7 a

/-- A byte rotated to the left. -/
def rotateByte (a n : UInt8) : UInt8 := (a <<< n) ||| (a >>> (8 - n))

/-- The substitution of one byte: its inverse, then an affine map over the bits. -/
def substituteByte (a : UInt8) : UInt8 :=
  let b := invertByte a
  b ^^^ rotateByte b 1 ^^^ rotateByte b 2 ^^^ rotateByte b 3 ^^^ rotateByte b 4 ^^^ 0x63

/-- The substitutions of all bytes. -/
def substitutions : Array UInt8 := Array.ofFn fun i : Fin 256 => substituteByte i.val.toUInt8

/-- The substitution of a byte, looked up. -/
def substitute (a : UInt8) : UInt8 := substitutions.getD a.toNat 0

/-! ### Blocks -/

/-- Sixteen bytes. The most significant bit is the coefficient of the lowest power. -/
abbrev Block := BitVec 128

/-- The bytes of a block, the most significant first. -/
def Block.toBytes (b : Block) : List UInt8 :=
  (List.range 16).map fun i => (b.toNat >>> (8 * (15 - i))).toUInt8

/-- The block whose first bytes are given; bytes that are missing are zero. -/
def Block.ofBytes (bytes : List UInt8) : Block :=
  BitVec.ofNat 128
    ((List.range 16).foldl (fun n i => n * 256 + (bytes.getD i 0).toNat) 0)

/-- A block times the polynomial `x`. -/
def doubleBlock (v : Block) : Block :=
  if v.getLsbD 0 then (v >>> 1) ^^^ (0xe1#128 <<< 120) else v >>> 1

/-- Adds to `sum` the product of blocks, from the bit `count - 1` of the first one down. -/
def mulBlockFrom (a : Block) : Nat → Block → Block → Block
  | 0, _, sum => sum
  | count + 1, b, sum =>
    mulBlockFrom a count (doubleBlock b) (if a.getLsbD count then sum ^^^ b else sum)

/-- The product of two blocks. -/
def mulBlock (a b : Block) : Block := mulBlockFrom a 128 b 0

end TypedConfig
