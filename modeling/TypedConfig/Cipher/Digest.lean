/-
# SHA-256

The digest that turns a passphrase into a key. A message is padded to whole blocks
of sixteen words; each block is mixed into a chain of eight words in sixty-four
rounds, while a window of sixteen words slides along the message schedule.

Key definitions: `Digest.pad`, `Digest.compress`, `sha256`.
-/

namespace TypedConfig
namespace Digest

/-- The eight words that a digest chains through the blocks. -/
structure Chain where
  a : UInt32
  b : UInt32
  c : UInt32
  d : UInt32
  e : UInt32
  f : UInt32
  g : UInt32
  h : UInt32
deriving DecidableEq

/-- The chain before the first block: the leading fraction bits of the square roots of the first
eight primes. -/
def start : Chain :=
  ⟨0x6a09e667, 0xbb67ae85, 0x3c6ef372, 0xa54ff53a, 0x510e527f, 0x9b05688c, 0x1f83d9ab, 0x5be0cd19⟩

/-- One word for each round: the leading fraction bits of the cube roots of the first sixty-four
primes. -/
def roundWords : List UInt32 := [
  0x428a2f98, 0x71374491, 0xb5c0fbcf, 0xe9b5dba5, 0x3956c25b, 0x59f111f1, 0x923f82a4, 0xab1c5ed5,
  0xd807aa98, 0x12835b01, 0x243185be, 0x550c7dc3, 0x72be5d74, 0x80deb1fe, 0x9bdc06a7, 0xc19bf174,
  0xe49b69c1, 0xefbe4786, 0x0fc19dc6, 0x240ca1cc, 0x2de92c6f, 0x4a7484aa, 0x5cb0a9dc, 0x76f988da,
  0x983e5152, 0xa831c66d, 0xb00327c8, 0xbf597fc7, 0xc6e00bf3, 0xd5a79147, 0x06ca6351, 0x14292967,
  0x27b70a85, 0x2e1b2138, 0x4d2c6dfc, 0x53380d13, 0x650a7354, 0x766a0abb, 0x81c2c92e, 0x92722c85,
  0xa2bfe8a1, 0xa81a664b, 0xc24b8b70, 0xc76c51a3, 0xd192e819, 0xd6990624, 0xf40e3585, 0x106aa070,
  0x19a4c116, 0x1e376c08, 0x2748774c, 0x34b0bcb5, 0x391c0cb3, 0x4ed8aa4a, 0x5b9cca4f, 0x682e6ff3,
  0x748f82ee, 0x78a5636f, 0x84c87814, 0x8cc70208, 0x90befffa, 0xa4506ceb, 0xbef9a3f7, 0xc67178f2]

/-- A word rotated to the right. -/
def rotate (x n : UInt32) : UInt32 := (x >>> n) ||| (x <<< (32 - n))

/-- The word that enters the window when its first one leaves. -/
def nextWord (window : List UInt32) : UInt32 :=
  let word (i : Nat) := window.getD i 0
  let early := rotate (word 1) 7 ^^^ rotate (word 1) 18 ^^^ (word 1 >>> 3)
  let late := rotate (word 14) 17 ^^^ rotate (word 14) 19 ^^^ (word 14 >>> 10)
  word 0 + early + word 9 + late

/-- One round: mixes a round word and a word of the schedule into the chain. -/
def round (v : Chain) (k w : UInt32) : Chain :=
  let high := rotate v.e 6 ^^^ rotate v.e 11 ^^^ rotate v.e 25
  let choice := (v.e &&& v.f) ^^^ (~~~v.e &&& v.g)
  let first := v.h + high + choice + k + w
  let low := rotate v.a 2 ^^^ rotate v.a 13 ^^^ rotate v.a 22
  let majority := (v.a &&& v.b) ^^^ (v.a &&& v.c) ^^^ (v.b &&& v.c)
  ⟨first + (low + majority), v.a, v.b, v.c, v.d + first, v.e, v.f, v.g⟩

/-- All rounds, the window sliding on by one word in each. -/
def rounds : List UInt32 → Chain → List UInt32 → Chain
  | [], v, _ => v
  | k :: rest, v, window =>
    rounds rest (round v k (window.headD 0)) (window.drop 1 ++ [nextWord window])

/-- Mixes one block of sixteen words into the chain. -/
def compress (v : Chain) (block : List UInt32) : Chain :=
  let w := rounds roundWords v block
  ⟨v.a + w.a, v.b + w.b, v.c + w.c, v.d + w.d, v.e + w.e, v.f + w.f, v.g + w.g, v.h + w.h⟩

/-- The bytes of a number, the most significant first. -/
def bigEndian (count n : Nat) : List UInt8 :=
  (List.range count).map fun i => (n >>> (8 * (count - 1 - i))).toUInt8

/-- A message with a one bit, zeros and its length in bits, in whole blocks of 64 bytes. -/
def pad (message : List UInt8) : List UInt8 :=
  message ++ [0x80] ++ List.replicate ((119 - message.length % 64) % 64) 0
    ++ bigEndian 8 (8 * message.length)

/-- Bytes grouped by four into words, the most significant byte first. -/
def words : List UInt8 → List UInt32
  | a :: b :: c :: d :: rest =>
    ((a.toUInt32 <<< 24) ||| (b.toUInt32 <<< 16) ||| (c.toUInt32 <<< 8) ||| d.toUInt32) :: words rest
  | _ => []

/-- Mixes a number of blocks into the chain. -/
def compressAll : Nat → Chain → List UInt32 → Chain
  | 0, v, _ => v
  | count + 1, v, ws => compressAll count (compress v (ws.take 16)) (ws.drop 16)

/-- The words of a chain, in order. -/
def Chain.toList (v : Chain) : List UInt32 := [v.a, v.b, v.c, v.d, v.e, v.f, v.g, v.h]

end Digest

/-- The SHA-256 digest of a message. -/
def sha256 (message : List UInt8) : Vector UInt8 32 :=
  let ws := Digest.words (Digest.pad message)
  let out := (Digest.compressAll (ws.length / 16) Digest.start ws).toList
  Vector.ofFn fun i => (out.getD (i.val / 4) 0 >>> (24 - 8 * (i.val % 4)).toUInt32).toUInt8

end TypedConfig
