/-
# Counter mode, byte by byte

Bytes spell a number, the most significant one first, and a block is the number of its sixteen
bytes (`Block.ofBytes_toBytes`). A counter block is a nonce of twelve bytes and a count of four.
Counting up changes the count alone, which starts again at zero after 2³² blocks
(`Envelope.increment_counterBlock`), so the blocks from a count on are known without counting
through those before. Byte `i` of the keystream is therefore byte `i % 16` of the encrypted block
with the count `i / 16 + 2`, and encrypting adds that byte to byte `i` of the text, whatever the
length of the text and however much of its last block is used (`Envelope.crypt_eq_masked`).

Key definitions: `bigNumber`, `Envelope.counterBlock`, `Envelope.keyByte`, `Envelope.masked`.
Key theorems: `Block.ofBytes_toBytes`, `Envelope.increment_counterBlock`,
`Envelope.crypt_eq_masked`.
-/
import Mathlib
import TypedConfig.Cipher.Envelope

namespace TypedConfig

/-! ### Bytes as a number -/

/-- The number that bytes spell, the most significant first. -/
def bigNumber (bytes : List UInt8) : ℕ := bytes.foldl (fun n byte => n * 256 + byte.toNat) 0

theorem foldl_bigNumber (bytes : List UInt8) : ∀ n : ℕ,
    bytes.foldl (fun n byte => n * 256 + byte.toNat) n =
      n * 256 ^ bytes.length + bigNumber bytes := by
  induction bytes with
  | nil => simp [bigNumber]
  | cons byte rest ih =>
    intro n
    rw [bigNumber, List.foldl_cons, List.foldl_cons, ih, ih, List.length_cons, pow_succ]
    ring

theorem bigNumber_append (front back : List UInt8) :
    bigNumber (front ++ back) = bigNumber front * 256 ^ back.length + bigNumber back := by
  rw [bigNumber, List.foldl_append, foldl_bigNumber back, ← bigNumber]

theorem bigNumber_lt (bytes : List UInt8) : bigNumber bytes < 256 ^ bytes.length := by
  induction bytes using List.reverseRecOn with
  | nil => simp [bigNumber]
  | append_singleton front byte ih =>
    have hbyte : bigNumber [byte] < 256 := by
      simpa [bigNumber] using byte.toNat_lt
    rw [bigNumber_append, List.length_append, List.length_singleton, pow_one, pow_succ]
    omega

/-- A number in bytes ends with its last byte. -/
theorem bigEndian_succ (count n : ℕ) :
    Digest.bigEndian (count + 1) n = Digest.bigEndian count (n / 256) ++ [n.toUInt8] := by
  have hshift : ∀ i ∈ List.range count,
      (n >>> (8 * (count + 1 - 1 - i))).toUInt8 = ((n / 256) >>> (8 * (count - 1 - i))).toUInt8 := by
    intro i hi
    rw [List.mem_range] at hi
    rw [show 8 * (count + 1 - 1 - i) = 8 + 8 * (count - 1 - i) by omega, Nat.shiftRight_add,
      Nat.shiftRight_eq_div_pow n 8]
  rw [Digest.bigEndian, List.range_succ, List.map_append, List.map_congr_left hshift]
  simp [Digest.bigEndian]

/-- The bytes of a number spell what of it they have room for. -/
theorem bigNumber_bigEndian : ∀ count n : ℕ,
    bigNumber (Digest.bigEndian count n) = n % 256 ^ count
  | 0, n => (Nat.mod_one n).symm
  | count + 1, n => by
    have hlast : bigNumber [n.toUInt8] = n % 256 := by simp [bigNumber]
    rw [bigEndian_succ, bigNumber_append, bigNumber_bigEndian count, hlast,
      List.length_singleton, pow_one, pow_succ', Nat.mod_mul, Nat.add_comm, Nat.mul_comm]

/-- The number that bytes spell has these bytes. -/
theorem bigEndian_bigNumber (bytes : List UInt8) :
    Digest.bigEndian bytes.length (bigNumber bytes) = bytes := by
  induction bytes using List.reverseRecOn with
  | nil => rfl
  | append_singleton front byte ih =>
    have hlast : bigNumber [byte] = byte.toNat := by simp [bigNumber]
    have hbyte := byte.toNat_lt
    have hfront : (bigNumber front * 256 + byte.toNat) / 256 = bigNumber front := by omega
    have hback : (bigNumber front * 256 + byte.toNat).toUInt8 = byte := by
      apply UInt8.toNat_inj.mp
      rw [Nat.toUInt8_eq, UInt8.toNat_ofNat']
      omega
    rw [bigNumber_append, hlast, List.length_append, List.length_singleton, pow_one,
      bigEndian_succ, hfront, hback, ih]

/-! ### Blocks as bytes -/

namespace Block

theorem toBytes_eq (b : Block) : toBytes b = Digest.bigEndian 16 b.toNat := rfl

theorem length_toBytes (b : Block) : (toBytes b).length = 16 := by
  simp [toBytes]

theorem toNat_ofBytes {bytes : List UInt8} (h : bytes.length = 16) :
    (ofBytes bytes).toNat = bigNumber bytes := by
  have hbytes : bytes = (List.range 16).map fun i => bytes.getD i 0 := by
    refine List.ext_getElem (by simp [h]) fun i hi _ => ?_
    simp [List.getD_eq_getElem?_getD, hi]
  have hnumber : bigNumber bytes =
      (List.range 16).foldl (fun n i => n * 256 + (bytes.getD i 0).toNat) 0 := by
    conv_lhs => rw [hbytes]
    rw [bigNumber, List.foldl_map]
  have hlt := bigNumber_lt bytes
  rw [h] at hlt
  rw [ofBytes, ← hnumber, BitVec.toNat_ofNat, Nat.mod_eq_of_lt (by omega)]

/-- **A block is its sixteen bytes.** -/
theorem ofBytes_toBytes (b : Block) : ofBytes (toBytes b) = b := by
  apply BitVec.eq_of_toNat_eq
  rw [toNat_ofBytes (length_toBytes b), toBytes_eq, bigNumber_bigEndian]
  exact Nat.mod_eq_of_lt b.isLt

theorem toBytes_ofBytes {bytes : List UInt8} (h : bytes.length = 16) :
    toBytes (ofBytes bytes) = bytes := by
  rw [toBytes_eq, toNat_ofBytes h, ← h, bigEndian_bigNumber]

/-- Bytes that are missing are zero. -/
theorem ofBytes_rightpad (bytes : List UInt8) : ofBytes (bytes.rightpad 16 0) = ofBytes bytes := by
  have hbyte : ∀ i, (bytes.rightpad 16 0).getD i 0 = bytes.getD i 0 := by
    intro i
    rw [List.rightpad]
    by_cases hi : i < bytes.length
    · exact List.getD_append _ _ _ _ hi
    · rw [List.getD_append_right _ _ _ _ (not_lt.mp hi), List.getD_eq_default _ _ (not_lt.mp hi),
        List.getD_eq_getElem?_getD, List.getElem?_getD_replicate_default_eq]
  simp only [ofBytes, hbyte]

end Block

namespace Envelope

/-! ### Counter blocks -/

/-- The block of a nonce and a count. -/
def counterBlock (nonce : List UInt8) (n : ℕ) : Block :=
  Block.ofBytes (nonce ++ Digest.bigEndian 4 n)

variable {nonce : List UInt8} (cipher : Block → Block)

theorem firstCounter_eq (nonce : List UInt8) : firstCounter nonce = counterBlock nonce 1 := rfl

theorem toNat_counterBlock (h : nonce.length = nonceSize) (n : ℕ) :
    (counterBlock nonce n).toNat = bigNumber nonce * 2 ^ 32 + n % 2 ^ 32 := by
  have hcount : (Digest.bigEndian 4 n).length = 4 := rfl
  rw [counterBlock, Block.toNat_ofBytes (by rw [List.length_append, h, hcount, nonceSize]),
    bigNumber_append, hcount, bigNumber_bigEndian, show 256 ^ 4 = 2 ^ 32 from rfl]

/-- **Counting up changes the count alone.** -/
theorem increment_counterBlock (h : nonce.length = nonceSize) (n : ℕ) :
    increment (counterBlock nonce n) = counterBlock nonce (n + 1) := by
  have hsize : counterSize = 2 ^ 32 := rfl
  have hlt := bigNumber_lt nonce
  rw [h, nonceSize] at hlt
  apply BitVec.eq_of_toNat_eq
  rw [increment, BitVec.toNat_ofNat, toNat_counterBlock h, toNat_counterBlock h, hsize]
  omega

/-! ### The keystream -/

/-- Byte `i` of the keystream. -/
def keyByte (nonce : List UInt8) (i : ℕ) : UInt8 :=
  (cipher (counterBlock nonce (i / 16 + 2))).toBytes.getD (i % 16) 0

/-- A text with the keystream added. -/
def masked (nonce text : List UInt8) : List UInt8 :=
  text.mapIdx fun i byte => byte ^^^ keyByte cipher nonce i

theorem length_keystream : ∀ (count : ℕ) (counter : Block),
    (keystream cipher count counter).length = 16 * count
  | 0, _ => rfl
  | count + 1, counter => by
    rw [keystream, List.length_append, Block.length_toBytes, length_keystream count]
    ring

/-- The keystream from a count on, byte by byte. -/
theorem getD_keystream (h : nonce.length = nonceSize) : ∀ (count n i : ℕ), i < 16 * count →
    (keystream cipher count (counterBlock nonce n)).getD i 0 =
      (cipher (counterBlock nonce (n + i / 16))).toBytes.getD (i % 16) 0
  | 0, _, _, hi => absurd hi (Nat.not_lt_zero _)
  | count + 1, n, i, hi => by
    have hlen := Block.length_toBytes (cipher (counterBlock nonce n))
    rw [keystream, increment_counterBlock h]
    by_cases hfirst : i < 16
    · rw [List.getD_append _ _ _ _ (by omega), Nat.div_eq_of_lt hfirst, Nat.mod_eq_of_lt hfirst,
        Nat.add_zero]
    · obtain ⟨j, rfl⟩ : ∃ j, i = j + 16 := ⟨i - 16, by omega⟩
      rw [List.getD_append_right _ _ _ _ (by omega), hlen, Nat.add_sub_cancel,
        getD_keystream h count (n + 1) j (by omega), Nat.add_div_right _ (by decide),
        Nat.add_mod_right, Nat.add_right_comm, Nat.add_assoc]

theorem addBytes_eq_mapIdx : ∀ {text mask : List UInt8}, text.length ≤ mask.length →
    addBytes text mask = text.mapIdx fun i byte => byte ^^^ mask.getD i 0
  | [], _, _ => rfl
  | _ :: _, [], h => absurd h (by simp)
  | a :: as, b :: bs, h => by
    rw [addBytes, addBytes_eq_mapIdx (Nat.le_of_succ_le_succ h), List.mapIdx_cons]
    rfl

/-- **Encrypting adds the keystream byte by byte.** -/
theorem crypt_eq_masked (h : nonce.length = nonceSize) (text : List UInt8) :
    crypt cipher nonce text = masked cipher nonce text := by
  have hreach : text.length ≤ 16 * ((text.length + 15) / 16) := by omega
  rw [crypt, firstCounter_eq, increment_counterBlock h,
    addBytes_eq_mapIdx (by rwa [length_keystream]), masked]
  refine List.ext_getElem (by simp) fun i hi _ => ?_
  rw [List.length_mapIdx] at hi
  rw [List.getElem_mapIdx, List.getElem_mapIdx,
    getD_keystream cipher h _ _ _ (hi.trans_le hreach), keyByte, Nat.add_comm (1 + 1)]

end Envelope
end TypedConfig
