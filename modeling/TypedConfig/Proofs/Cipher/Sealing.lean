/-
# What an envelope holds, and which envelopes open

The tag of an encrypted text is determined by an equation between elements
(`Envelope.IsTag`): the slices of the text and a block with its length are the coefficients of
a polynomial in the encryption of the zero block, and the encryption of the counter block with
the count one is added. The tag that is computed is the only one (`Envelope.isTag_iff`).

An envelope of at least 28 bytes is a nonce, an encrypted text and a tag, and it opens exactly
if the tag is that of the text (`CipherKey.decrypt_parts`). As the keystream can be added again,
opening undoes sealing, and sealing what was opened, under the nonce of the envelope, undoes
opening (`CipherKey.envelope_round_trip`). The block cipher below all this is the one that
`Aes.IsEncryption` describes.

Key definitions: `Envelope.slice`, `Envelope.hashElement`, `Envelope.IsTag`,
`Envelope.IsSealing`.
Key theorems: `Envelope.isTag_iff`, `CipherKey.decrypt_parts`, `CipherKey.envelope_round_trip`.
-/
import Mathlib
import TypedConfig.Proofs.Cipher.BlockRing
import TypedConfig.Proofs.Cipher.CounterMode
import TypedConfig.Proofs.Cipher.Envelope
import TypedConfig.Proofs.Cipher.Rounds
import TypedConfig.Cipher.Nonces

namespace TypedConfig
namespace Envelope

/-! ### The tag -/

/-- Sixteen bytes of a text, with zeros behind its end. -/
def slice (text : List UInt8) (i : ℕ) : Block :=
  Block.ofBytes (((text.drop (16 * i)).take 16).rightpad 16 0)

/-- The number of bits of further data, of which there is none, and of a text. -/
def lengthBlock (text : List UInt8) : Block := 0#64 ++ BitVec.ofNat 64 (8 * text.length)

/-- The hash of a text: its slices and its length as the coefficients of a polynomial in the hash
key. -/
noncomputable def hashElement (hashKey : Block) (text : List UInt8) : BlockRing :=
  let count := (text.length + 15) / 16
  (∑ i ∈ Finset.range count,
      Block.element (slice text i) * Block.element hashKey ^ (count + 1 - i)) +
    Block.element (lengthBlock text) * Block.element hashKey

/-- A tag of an encrypted text under a nonce. -/
structure IsTag (cipher : Block → Block) (nonce encrypted tag : List UInt8) : Prop where
  length_eq : tag.length = tagSize
  element_eq : Block.element (Block.ofBytes tag) =
    hashElement (cipher 0) encrypted + Block.element (cipher (counterBlock nonce 1))

variable (cipher : Block → Block)

theorem blocks_eq_map : ∀ (count : ℕ) (text : List UInt8),
    blocks count text = (List.range count).map (slice text)
  | 0, _ => rfl
  | count + 1, text => by
    have hslice : ∀ i, slice (text.drop 16) i = slice text (i + 1) := by
      intro i
      rw [slice, slice, List.drop_drop, Nat.mul_add, Nat.mul_one, Nat.add_comm]
    have hfirst : slice text 0 = Block.ofBytes (text.take 16) := Block.ofBytes_rightpad _
    rw [blocks, blocks_eq_map count, List.range_succ_eq_map, List.map_cons, List.map_map, hfirst]
    exact congrArg (Block.ofBytes (text.take 16) :: ·) (List.map_congr_left fun i _ => hslice i)

theorem lengthBlock_eq {text : List UInt8} (h : text.length ≤ maxLength) :
    lengthBlock text = BitVec.ofNat 128 (8 * text.length) := by
  have hmax : maxLength = 2 ^ 36 := rfl
  apply BitVec.eq_of_toNat_eq
  rw [lengthBlock, BitVec.toNat_append, BitVec.toNat_ofNat, BitVec.toNat_ofNat, BitVec.toNat_ofNat,
    Nat.zero_mod, Nat.zero_shiftLeft, Nat.zero_or]
  omega

/-- The hash that is computed stands for the polynomial. -/
theorem element_hash (hashKey : Block) {text : List UInt8} (h : text.length ≤ maxLength) :
    Block.element (hashBlocks hashKey
        (blocks ((text.length + 15) / 16) text ++ [BitVec.ofNat 128 (8 * text.length)])) =
      hashElement hashKey text := by
  have hbefore : ∀ i ∈ Finset.range ((text.length + 15) / 16),
      ((List.range ((text.length + 15) / 16)).map (slice text) ++ [lengthBlock text]).getD i 0 =
        slice text i := by
    intro i hi
    rw [Finset.mem_range] at hi
    rw [List.getD_append _ _ _ _ (by simpa using hi)]
    simp [hi]
  have hlast :
      ((List.range ((text.length + 15) / 16)).map (slice text) ++ [lengthBlock text]).getD
        ((text.length + 15) / 16) 0 = lengthBlock text := by
    rw [List.getD_append_right _ _ _ _ (by simp)]
    simp
  rw [element_hashBlocks, blocks_eq_map, ← lengthBlock_eq h, List.length_append, List.length_map,
    List.length_range, List.length_singleton, Finset.sum_range_succ, hlast, Nat.add_sub_cancel_left,
    pow_one, Finset.sum_congr rfl fun i hi => by rw [hbefore i hi]]
  rfl

/-- **The tag that is computed is the only one.** -/
theorem isTag_iff {nonce encrypted t : List UInt8} (h : encrypted.length ≤ maxLength) :
    IsTag cipher nonce encrypted t ↔ t = tag cipher nonce encrypted := by
  have helement : Block.element (hashBlocks (cipher 0) (blocks ((encrypted.length + 15) / 16)
        encrypted ++ [BitVec.ofNat 128 (8 * encrypted.length)]) ^^^ cipher (firstCounter nonce)) =
      hashElement (cipher 0) encrypted + Block.element (cipher (counterBlock nonce 1)) := by
    rw [Block.element_xor, element_hash _ h, firstCounter_eq]
  constructor
  · intro htag
    rw [← Block.toBytes_ofBytes htag.length_eq,
      Block.element_injective (htag.element_eq.trans helement.symm)]
    rfl
  · rintro rfl
    refine ⟨tag_length cipher nonce encrypted, ?_⟩
    rw [← helement, tag, Block.ofBytes_toBytes]

/-! ### The envelope -/

/-- An envelope of a text under a nonce. -/
structure IsSealing (nonce text envelope : List UInt8) : Prop where
  length_eq : envelope.length = 12 + text.length + 16
  nonce_eq : envelope.take 12 = nonce
  encrypted_eq : (envelope.drop 12).take text.length = masked cipher nonce text
  isTag : IsTag cipher nonce (masked cipher nonce text) (envelope.drop (12 + text.length))

theorem length_masked (nonce text : List UInt8) : (masked cipher nonce text).length = text.length :=
  List.length_mapIdx

variable {nonce encrypted t : List UInt8}

theorem take_parts (hnonce : nonce.length = nonceSize) :
    (nonce ++ encrypted ++ t).take 12 = nonce := by
  rw [nonceSize] at hnonce
  rw [List.append_assoc, ← hnonce, List.take_left]

theorem drop_parts (hnonce : nonce.length = nonceSize) :
    (nonce ++ encrypted ++ t).drop 12 = encrypted ++ t := by
  rw [nonceSize] at hnonce
  rw [List.append_assoc, ← hnonce, List.drop_left]

theorem drop_front (hnonce : nonce.length = nonceSize) :
    (nonce ++ encrypted ++ t).drop (12 + encrypted.length) = t := by
  rw [← List.drop_drop, drop_parts hnonce, List.drop_left]

theorem length_parts (hnonce : nonce.length = nonceSize) (htag : t.length = tagSize) :
    (nonce ++ encrypted ++ t).length = 12 + encrypted.length + 16 := by
  rw [List.length_append, List.length_append, hnonce, htag, nonceSize, tagSize]

theorem isSealing_append {text : List UInt8} (hnonce : nonce.length = nonceSize)
    (h : IsTag cipher nonce (masked cipher nonce text) t) :
    IsSealing cipher nonce text (nonce ++ masked cipher nonce text ++ t) := by
  have hmasked := length_masked cipher nonce text
  refine ⟨?_, take_parts hnonce, ?_, ?_⟩
  · rw [length_parts hnonce h.length_eq, hmasked]
  · rw [drop_parts hnonce, ← hmasked, List.take_left]
  · rwa [← hmasked, drop_front hnonce]

/-- An envelope that is long enough is a nonce, an encrypted text and a tag. -/
theorem exists_parts {envelope : List UInt8} (h : 28 ≤ envelope.length) :
    ∃ (nonce : Nonce) (encrypted t : List UInt8),
      envelope = nonce.bytes.toList ++ encrypted ++ t ∧ t.length = tagSize := by
  have hnonce : (envelope.take 12).toArray.size = 12 := by
    rw [List.size_toArray, List.length_take]
    omega
  refine ⟨⟨⟨(envelope.take 12).toArray, hnonce⟩⟩, (envelope.drop 12).take (envelope.length - 28),
    (envelope.drop 12).drop (envelope.length - 28), ?_, ?_⟩
  · rw [List.append_assoc, List.take_append_drop]
    exact (List.take_append_drop 12 envelope).symm
  · rw [List.length_drop, List.length_drop, tagSize]
    omega

end Envelope

/-! ### Opening -/

theorem Nonce.length_toList (nonce : Nonce) : nonce.bytes.toList.length = Envelope.nonceSize :=
  Vector.length_toList

namespace CipherKey

variable (key : CipherKey)

/-- **An envelope opens exactly if its tag is that of the text in it.** -/
theorem decrypt_parts {nonce encrypted t : List UInt8} (hnonce : nonce.length = Envelope.nonceSize)
    (htag : t.length = Envelope.tagSize) :
    key.decrypt (nonce ++ encrypted ++ t) =
      if encrypted.length ≤ Envelope.maxLength ∧ t = Envelope.tag key.cipher nonce encrypted then
        .ok (Envelope.crypt key.cipher nonce encrypted)
      else .error .wrongTag := by
  have htake : (nonce ++ encrypted ++ t).take Envelope.nonceSize = nonce :=
    Envelope.take_parts hnonce
  have hdrop : (nonce ++ encrypted ++ t).drop Envelope.nonceSize = encrypted ++ t :=
    Envelope.drop_parts hnonce
  have hbody : (encrypted ++ t).length - Envelope.tagSize = encrypted.length := by
    rw [List.length_append, htag, Nat.add_sub_cancel]
  have hsize : ¬ (nonce ++ encrypted ++ t).length < Envelope.nonceSize := by
    rw [List.append_assoc, List.length_append, hnonce]
    omega
  have htagged : ¬ (encrypted ++ t).length < Envelope.tagSize := by
    rw [List.length_append, htag]
    omega
  unfold decrypt
  simp only [htake, hdrop, hbody, List.take_left, List.drop_left]
  rw [if_neg hsize]
  by_cases hlong : Envelope.maxLength < encrypted.length
  · rw [if_pos (.inr hlong), if_neg fun h => absurd h.1 (not_le.mpr hlong)]
  · rw [if_neg fun h => h.elim htagged hlong]
    by_cases heq : t = Envelope.tag key.cipher nonce encrypted
    · rw [if_pos heq, if_pos ⟨not_lt.mp hlong, heq⟩]
    · rw [if_neg heq, if_neg fun h => heq h.2]

theorem decrypt_of_lt {envelope : List UInt8} (h : envelope.length < 12) :
    key.decrypt envelope = .error (.tooShort envelope.length) := by
  unfold decrypt
  rw [Envelope.nonceSize, if_pos h]

theorem decrypt_of_noTag {envelope : List UInt8} (hnonce : 12 ≤ envelope.length)
    (h : envelope.length < 28) : key.decrypt envelope = .error .wrongTag := by
  unfold decrypt
  rw [Envelope.nonceSize, Envelope.tagSize, if_neg (not_lt.mpr hnonce)]
  refine if_pos (.inl ?_)
  rw [List.length_drop]
  omega

/-- What was opened is sealed again. -/
theorem encrypt_of_decrypt {nonce : Nonce} {encrypted t text : List UInt8}
    (htag : t.length = Envelope.tagSize)
    (h : key.decrypt (nonce.bytes.toList ++ encrypted ++ t) = .ok text) :
    key.encrypt nonce text = .ok (nonce.bytes.toList ++ encrypted ++ t) := by
  rw [decrypt_parts key nonce.length_toList htag] at h
  split_ifs at h with hopens
  obtain ⟨hle, rfl⟩ := hopens
  cases h
  rw [encrypt_of_le key nonce (by rwa [Envelope.crypt_length]), Envelope.crypt_crypt]

/-- A sealed text is in its envelope byte by byte. -/
theorem isSealing_of_encrypt {nonce : Nonce} {text envelope : List UInt8}
    (h : key.encrypt nonce text = .ok envelope) :
    Envelope.IsSealing key.cipher nonce.bytes.toList text envelope := by
  have hnonce := nonce.length_toList
  by_cases hlong : Envelope.maxLength < text.length
  · rw [encrypt_of_lt key nonce hlong] at h
    cases h
  · rw [encrypt_of_le key nonce (not_lt.mp hlong), Envelope.crypt_eq_masked _ hnonce] at h
    cases h
    refine Envelope.isSealing_append key.cipher hnonce ?_
    rw [Envelope.isTag_iff _ (by rw [Envelope.length_masked]; exact not_lt.mp hlong)]

/-- **Envelopes go both ways.** The block cipher of a key is AES-256. A sealed envelope is the
nonce, the text with the keystream added and the tag, and it opens to the text. Opening gives an
answer for all bytes: fewer than twelve are too short, fewer than 28 have no tag, and others open
exactly if their tag is that of the encrypted text under the nonce. What was opened, sealed again
under the nonce of the envelope, is the envelope. -/
theorem envelope_round_trip (key : CipherKey) :
    (∀ b c : Block, Aes.IsEncryption key.bytes b c ↔ c = key.cipher b) ∧
    (∀ (nonce : Nonce) (text : List UInt8), text.length ≤ Envelope.maxLength →
      ∃ envelope, key.encrypt nonce text = .ok envelope ∧
        Envelope.IsSealing key.cipher nonce.bytes.toList text envelope ∧
        key.decrypt envelope = .ok text) ∧
    (∀ envelope : List UInt8,
      envelope.length < 12 → key.decrypt envelope = .error (.tooShort envelope.length)) ∧
    (∀ envelope : List UInt8, 12 ≤ envelope.length → envelope.length < 28 →
      key.decrypt envelope = .error .wrongTag) ∧
    (∀ envelope : List UInt8, 28 ≤ envelope.length →
      (∃ text, key.decrypt envelope = .ok text) ∨ key.decrypt envelope = .error .wrongTag) ∧
    (∀ envelope : List UInt8, 28 ≤ envelope.length →
      envelope.length ≤ 12 + Envelope.maxLength + 16 →
      ((∃ text, key.decrypt envelope = .ok text) ↔
        Envelope.IsTag key.cipher (envelope.take 12)
          ((envelope.drop 12).take (envelope.length - 28))
          (envelope.drop (envelope.length - 16)))) ∧
    ∀ envelope text : List UInt8, key.decrypt envelope = .ok text →
      ∃ nonce : Nonce, key.encrypt nonce text = .ok envelope ∧
        Envelope.IsSealing key.cipher nonce.bytes.toList text envelope := by
  refine ⟨fun _ _ => Aes.isEncryption_iff, ?sealed, fun _ => decrypt_of_lt key,
    fun _ => decrypt_of_noTag key, ?total, ?accepted, ?resealed⟩
  case sealed =>
    intro nonce text hle
    have hseal := encrypt_of_le key nonce hle
    exact ⟨_, hseal, isSealing_of_encrypt key hseal, decrypt_encrypt key nonce hseal⟩
  case total =>
    intro envelope hsize
    obtain ⟨nonce, encrypted, t, rfl, htag⟩ := Envelope.exists_parts hsize
    rw [decrypt_parts key nonce.length_toList htag]
    split_ifs
    · exact .inl ⟨_, rfl⟩
    · exact .inr rfl
  case accepted =>
    intro envelope hsize hmax
    obtain ⟨nonce, encrypted, t, rfl, htag⟩ := Envelope.exists_parts hsize
    have hnonce := nonce.length_toList
    rw [Envelope.length_parts hnonce htag] at hmax ⊢
    have hle : encrypted.length ≤ Envelope.maxLength := by omega
    have hbody : 12 + encrypted.length + 16 - 28 = encrypted.length := by omega
    rw [Envelope.take_parts hnonce, Envelope.drop_parts hnonce, hbody, List.take_left,
      Nat.add_sub_cancel, Envelope.drop_front hnonce, Envelope.isTag_iff _ hle,
      decrypt_parts key hnonce htag]
    by_cases heq : t = Envelope.tag key.cipher nonce.bytes.toList encrypted
    · rw [if_pos ⟨hle, heq⟩]
      exact ⟨fun _ => heq, fun _ => ⟨_, rfl⟩⟩
    · rw [if_neg fun h => heq h.2]
      refine ⟨?_, fun h => absurd h heq⟩
      rintro ⟨text, h⟩
      cases h
  case resealed =>
    intro envelope text h
    have hsize : 28 ≤ envelope.length := by
      by_contra hlt
      by_cases hnonce : envelope.length < 12
      · rw [decrypt_of_lt key hnonce] at h
        cases h
      · rw [decrypt_of_noTag key (not_lt.mp hnonce) (not_le.mp hlt)] at h
        cases h
    obtain ⟨nonce, encrypted, t, rfl, htag⟩ := Envelope.exists_parts hsize
    have hseal := encrypt_of_decrypt key htag h
    exact ⟨nonce, hseal, isSealing_of_encrypt key hseal⟩

/-- The envelope of the empty text that is published for a key and a nonce of zeros. -/
def emptyEnvelope : List UInt8 :=
  List.replicate 12 0 ++ [0x53, 0x0f, 0x8a, 0xfb, 0xc7, 0x45, 0x36, 0xb9, 0xa9, 0x63, 0xb4, 0xf1,
    0xc4, 0xcb, 0x73, 0x8b]

/-- A text that ends within its first block goes both ways, and so does the empty one, whose
envelope under zeros is the published one. -/
theorem envelope_round_trip_partialBlock :
    (∃ envelope, (ofPassphrase "correct horse").encrypt (NonceSupply.nonce 7) [123, 125] =
        .ok envelope ∧ envelope.length = 30 ∧
        (ofPassphrase "correct horse").decrypt envelope = .ok [123, 125]) ∧
      (∃ envelope, (ofPassphrase "correct horse").encrypt (NonceSupply.nonce 7) [] = .ok envelope ∧
        envelope.length = 28 ∧ (ofPassphrase "correct horse").decrypt envelope = .ok []) ∧
      (ofPassphrase "correct horse").decrypt [1, 2, 3] = .error (.tooShort 3) ∧
      (ofPassphrase "correct horse").decrypt (List.replicate 27 0) = .error .wrongTag ∧
      (CipherKey.mk (Vector.replicate 32 0)).encrypt (NonceSupply.nonce 0) [] = .ok emptyEnvelope ∧
      (CipherKey.mk (Vector.replicate 32 0)).decrypt emptyEnvelope = .ok [] := by
  obtain ⟨-, hsealed, hshort, hnoTag, -, -, -⟩ := envelope_round_trip (ofPassphrase "correct horse")
  obtain ⟨-, hzeros, -⟩ := envelope_round_trip (CipherKey.mk (Vector.replicate 32 0))
  have hempty : (CipherKey.mk (Vector.replicate 32 0)).encrypt (NonceSupply.nonce 0) [] =
      .ok emptyEnvelope :=
    (encrypt_of_le _ _ (by decide)).trans (congrArg Except.ok (by decide +kernel))
  refine ⟨?_, ?_, hshort _ (by decide), hnoTag _ (by decide) (by decide), hempty, ?_⟩
  · obtain ⟨envelope, hseal, hparts, hopen⟩ := hsealed (NonceSupply.nonce 7) [123, 125] (by decide)
    exact ⟨envelope, hseal, hparts.length_eq, hopen⟩
  · obtain ⟨envelope, hseal, hparts, hopen⟩ := hsealed (NonceSupply.nonce 7) [] (by decide)
    exact ⟨envelope, hseal, hparts.length_eq, hopen⟩
  · obtain ⟨envelope, hseal, -, hopen⟩ := hzeros (NonceSupply.nonce 0) [] (by decide)
    rw [hempty] at hseal
    cases hseal
    exact hopen

end CipherKey
end TypedConfig
