/-
# Opening what was sealed

Counter mode adds the same keystream when it encrypts and when it decrypts, so doing
both is doing nothing, whatever the block cipher is (`Envelope.crypt_crypt`). With the
tag recomputed over the same bytes, an envelope opens to the text that was sealed
(`CipherKey.decrypt_encrypt`). Only a text that is too long for counter mode is not
sealed.

Key theorems: `Envelope.crypt_crypt`, `CipherKey.decrypt_encrypt`.
-/
import Mathlib
import TypedConfig.Cipher.Envelope

namespace TypedConfig
namespace Envelope

theorem addBytes_length : ∀ bytes mask : List UInt8, (addBytes bytes mask).length = bytes.length
  | [], _ => rfl
  | _ :: _, [] => rfl
  | a :: as, b :: bs => by simp [addBytes, addBytes_length as bs]

/-- Adding the same bytes twice is doing nothing. -/
theorem addBytes_addBytes : ∀ bytes mask : List UInt8, addBytes (addBytes bytes mask) mask = bytes
  | [], _ => rfl
  | _ :: _, [] => rfl
  | a :: as, b :: bs => by
    have hab : a ^^^ b ^^^ b = a := by rw [UInt8.xor_assoc, UInt8.xor_self, UInt8.xor_zero]
    simp only [addBytes, hab, addBytes_addBytes as bs]

theorem crypt_length (cipher : Block → Block) (nonce text : List UInt8) :
    (crypt cipher nonce text).length = text.length :=
  addBytes_length _ _

/-- **Decrypting is encrypting again.** -/
theorem crypt_crypt (cipher : Block → Block) (nonce text : List UInt8) :
    crypt cipher nonce (crypt cipher nonce text) = text := by
  have hlen := crypt_length cipher nonce text
  unfold crypt at hlen ⊢
  rw [hlen, addBytes_addBytes]

theorem tag_length (cipher : Block → Block) (nonce encrypted : List UInt8) :
    (tag cipher nonce encrypted).length = tagSize := by
  simp [tag, Block.toBytes, tagSize]

end Envelope

namespace CipherKey

variable (key : CipherKey) (nonce : Nonce)

theorem encrypt_of_le {text : List UInt8} (h : text.length ≤ Envelope.maxLength) :
    key.encrypt nonce text = .ok (nonce.bytes.toList ++
      Envelope.crypt key.cipher nonce.bytes.toList text ++
      Envelope.tag key.cipher nonce.bytes.toList
        (Envelope.crypt key.cipher nonce.bytes.toList text)) := by
  unfold encrypt
  rw [if_neg (not_lt.mpr h)]

theorem encrypt_of_lt {text : List UInt8} (h : Envelope.maxLength < text.length) :
    key.encrypt nonce text = .error .tooLong := by
  unfold encrypt
  rw [if_pos h]

/-- An envelope is longer than the text in it. -/
theorem length_of_encrypt {text envelope : List UInt8} (h : key.encrypt nonce text = .ok envelope) :
    envelope.length = Envelope.nonceSize + text.length + Envelope.tagSize := by
  by_cases hlong : Envelope.maxLength < text.length
  · rw [encrypt_of_lt key nonce hlong] at h
    cases h
  · rw [encrypt_of_le key nonce (not_lt.mp hlong)] at h
    cases h
    rw [List.length_append, List.length_append, Envelope.crypt_length, Envelope.tag_length,
      Vector.length_toList]
    rfl

/-- **What was sealed under a key opens under it.** -/
theorem decrypt_encrypt {text envelope : List UInt8} (h : key.encrypt nonce text = .ok envelope) :
    key.decrypt envelope = .ok text := by
  have hlen := length_of_encrypt key nonce h
  by_cases hlong : Envelope.maxLength < text.length
  · rw [encrypt_of_lt key nonce hlong] at h
    cases h
  rw [encrypt_of_le key nonce (not_lt.mp hlong)] at h
  obtain ⟨start, hstart, hsize⟩ :
      ∃ start, nonce.bytes.toList = start ∧ start.length = Envelope.nonceSize :=
    ⟨_, rfl, Vector.length_toList⟩
  rw [hstart] at h
  set encrypted := Envelope.crypt key.cipher start text with hencrypted
  have hcrypt : encrypted.length = text.length := Envelope.crypt_length _ _ _
  have htag := Envelope.tag_length key.cipher start encrypted
  cases h
  have htake : (start ++ encrypted ++ Envelope.tag key.cipher start encrypted).take
      Envelope.nonceSize = start := by
    rw [List.append_assoc, ← hsize, List.take_left]
  have hdrop : (start ++ encrypted ++ Envelope.tag key.cipher start encrypted).drop
      Envelope.nonceSize = encrypted ++ Envelope.tag key.cipher start encrypted := by
    rw [List.append_assoc, ← hsize, List.drop_left]
  have hbody : (encrypted ++ Envelope.tag key.cipher start encrypted).length - Envelope.tagSize =
      encrypted.length := by
    rw [List.length_append, htag, Nat.add_sub_cancel]
  unfold decrypt
  simp only [htake, hdrop, hbody, List.take_left, List.drop_left]
  rw [if_neg (by omega), if_neg, if_pos trivial, hencrypted, Envelope.crypt_crypt]
  rw [List.length_append, htag]
  omega

end CipherKey
end TypedConfig
