/-
# Sealed envelopes

A sealed envelope is a nonce of 12 bytes, the text encrypted in counter mode, and
a tag of 16 bytes over the encrypted text: AES-256 in Galois counter mode without
further data. Opening recomputes the tag and refuses the envelope if it differs,
so only what was sealed under the key opens.

Key definitions: `CipherKey`, `Nonce`, `Envelope.crypt`, `Envelope.tag`,
`CipherKey.encrypt`, `CipherKey.decrypt`, `EnvelopeError`.
-/
import TypedConfig.Cipher.Aes
import TypedConfig.Cipher.Digest

namespace TypedConfig

/-- A key of 256 bits. -/
structure CipherKey where
  bytes : Vector UInt8 32
deriving DecidableEq

/-- The number that an envelope starts with, to be used once under a key. -/
structure Nonce where
  bytes : Vector UInt8 12
deriving DecidableEq

/-- Why an envelope is not made or not opened. -/
inductive EnvelopeError where
  /-- The envelope is shorter than a nonce. -/
  | tooShort (available : Nat)
  /-- The text is longer than counter mode allows. -/
  | tooLong
  /-- The tag is missing or is not that of the text. -/
  | wrongTag
deriving DecidableEq

namespace Envelope

/-- Bytes of a nonce. -/
def nonceSize : Nat := 12

/-- Bytes of a tag. -/
def tagSize : Nat := 16

/-- The most bytes that can be encrypted under one nonce. -/
def maxLength : Nat := Nat.pow 2 36

/-- How many numbers the counter in a block runs through: it has 32 bits. -/
def counterSize : Nat := Nat.pow 2 32

/-- The counter block with the counter, its low 32 bits, counted up. -/
def increment (b : Block) : Block :=
  let counter := b.toNat % counterSize
  BitVec.ofNat 128 (b.toNat - counter + (counter + 1) % counterSize)

/-- The counter block of a nonce, from which the tag is masked. -/
def firstCounter (nonce : List UInt8) : Block := Block.ofBytes (nonce ++ [0, 0, 0, 1])

/-- Adds two lists of bytes, place by place, as far as the first reaches. -/
def addBytes : List UInt8 → List UInt8 → List UInt8
  | [], _ => []
  | a :: as, [] => a :: as
  | a :: as, b :: bs => (a ^^^ b) :: addBytes as bs

/-- The bytes of `blocks` encrypted counter blocks from `counter` on. -/
def keystream (cipher : Block → Block) : Nat → Block → List UInt8
  | 0, _ => []
  | blocks + 1, counter => (cipher counter).toBytes ++ keystream cipher blocks (increment counter)

/-- Encrypts or decrypts a text: adds the keystream that starts one past the first counter. -/
def crypt (cipher : Block → Block) (nonce text : List UInt8) : List UInt8 :=
  addBytes text (keystream cipher ((text.length + 15) / 16) (increment (firstCounter nonce)))

/-- The blocks of a text, the last one filled up with zeros. -/
def blocks : Nat → List UInt8 → List Block
  | 0, _ => []
  | count + 1, bytes => Block.ofBytes (bytes.take 16) :: blocks count (bytes.drop 16)

/-- The hash of a list of blocks under a hash key. -/
def hashBlocks (hashKey : Block) (bs : List Block) : Block :=
  bs.foldl (fun sum b => mulBlock (sum ^^^ b) hashKey) 0

/-- The tag of an encrypted text. -/
def tag (cipher : Block → Block) (nonce encrypted : List UInt8) : List UInt8 :=
  let lengths : Block := BitVec.ofNat 128 (8 * encrypted.length)
  let hash := hashBlocks (cipher 0) (blocks ((encrypted.length + 15) / 16) encrypted ++ [lengths])
  (hash ^^^ cipher (firstCounter nonce)).toBytes

end Envelope

/-- The wording of an envelope error. -/
def EnvelopeError.message : EnvelopeError → String
  | .tooShort available =>
    "insufficient data: need at least " ++ toString Envelope.nonceSize ++ " bytes, got "
      ++ toString available
  | .tooLong => "encryption failed: aead::Error"
  | .wrongTag => "decryption failed: aead::Error"

namespace CipherKey

/-- The key of a passphrase: the digest of its UTF-8 bytes. -/
def ofPassphrase (passphrase : String) : CipherKey := ⟨sha256 passphrase.toUTF8.data.toList⟩

/-- A key in debugging text, which does not show it. -/
def debugText (_ : CipherKey) : String := "EncryptionKey(..)"

/-- The block cipher under a key. -/
def cipher (key : CipherKey) : Block → Block := Aes.encryptBlock key.bytes

/-- Seals a text under a nonce. -/
def encrypt (key : CipherKey) (nonce : Nonce) (text : List UInt8) :
    Except EnvelopeError (List UInt8) :=
  if Envelope.maxLength < text.length then .error .tooLong
  else
    let start := nonce.bytes.toList
    let encrypted := Envelope.crypt key.cipher start text
    .ok (start ++ encrypted ++ Envelope.tag key.cipher start encrypted)

/-- Opens an envelope. -/
def decrypt (key : CipherKey) (envelope : List UInt8) : Except EnvelopeError (List UInt8) :=
  if envelope.length < Envelope.nonceSize then .error (.tooShort envelope.length)
  else
    let start := envelope.take Envelope.nonceSize
    let body := envelope.drop Envelope.nonceSize
    let length := body.length - Envelope.tagSize
    if body.length < Envelope.tagSize ∨ Envelope.maxLength < length then .error .wrongTag
    else
      let encrypted := body.take length
      if body.drop length = Envelope.tag key.cipher start encrypted then
        .ok (Envelope.crypt key.cipher start encrypted)
      else .error .wrongTag

end CipherKey

end TypedConfig
