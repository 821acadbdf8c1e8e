/-
# A supply of nonces

Sealing must not use a nonce twice under a key. The supply counts up and gives
each number once, until 96 bits are used up.

Key definitions: `NonceSupply`, `NonceSupply.next`.
-/
import TypedConfig.Cipher.Envelope

namespace TypedConfig

/-- The nonces that were not drawn yet, from a number on. -/
structure NonceSupply where
  drawn : Nat := 0

namespace NonceSupply

/-- The nonce of a number: its last 96 bits, the highest byte first. -/
def nonce (n : Nat) : Nonce :=
  ⟨Vector.ofFn fun i : Fin 12 => UInt8.ofNat (n / Nat.pow 256 (11 - i.val))⟩

/-- Draws the next nonce. -/
def next (s : NonceSupply) : Nonce × NonceSupply := (nonce s.drawn, ⟨s.drawn + 1⟩)

end NonceSupply

end TypedConfig
