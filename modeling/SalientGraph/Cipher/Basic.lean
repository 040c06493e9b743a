import SalientGraph.Fault
import SalientGraph.Node
import SalientGraph.Tenant

/-!
# Ciphers

What seals the payloads of one tenant against another. A cipher is given the random
nonce of each sealing, so that it is itself a function.
-/

namespace SalientGraph

/-- A cipher with a key for every tenant. -/
structure Cipher where
  encrypt (nonce : Bytes) (tenant : Tenant) (plain : Bytes) : Except Fault Bytes
  decrypt (tenant : Tenant) (sealed : Bytes) : Except Fault Bytes

namespace Cipher

/-- Leaves everything as it is, for stores that are encrypted below. -/
def plain : Cipher where
  encrypt _ _ bytes := .ok bytes
  decrypt _ bytes := .ok bytes

/-- Whatever is sealed for a tenant opens for the same tenant. -/
def Opens (c : Cipher) : Prop :=
  ∀ nonce tenant bytes sealed, c.encrypt nonce tenant bytes = .ok sealed →
    c.decrypt tenant sealed = .ok bytes

/-- Nothing is sealed to no bytes at all. -/
def NeverEmpty (c : Cipher) : Prop :=
  ∀ nonce tenant bytes sealed, c.encrypt nonce tenant bytes = .ok sealed → sealed ≠ []

theorem opens_plain : plain.Opens := by
  intro nonce tenant bytes sealed h
  cases h
  rfl

end Cipher
end SalientGraph
