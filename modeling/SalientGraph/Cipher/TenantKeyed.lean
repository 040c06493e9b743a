import SalientGraph.Cipher.Basic
import SalientGraph.Cipher.Gcm
import SalientGraph.Cipher.Hkdf

/-!
# Tenant-keyed encryption

Authenticated encryption of payloads under a key per tenant, all of them derived from
one master key. Sealed bytes are the nonce of 12 bytes, the masked text and the tag of
16 bytes.
-/

namespace SalientGraph
namespace TenantKeyed

def nonceSize : Nat := 12

/-- The purpose under which the key of a tenant is derived. -/
def purpose (tenant : Tenant) : Bytes :=
  Bytes.ofString ("kgraph:tenant:" ++ tenant.name)

/-- The block cipher of a tenant. -/
def blockCipher (master : Bytes) (tenant : Tenant) : Gcm.BlockCipher :=
  Aes.encryptBlock (Aes.roundKeys (Hkdf.derive master (purpose tenant)))

/-- The sealed bytes of a text: the nonce, the masked text and the tag. -/
def sealBytes (master nonce : Bytes) (tenant : Tenant) (plain : Bytes) : Bytes :=
  nonce ++ Gcm.encrypt (blockCipher master tenant) nonce plain

/-- The text behind sealed bytes. -/
def openBytes (master : Bytes) (tenant : Tenant) (sealed : Bytes) : Except Fault Bytes :=
  if sealed.length < nonceSize + Gcm.tagSize then .error (.crypto "ciphertext too short")
  else
    match Gcm.decrypt? (blockCipher master tenant) (sealed.take nonceSize)
        (sealed.drop nonceSize) with
    | some plain => .ok plain
    | none => .error (.crypto "decryption failed (wrong tenant key or corrupted data)")

/-- The cipher under a master key. -/
def cipher (master : Bytes) : Cipher where
  encrypt nonce tenant plain := .ok (sealBytes master nonce tenant plain)
  decrypt tenant sealed := openBytes master tenant sealed

/-- What may be shown of a cipher: that there is a key, but not which. -/
def redacted : String :=
  "AesGcmCipher \x7b master_key: \"[REDACTED]\" \x7d"

end TenantKeyed
end SalientGraph
