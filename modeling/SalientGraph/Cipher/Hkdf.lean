import SalientGraph.Cipher.Sha256

/-!
# Derived keys

A key for one purpose is derived from a master key in two steps, each of which is a
keyed digest: the master key is extracted to a pseudorandom key, which is then
expanded under a text that names the purpose.
-/

namespace SalientGraph
namespace Hkdf

/-- The keyed digest of a message. A key longer than a block is replaced by its digest. -/
def hmac (key message : Bytes) : Bytes :=
  let short := if 64 < key.length then Sha256.hash key else key
  let block := short ++ List.replicate (64 - short.length) 0
  let inner := Sha256.hash (block.map (· ^^^ 0x36) ++ message)
  Sha256.hash (block.map (· ^^^ 0x5C) ++ inner)

/-- The pseudorandom key of a master key, extracted without a salt. -/
def extract (master : Bytes) : Bytes :=
  hmac (List.replicate 32 0) master

/-- 32 bytes for the purpose that `info` names. -/
def expand (pseudorandom info : Bytes) : Bytes :=
  -- the first block of an expansion is all that is needed
  hmac pseudorandom (info ++ [1])

/-- The key that `info` names, derived from a master key. -/
def derive (master info : Bytes) : Bytes :=
  expand (extract master) info

end Hkdf
end SalientGraph
