import SalientGraph.Cipher.Aes

/-!
# Galois counter mode

Authenticated encryption with a block cipher. The text is XORed with the keystream of
a counter that starts behind the nonce, and a tag over the result is a polynomial in a
field of `2 ^ 128` elements, masked by the first counter block. There is no additional
data. Opening checks the tag before anything is read.
-/

namespace SalientGraph
namespace Gcm

/-- A block cipher under some key. -/
abbrev BlockCipher := Aes.Block → Aes.Block

def tagSize : Nat := 16

/-- The block that spells a number, the highest byte first. -/
def block (n : Nat) : Aes.Block :=
  Vector.ofFn fun i => UInt8.ofNat (n >>> (8 * (15 - i.val)))

/-- The counter block `i` of a nonce. -/
def counterBlock (nonce : Bytes) (i : Nat) : Aes.Block :=
  block (Bytes.toNat nonce * 0x100000000 + i % 0x100000000)

/-- The first `n` bytes of the keystream of a nonce. -/
def keystream (cipher : BlockCipher) (nonce : Bytes) (n : Nat) : Bytes :=
  ((List.range ((n + 15) / 16)).flatMap fun i =>
    (cipher (counterBlock nonce (i + 2))).toList).take n

/-- The text XORed with the keystream; doing so twice gives the text back. -/
def mask (cipher : BlockCipher) (nonce text : Bytes) : Bytes :=
  Bytes.xor text (keystream cipher nonce text.length)

/-- One step of a product in the field of `2 ^ 128` elements, whose polynomials have their lowest
coefficient in the highest bit: adds `power` for the coefficient `i` of `x`, then multiplies `power`
by the variable. -/
def productStep (x : Nat) (acc : Nat × Nat) (i : Nat) : Nat × Nat :=
  let (sum, power) := acc
  -- the power 128 of the variable is `0xE1` in the highest bits
  ( if x.testBit (127 - i) then sum ^^^ power else sum,
    if power % 2 = 1 then (power / 2) ^^^ (0xE1 <<< 120) else power / 2 )

/-- The product in the field of `2 ^ 128` elements. -/
def product (x y : Nat) : Nat :=
  ((List.range 128).foldl (productStep x) (0, y)).1

/-- A chunk of the text as a field element, filled up with zeros. -/
def element (chunk : Bytes) : Nat :=
  Bytes.toNat chunk <<< (8 * (16 - chunk.length))

/-- The polynomial whose coefficients are the chunks of a text and its length, at `h`. -/
def digest (h : Nat) (text : Bytes) : Nat :=
  let chunks := if text.isEmpty then [] else Bytes.chunks 16 text
  let sum := chunks.foldl (fun acc chunk => product (acc ^^^ element chunk) h) 0
  product (sum ^^^ (text.length * 8)) h

/-- The tag of a masked text. -/
def tag (cipher : BlockCipher) (nonce masked : Bytes) : Bytes :=
  let h := Bytes.toNat (cipher (block 0)).toList
  let first := Bytes.toNat (cipher (counterBlock nonce 1)).toList
  Bytes.ofNat tagSize (digest h masked ^^^ first)

/-- The masked text followed by its tag. -/
def encrypt (cipher : BlockCipher) (nonce text : Bytes) : Bytes :=
  let masked := mask cipher nonce text
  masked ++ tag cipher nonce masked

/-- The text behind a masked text and its tag, if the tag is right. -/
def decrypt? (cipher : BlockCipher) (nonce body : Bytes) : Option Bytes :=
  let masked := body.take (body.length - tagSize)
  -- the tag is compared before anything is unmasked
  if body.drop (body.length - tagSize) = tag cipher nonce masked then
    some (mask cipher nonce masked)
  else none

end Gcm
end SalientGraph
