/-!
# Bytes

Sequences of bytes, their hexadecimal text, and the bytes of a text.
-/

namespace SalientGraph

abbrev Bytes := List UInt8

namespace Bytes

/-- The bytes of a text. -/
def ofString (s : String) : Bytes :=
  s.toUTF8.data.toList

/-- The text that some bytes encode, if they encode one. -/
def toString? (bs : Bytes) : Option String :=
  String.fromUTF8? bs.toByteArray

/-- The digit for a value below 16, in lower case. -/
def hexDigit (n : Nat) : Char :=
  if n < 10 then Char.ofNat (48 + n) else Char.ofNat (87 + n)

/-- Two hexadecimal digits for every byte. -/
def toHex (bs : Bytes) : String :=
  String.ofList (bs.flatMap fun b => [hexDigit (b.toNat / 16), hexDigit (b.toNat % 16)])

/-- The value of a hexadecimal digit. -/
def hexValue? (c : Char) : Option Nat :=
  if '0' ≤ c ∧ c ≤ '9' then some (c.toNat - 48)
  else if 'a' ≤ c ∧ c ≤ 'f' then some (c.toNat - 87)
  else if 'A' ≤ c ∧ c ≤ 'F' then some (c.toNat - 55)
  else none

/-- The bytes that pairs of hexadecimal digits spell. -/
def ofHexDigits? : List Char → Option Bytes
  | [] => some []
  | [_] => none
  | a :: b :: rest => do
    let high ← hexValue? a
    let low ← hexValue? b
    let more ← ofHexDigits? rest
    some (UInt8.ofNat (high * 16 + low) :: more)

/-- The bytes that a hexadecimal text spells. -/
def ofHex? (s : String) : Option Bytes :=
  ofHexDigits? s.toList

/-- Bytewise exclusive or, as far as both sequences reach. -/
def xor (a b : Bytes) : Bytes :=
  List.zipWith (· ^^^ ·) a b

/-- `n` in `count` bytes, the highest first. -/
def ofNat (count n : Nat) : Bytes :=
  (List.range count).map fun i => UInt8.ofNat (n >>> (8 * (count - 1 - i)))

/-- The number that some bytes spell, the highest first. -/
def toNat (bs : Bytes) : Nat :=
  bs.foldl (fun n b => n * 256 + b.toNat) 0

/-- The sequence cut into pieces of `size` bytes; the last piece may be shorter. -/
def chunks (size : Nat) (bs : Bytes) : List Bytes :=
  if size = 0 ∨ bs.length ≤ size then [bs] else bs.take size :: chunks size (bs.drop size)
termination_by bs.length
decreasing_by
  simp only [List.length_drop]
  omega

/-- A text is read back from its bytes. -/
theorem toString?_ofString (s : String) : toString? (ofString s) = some s := by
  have hbytes : (ofString s).toByteArray = s.toUTF8 := by
    apply ByteArray.ext
    rw [List.data_toByteArray, ofString, Array.toArray_toList]
  rw [toString?, hbytes, String.fromUTF8?, String.toUTF8_eq_toByteArray, dif_pos s.isValidUTF8]
  rfl

/-- Only the bytes of a text are read as that text. -/
theorem eq_ofString_of_toString? {bs : Bytes} {s : String} (h : toString? bs = some s) :
    bs = ofString s := by
  unfold toString? String.fromUTF8? at h
  split at h
  · next valid =>
    rw [Option.some.injEq] at h
    subst h
    exact (List.toList_data_toByteArray (l := bs)).symm
  · contradiction

@[simp] theorem length_ofNat (count n : Nat) : (ofNat count n).length = count := by
  simp [ofNat]

@[simp] theorem length_xor (a b : Bytes) : (xor a b).length = min a.length b.length := by
  simp [xor]

end Bytes
end SalientGraph
