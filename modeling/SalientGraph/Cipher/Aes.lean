import SalientGraph.Bytes

/-!
# The block cipher AES-256

The forward direction only, which is all that counter mode needs. A block is 16 bytes,
column by column; a key of 32 bytes is expanded to 15 round keys.
-/

namespace SalientGraph
namespace Aes

abbrev Block := Vector UInt8 16

/-- Doubling in the field of 256 elements. -/
def double (x : UInt8) : UInt8 :=
  -- the eighth power of the variable is `0x1B`
  if x < 0x80 then x <<< 1 else (x <<< 1) ^^^ 0x1B

/-- Multiplication in the field of 256 elements. -/
def multiply (x y : UInt8) : UInt8 :=
  ((List.range 8).foldl (fun (sum, power) i =>
    (if (y >>> UInt8.ofNat i) &&& 1 = 1 then sum ^^^ power else sum, double power)) (0, x)).1

/-- The inverse in the field of 256 elements, which is the 254th power; 0 goes to 0. -/
def inverse (x : UInt8) : UInt8 :=
  (List.range 253).foldl (fun power _ => multiply power x) x

def rotateLeft (x : UInt8) (n : UInt8) : UInt8 :=
  (x <<< n) ||| (x >>> (8 - n))

/-- The substitution of one byte: its inverse under a fixed affine map. -/
def substitution (x : UInt8) : UInt8 :=
  let y := inverse x
  y ^^^ rotateLeft y 1 ^^^ rotateLeft y 2 ^^^ rotateLeft y 3 ^^^ rotateLeft y 4 ^^^ 0x63

/-- The substitution of every byte. -/
def substitutionTable : Vector UInt8 256 :=
  Vector.ofFn fun i => substitution (UInt8.ofNat i)

def substitute (x : UInt8) : UInt8 :=
  substitutionTable.toArray.getD x.toNat 0

/-- The next word of an expanded key whose words are given from the last one backwards; `i` is its
place. -/
def nextWord (backwards : List Bytes) (i : Nat) : Bytes :=
  let last := backwards.getD 0 []
  let mixed :=
    if i % 8 = 0 then
      let turned := (last.drop 1 ++ last.take 1).map substitute
      -- every eighth word is set apart by a power of two
      Bytes.xor turned [(1 : UInt8) <<< UInt8.ofNat (i / 8 - 1), 0, 0, 0]
    else if i % 8 = 4 then last.map substitute
    else last
  Bytes.xor (backwards.getD 7 []) mixed

/-- The 15 round keys of a key. -/
def roundKeys (key : Bytes) : List Block :=
  let words := ((List.range' 8 52).foldl (fun ws i => nextWord ws i :: ws)
    (Bytes.chunks 4 key).reverse).reverse
  let bytes := words.flatten.toArray
  (List.range 15).map fun r => Vector.ofFn fun i => bytes.getD (16 * r + i) 0

def addRoundKey (block key : Block) : Block :=
  Vector.zipWith (· ^^^ ·) block key

def substituteBytes (block : Block) : Block :=
  block.map substitute

/-- Turns row `r` of the block by `r` columns. -/
def shiftRows (block : Block) : Block :=
  Vector.ofFn fun i => block.get ⟨(i.val + 4 * (i.val % 4)) % 16, Nat.mod_lt _ (by decide)⟩

/-- Multiplies each column by a fixed matrix. -/
def mixColumns (block : Block) : Block :=
  Vector.ofFn fun i =>
    let column := i.val / 4 * 4
    let entry (k : Nat) : UInt8 := block.toArray.getD (column + (i.val + k) % 4) 0
    double (entry 0) ^^^ (double (entry 1) ^^^ entry 1) ^^^ entry 2 ^^^ entry 3

/-- The rounds behind the first round key. The last one does not mix columns. -/
def rounds (block : Block) : List Block → Block
  | [] => block
  | [key] => addRoundKey (shiftRows (substituteBytes block)) key
  | key :: keys => rounds (addRoundKey (mixColumns (shiftRows (substituteBytes block))) key) keys

/-- The block cipher under an expanded key. -/
def encryptBlock (keys : List Block) (block : Block) : Block :=
  match keys with
  | [] => block
  | key :: rest => rounds (addRoundKey block key) rest

end Aes
end SalientGraph
