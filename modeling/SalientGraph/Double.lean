/-!
# Stored numbers

Doubles and singles as a store keeps them, by their bits. A calculation knows one
value that is no number. Stored ones differ in their sign and in further bits, and
the total order gives each of them a place of its own: below all numbers with a
minus sign and above them without.
-/

namespace SalientGraph

/-- A double by its bits. -/
structure Double where
  bits : UInt64
deriving DecidableEq, Inhabited

/-- A single-precision number by its bits. -/
structure Single where
  bits : UInt32
deriving DecidableEq, Inhabited

namespace Double

def ofFloat (x : Float) : Double :=
  ⟨x.toBits⟩

/-- The double to calculate with. -/
def toFloat (d : Double) : Float :=
  Float.ofBits d.bits

def isNaN (d : Double) : Bool :=
  d.toFloat.isNaN

/-- What comes of a calculation without a value, such as the difference of two infinities. -/
def undefined : Double :=
  ⟨0xFFF8000000000000⟩

/-- The place of a double in the total order. -/
def place (d : Double) : Int :=
  let bits : Nat := d.bits.toNat
  if bits < 0x8000000000000000 then bits else (0x8000000000000000 : Int) - bits - 1

/-- The nearest single-precision number. What is no number keeps its sign and its upper bits. -/
def toSingle (d : Double) : Single :=
  if d.isNaN then
    let sign : UInt32 := (d.bits >>> 32).toUInt32 &&& 0x80000000
    let payload : UInt32 := (d.bits >>> 29).toUInt32 &&& 0x3FFFFF
    ⟨sign ||| 0x7FC00000 ||| payload⟩
  else ⟨d.toFloat.toFloat32.toBits⟩

/-- Doubles with one place have the same bits. -/
theorem place_inj {a b : Double} : a.place = b.place ↔ a = b := by
  constructor
  · intro h
    obtain ⟨a⟩ := a
    obtain ⟨b⟩ := b
    have hbits : a.toNat = b.toNat := by
      simp only [place] at h
      split at h <;> split at h <;> omega
    rw [UInt64.toNat_inj.mp hbits]
  · rintro rfl
    rfl

end Double

namespace Single

def ofFloat32 (x : Float32) : Single :=
  ⟨x.toBits⟩

/-- The single-precision number to calculate with. -/
def toFloat32 (s : Single) : Float32 :=
  Float32.ofBits s.bits

/-- The same number as a double. What is no number keeps its sign and its bits. -/
def toDouble (s : Single) : Double :=
  if s.toFloat32.isNaN then
    let sign : UInt64 := (s.bits &&& 0x80000000).toUInt64 <<< 32
    let payload : UInt64 := (s.bits &&& 0x3FFFFF).toUInt64 <<< 29
    ⟨sign ||| 0x7FF8000000000000 ||| payload⟩
  else Double.ofFloat s.toFloat32.toFloat

end Single
end SalientGraph
