/-!
# Extents of an index space

An index space is a box of work-items: an extent along each of three axes. Extents, and the number
of points of a box, are 32-bit counts: a product that does not fit has no value.

* `Dim3.size` is the number of points, and is undefined as soon as a partial product overflows;
* `Dim3.ofFlat` lays the points of a box out in one row, `x` fastest, and reads a position back.
-/

namespace Accelerator

/-- Item counts are kept in 32 bits: every count is below this bound. -/
def countBound : Nat := 4294967296

/-- Cycles, addresses and indices are kept in 64 bits: each is below this bound. -/
def wordBound : Nat := 18446744073709551616

/-- The product of two item counts, when it is one. -/
def countMul? (a b : Nat) : Option Nat :=
  if a * b < countBound then some (a * b) else none

/-- The smallest number of parts of size `part` that hold `total`. -/
def ceilDiv (total part : Nat) : Nat :=
  (total + part - 1) / part

/-- An extent, or a position, along each axis. -/
structure Dim3 where
  x : Nat
  y : Nat
  z : Nat
deriving DecidableEq, Inhabited

namespace Dim3

/-- A box that extends along the first axis alone. -/
def ofX (x : Nat) : Dim3 := ⟨x, 1, 1⟩

/-- The exact number of points of a box, whether or not it is a 32-bit count. -/
def volume (d : Dim3) : Nat := d.x * d.y * d.z

/-- The number of points of a box. Both partial products have to be item counts: `65536 × 65536 × 0`
has no size, although its volume is zero. -/
def size (d : Dim3) : Option Nat := do
  countMul? (← countMul? d.x d.y) d.z

/-- The extents in axis order. -/
def toList (d : Dim3) : List Nat := [d.x, d.y, d.z]

/-- The extents as they are shown to people. -/
def text (d : Dim3) : String := s!"({d.x},{d.y},{d.z})"

/-- The point at position `flat` of the row of all points of the box `extent`, `x` fastest. -/
def ofFlat (extent : Dim3) (flat : Nat) : Dim3 where
  x := flat % extent.x
  y := flat / extent.x % extent.y
  z := flat / (extent.x * extent.y)

/-- As `ofFlat`, and undefined where that would divide by a zero extent. The last extent is never a
divisor. -/
def ofFlat? (extent : Dim3) (flat : Nat) : Option Dim3 :=
  if extent.x = 0 ∨ extent.y = 0 then none else some (extent.ofFlat flat)

/-- The quotient along each axis: how many boxes `part` fit side by side into `whole`. -/
def div (whole part : Dim3) : Dim3 :=
  ⟨whole.x / part.x, whole.y / part.y, whole.z / part.z⟩

end Dim3

end Accelerator
