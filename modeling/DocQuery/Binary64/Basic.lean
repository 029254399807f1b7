/-!
# Double-precision numbers

A double is its 64 bits: a sign, eleven exponent bits and 52 fraction bits. Two doubles are equal
when their bits are, so the two zeros differ and a number that is not a number equals itself.

A finite double is `± significand · 2 ^ scale`.
-/

set_option autoImplicit false

namespace DocQuery

/-- A double-precision number, as its bits. -/
structure Binary64 where
  /-- Sign, biased exponent and fraction, from the highest bit down. -/
  bits : UInt64
  deriving DecidableEq

namespace Binary64

/-- The number of fractions: `2 ^ 52`. -/
def fractionCount : Nat := 4503599627370496

/-- The number of exponents: `2 ^ 11`. -/
def exponentCount : Nat := 2048

/-- The weight of the sign bit: `2 ^ 63`. -/
def signWeight : Nat := 9223372036854775808

/-- The exponent bits. -/
def exponentField (d : Binary64) : Nat := d.bits.toNat / fractionCount % exponentCount

/-- The fraction bits. -/
def fraction (d : Binary64) : Nat := d.bits.toNat % fractionCount

/-- The sign bit is set. -/
def isNegative (d : Binary64) : Bool := decide (signWeight ≤ d.bits.toNat)

/-- Neither an infinity nor a number that is not a number. -/
def isFinite (d : Binary64) : Bool := decide (d.exponentField ≠ 2047)

/-- Not a number. -/
def isNaN (d : Binary64) : Bool := decide (d.exponentField = 2047 ∧ d.fraction ≠ 0)

/-- The integer that the bits of a finite double scale by a power of two. -/
def significand (d : Binary64) : Nat :=
  if d.exponentField = 0 then d.fraction else fractionCount + d.fraction

/-- The power of two by which the significand is scaled. -/
def scale (d : Binary64) : Int :=
  ((max d.exponentField 1 : Nat) : Int) - 1075

/-- The bits of positive infinity: the least magnitude that is not finite. -/
def infinityMagnitude : Nat := 2047 * fractionCount

/-- The double with a sign and the other 63 bits. -/
def ofMagnitude (negative : Bool) (magnitude : Nat) : Binary64 :=
  ⟨UInt64.ofNat (if negative then signWeight + magnitude else magnitude)⟩

/-- The lower 63 bits of a double. -/
def magnitude (d : Binary64) : Nat := d.exponentField * fractionCount + d.fraction

/-- The double of the same magnitude with the sign. -/
def withSign (negative : Bool) (d : Binary64) : Binary64 := ofMagnitude negative d.magnitude

/-- Zero with a sign. -/
def zero (negative : Bool) : Binary64 := ofMagnitude negative 0

end Binary64

end DocQuery
