import DocQuery.Binary64.Rounding

/-!
# Scaling doubles by powers of ten

Products and quotients of finite doubles, without their signs: the exact result, rounded once. The
powers of ten are those of a table, which ends with the last one that is a finite double; a larger
power is divided by in several steps, each of which rounds.
-/

set_option autoImplicit false

namespace DocQuery.Binary64

/-- The product of the magnitudes of two finite doubles. -/
def mul (a b : Binary64) : Binary64 :=
  ofRatio (a.significand * b.significand * Nat.pow 2 (a.scale + b.scale).toNat)
    (Nat.pow 2 (-(a.scale + b.scale)).toNat)

/-- The quotient of the magnitudes of two finite doubles, of which the second is not zero. -/
def div (a b : Binary64) : Binary64 :=
  ofRatio (a.significand * Nat.pow 2 (a.scale - b.scale).toNat)
    (b.significand * Nat.pow 2 (-(a.scale - b.scale)).toNat)

/-- The exponent of the largest power of ten in the table. -/
def tableEnd : Nat := 308

/-- The double nearest to a power of ten. -/
def powTen (k : Nat) : Binary64 := ofRatio (Nat.pow 10 k) 1

/-- A double that is not negative, scaled by a power of ten, unless that is too large for a finite
double. Below the table it is divided step by step, until it is zero or the rest of the power is in
the table. -/
def scale10? (d : Binary64) (e : Int) : Option Binary64 :=
  if e.natAbs ≤ tableEnd then
    if 0 ≤ e then
      let scaled := d.mul (powTen e.natAbs)
      if scaled.isFinite then some scaled else none
    else some (d.div (powTen e.natAbs))
  else if d.significand = 0 then some d
  else if 0 ≤ e then none
  else scale10? (d.div (powTen tableEnd)) (e + tableEnd)
termination_by e.natAbs
decreasing_by
  simp only [tableEnd] at *
  omega

end DocQuery.Binary64
