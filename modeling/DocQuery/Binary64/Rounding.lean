import DocQuery.Binary64.Basic

/-!
# Rounding to the nearest double

The double nearest to a positive ratio of naturals, ties going to the even significand, in exact
arithmetic. Integers and the results of multiplication and division are rounded through it.
-/

set_option autoImplicit false

namespace DocQuery.Binary64

/-- The ratio is at least two to the exponent. -/
def atLeastPow (num den : Nat) (exponent : Int) : Bool :=
  decide (den * Nat.pow 2 exponent.toNat ≤ num * Nat.pow 2 (-exponent).toNat)

/-- The integer part of the binary logarithm of a positive ratio. The difference of the two
logarithms is that number or one more. -/
def floorLog2 (num den : Nat) : Int :=
  let guess : Int := (num.log2 : Int) - (den.log2 : Int)
  if atLeastPow num den guess then guess else guess - 1

/-- The natural nearest to a ratio; a half goes to the even neighbour. -/
def roundHalfEven (num den : Nat) : Nat :=
  let quotient := num / den
  let remainder := num % den
  if 2 * remainder < den ∨ (2 * remainder = den ∧ quotient % 2 = 0) then quotient
  else quotient + 1

/-- The lower 63 bits of the double nearest to a positive ratio; a ratio too large for a finite
double gives a magnitude that is not finite. A significand that rounds up to `2 ^ 53` carries into
the exponent by itself. -/
def nearestMagnitude (num den : Nat) : Nat :=
  let exponent := max (floorLog2 num den - 52) (-1074)
  let rounded :=
    roundHalfEven (num * Nat.pow 2 (-exponent).toNat) (den * Nat.pow 2 exponent.toNat)
  rounded + (exponent + 1074).toNat * fractionCount

/-- The double nearest to a ratio that is not negative; infinity, if the ratio is too large for a
finite double. -/
def ofRatio (num den : Nat) : Binary64 :=
  if num = 0 then zero false
  else ofMagnitude false (min (nearestMagnitude num den) infinityMagnitude)

/-- The double nearest to an integer; one too large for a finite double has a magnitude that is not
finite. -/
def ofInt (n : Int) : Binary64 :=
  if n = 0 then zero false else ofMagnitude (decide (n < 0)) (nearestMagnitude n.natAbs 1)

/-! ## Finite magnitudes -/

theorem isFinite_ofMagnitude (negative : Bool) {magnitude : Nat}
    (h : magnitude < infinityMagnitude) : (ofMagnitude negative magnitude).isFinite = true := by
  unfold infinityMagnitude fractionCount at h
  cases negative with
  | true =>
      simp only [isFinite, exponentField, ofMagnitude, fractionCount,
        exponentCount, signWeight, if_true, UInt64.toNat_ofNat', decide_eq_true_eq]
      omega
  | false =>
      simp only [isFinite, exponentField, ofMagnitude, fractionCount,
        exponentCount, Bool.false_eq_true, if_false,
        UInt64.toNat_ofNat', decide_eq_true_eq]
      omega

theorem isFinite_zero (negative : Bool) : (zero negative).isFinite = true :=
  isFinite_ofMagnitude negative (by unfold infinityMagnitude fractionCount; omega)

end DocQuery.Binary64
