import DocQuery.Binary64.Basic

/-!
# Shortest decimals

The decimal with the fewest digits that reads back as a given double. The reals nearest to a double
form an interval around it; of the grids of multiples of a power of ten, the coarsest with a point
in that interval holds the answer. If two of its points lie in the interval, the nearer is taken.

All lengths are counted in quarters of the last binary place, so that the ends of the interval are
naturals.
-/

set_option autoImplicit false

namespace DocQuery

/-- The number `coefficient · 10 ^ exponent`. -/
structure Decimal where
  /-- The digits, as a number. -/
  coefficient : Nat
  /-- The power of ten that scales them. -/
  exponent : Int
  deriving DecidableEq

/-- Which of two equally near decimals is taken. -/
inductive TieRule where
  | toEven
  | up
  deriving DecidableEq

namespace Binary64

/-- The lower end of the interval that rounds to a double, in quarters of its last place. Below a
power of two the doubles lie twice as dense. -/
def lowerQuarters (d : Binary64) : Nat :=
  if d.fraction = 0 ∧ 1 < d.exponentField then 4 * d.significand - 1 else 4 * d.significand - 2

/-- The upper end of the interval that rounds to a double, in quarters of its last place. -/
def upperQuarters (d : Binary64) : Nat := 4 * d.significand + 2

/-- What one unit of the grid `10 ^ k` is multiplied by to compare it with quarters of the last
place of a double. -/
def gridUnit (d : Binary64) (k : Int) : Nat :=
  Nat.pow 10 k.toNat * Nat.pow 2 (2 - d.scale).toNat

/-- What a quarter of the last place of a double is multiplied by to compare it with units of the
grid `10 ^ k`. -/
def quarterUnit (d : Binary64) (k : Int) : Nat :=
  Nat.pow 10 (-k).toNat * Nat.pow 2 (d.scale - 2).toNat

/-- The multiple `c · 10 ^ k` lies in the interval that rounds to a double, whose ends belong to it
when the significand is even. -/
def admits (d : Binary64) (c : Nat) (k : Int) : Bool :=
  let point := c * d.gridUnit k
  let low := d.lowerQuarters * d.quarterUnit k
  let high := d.upperQuarters * d.quarterUnit k
  if d.significand % 2 = 0 then decide (low ≤ point ∧ point ≤ high)
  else decide (low < point ∧ point < high)

/-- Of the multiples `c` and `c + 1` of `10 ^ k` around a double, the nearer one. -/
def nearer (d : Binary64) (tie : TieRule) (c : Nat) (k : Int) : Nat :=
  let middle := 4 * d.significand * d.quarterUnit k
  let below := middle - c * d.gridUnit k
  let above := (c + 1) * d.gridUnit k - middle
  if below < above then c
  else if above < below then c + 1
  else match tie with
    | .toEven => if c % 2 = 0 then c else c + 1
    | .up => c + 1

/-- The multiple of `10 ^ k` that reads back as a double, if there is one. -/
def gridPoint? (d : Binary64) (tie : TieRule) (k : Int) : Option Decimal :=
  let c := 4 * d.significand * d.quarterUnit k / d.gridUnit k
  match d.admits c k, d.admits (c + 1) k with
  | true, true => some ⟨d.nearer tie c k, k⟩
  | true, false => some ⟨c, k⟩
  | false, true => some ⟨c + 1, k⟩
  | false, false => none

/-- An exponent of ten above which no grid has a point near a double. -/
def topExponent (d : Binary64) : Int :=
  Int.fdiv (((d.significand.log2 : Int) + 1 + d.scale) * 30103) 100000 + 1

/-- A double written exactly: a power of two below one is a power of five on a decimal grid. -/
def exactDecimal (d : Binary64) : Decimal :=
  if 0 ≤ d.scale then ⟨d.significand * Nat.pow 2 d.scale.toNat, 0⟩
  else ⟨d.significand * Nat.pow 5 (-d.scale).toNat, d.scale⟩

/-- The magnitude of a finite double other than zero, with the fewest digits that read back as it.
Seventeen digits always do, so one of the grids tried has a point. -/
def shortest (d : Binary64) (tie : TieRule) : Decimal :=
  ((List.range 24).findSome? (fun (i : Nat) =>
    d.gridPoint? tie (d.topExponent - (i : Int)))).getD d.exactDecimal

end Binary64

end DocQuery
