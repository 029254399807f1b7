import DocQuery.Binary64.Shortest
import DocQuery.Text.Decimal

/-!
# The text of a double

The shortest digits of a double, written positionally while the leading digit stands for `10 ^ e`
with `e` between a least exponent and 15, and with an exponent otherwise. A positional text always
has a point; an integer ends in `.0`. A layout fixes what the two forms in use do not share.
-/

set_option autoImplicit false

namespace DocQuery.Binary64

/-- What differs between the written forms of a double. -/
structure Layout where
  /-- Which of two equally near shortest decimals is written. -/
  tie : TieRule
  /-- The least exponent of the leading digit that is written positionally. -/
  leastPositional : Int
  /-- A positive exponent has a plus sign. -/
  signedExponent : Bool

/-- The layout of documents: positional from `0.00001` on. -/
def Layout.wire : Layout := ⟨.toEven, -5, true⟩

/-- The layout of inspected values: positional from `0.0001` on. -/
def Layout.inspect : Layout := ⟨.up, -4, false⟩

/-- The exponent of ten of the leading digit. -/
def leadingExponent (x : Decimal) : Int :=
  x.exponent + ((Text.digits x.coefficient).length : Int) - 1

/-- A decimal with a point among its digits. -/
def writePositional (x : Decimal) : List Char :=
  let ds := Text.digits x.coefficient
  let e := leadingExponent x
  if 0 ≤ x.exponent then ds ++ List.replicate x.exponent.toNat '0' ++ ['.', '0']
  else if 0 ≤ e then ds.take (e + 1).toNat ++ '.' :: ds.drop (e + 1).toNat
  else '0' :: '.' :: List.replicate (-e - 1).toNat '0' ++ ds

/-- A decimal with one digit before the point and an exponent. -/
def writeExponential (layout : Layout) (x : Decimal) : List Char :=
  let ds := Text.digits x.coefficient
  let e := leadingExponent x
  let sign := if e < 0 then ['-'] else if layout.signedExponent then ['+'] else []
  let point := if ds.length ≤ 1 then [] else ['.']
  ds.take 1 ++ point ++ ds.drop 1 ++ 'e' :: sign ++ Text.digits e.natAbs

/-- The text of a decimal. -/
def writeDecimal (layout : Layout) (x : Decimal) : List Char :=
  if layout.leastPositional ≤ leadingExponent x ∧ leadingExponent x ≤ 15 then writePositional x
  else writeExponential layout x

/-- The text of a magnitude. -/
def writeMagnitude (layout : Layout) (d : Binary64) : List Char :=
  if d.significand = 0 then ['0', '.', '0'] else writeDecimal layout (d.shortest layout.tie)

/-- The text of a double. -/
def write (layout : Layout) (d : Binary64) : List Char :=
  if d.isNaN then ['N', 'a', 'N']
  else
    let magnitude := if d.isFinite then d.writeMagnitude layout else ['i', 'n', 'f']
    if d.isNegative then '-' :: magnitude else magnitude

/-- The text of a double, as a string. -/
def text (layout : Layout) (d : Binary64) : String := String.ofList (d.write layout)

end DocQuery.Binary64
