import DocQuery.Binary64.Layout
import DocQuery.Binary64.Rounding

/-!
# JSON numbers

A number of a document is an integer that fits in 64 bits, with or without a sign, or a finite
double.
-/

set_option autoImplicit false

namespace DocQuery.Json

/-- The integer fits in 64 bits, with or without a sign. -/
def FitsWord (n : Int) : Prop := Int64.minValue.toInt ≤ n ∧ n < UInt64.size

instance (n : Int) : Decidable (FitsWord n) := by
  unfold FitsWord
  infer_instance

/-- A number of a document. -/
inductive Number where
  | integer (n : Int) (fits : FitsWord n)
  | double (d : Binary64) (finite : d.isFinite = true)
  deriving DecidableEq

namespace Number

theorem fitsWord_toInt (n : Int64) : FitsWord n.toInt := by
  have hlow := n.le_toInt
  have hhigh := n.toInt_lt
  have hsize : UInt64.size = 18446744073709551616 := rfl
  exact ⟨hlow, by omega⟩

/-- A 64-bit integer with a sign. -/
def ofInt64 (n : Int64) : Number := integer n.toInt (fitsWord_toInt n)

/-- The text of a number. -/
def write : Number → List Char
  | integer n _ => Text.integer n
  | double d _ => d.write .wire

end Number

end DocQuery.Json
