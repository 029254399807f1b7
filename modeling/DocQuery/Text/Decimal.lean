/-!
# Decimal numerals

The decimal numeral of a natural number, and the number that a list of digits denotes. Main
statement: a number's numeral denotes it (`value_digits`).
-/

set_option autoImplicit false

namespace DocQuery.Text

/-- The character of a digit below ten. -/
def digit (d : Nat) : Char := Char.ofNat (48 + d)

/-- The number that a digit character stands for. -/
def digitValue (c : Char) : Nat := c.toNat - 48

/-- The decimal digits of a number, without leading zeros. -/
def digits (n : Nat) : List Char :=
  if n < 10 then [digit n] else digits (n / 10) ++ [digit (n % 10)]

/-- The number that a list of digits denotes. -/
def value (ds : List Char) : Nat :=
  ds.foldl (fun acc c => 10 * acc + digitValue c) 0

/-- The digits of a number, filled up with leading zeros to a width. -/
def padded (width n : Nat) : List Char :=
  List.replicate (width - (digits n).length) '0' ++ digits n

/-- The numeral of an integer, with a minus sign when it is negative. -/
def integer (n : Int) : List Char :=
  if n < 0 then '-' :: digits n.natAbs else digits n.natAbs

theorem digitValue_digit {d : Nat} (h : d < 10) : digitValue (digit d) = d := by
  have : ∀ d : Fin 10, digitValue (digit d.val) = d.val := by decide
  exact this ⟨d, h⟩

theorem isDigit_digit {d : Nat} (h : d < 10) : (digit d).isDigit = true := by
  have : ∀ d : Fin 10, (digit d.val).isDigit = true := by decide
  exact this ⟨d, h⟩

theorem value_append_digit (ds : List Char) (c : Char) :
    value (ds ++ [c]) = 10 * value ds + digitValue c := by
  simp [value]

/-- A number's numeral denotes it. -/
theorem value_digits (n : Nat) : value (digits n) = n := by
  induction n using digits.induct with
  | case1 n h =>
      rw [digits, if_pos h]
      simp [value, digitValue_digit h]
  | case2 n h ih =>
      rw [digits, if_neg h, value_append_digit, ih, digitValue_digit (Nat.mod_lt _ (by omega))]
      omega

/-- A numeral holds digits only. -/
theorem isDigit_of_mem_digits {n : Nat} {c : Char} (hc : c ∈ digits n) : c.isDigit = true := by
  induction n using digits.induct with
  | case1 n h =>
      rw [digits, if_pos h, List.mem_singleton] at hc
      exact hc ▸ isDigit_digit h
  | case2 n h ih =>
      rw [digits, if_neg h, List.mem_append, List.mem_singleton] at hc
      cases hc with
      | inl hmem => exact ih hmem
      | inr hlast => exact hlast ▸ isDigit_digit (Nat.mod_lt _ (by omega))

theorem digits_ne_nil (n : Nat) : digits n ≠ [] := by
  rw [digits]
  split <;> simp

end DocQuery.Text
