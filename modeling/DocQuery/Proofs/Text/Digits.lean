import DocQuery.Text.Decimal
import Mathlib.Algebra.Ring.Nat
import Mathlib.Data.List.Induction
import Mathlib.Tactic.Ring

/-!
# Lists of digits

The number that digits denote, when digits are put together, and how many digits a number has. A
numeral starts with zero only if it is zero, and the digits of a number filled up to a width denote
the number (`value_padded`). Digits at the front of a text are split off at the first character that
is none (`takeWhile_digits`).
-/

set_option autoImplicit false

namespace DocQuery.Text

/-- All characters are digits. -/
def AllDigits (ds : List Char) : Prop := ∀ c ∈ ds, c.isDigit = true

/-- The text does not go on with a digit. -/
def NoDigitAhead (cs : List Char) : Prop := ∀ c ∈ cs.head?, c.isDigit = false

/-- A number below ten has one digit. -/
theorem digits_of_lt {n : Nat} (h : n < 10) : digits n = [digit n] := by
  rw [digits, if_pos h]

/-- Any other number has a last digit behind the digits of a tenth of it. -/
theorem digits_of_ge {n : Nat} (h : 10 ≤ n) : digits n = digits (n / 10) ++ [digit (n % 10)] := by
  rw [digits, if_neg (Nat.not_lt.2 h)]

theorem allDigits_digits (n : Nat) : AllDigits (digits n) := fun _ hc => isDigit_of_mem_digits hc

theorem AllDigits.append {ds es : List Char} (hds : AllDigits ds) (hes : AllDigits es) :
    AllDigits (ds ++ es) := by
  intro c hc
  rcases List.mem_append.1 hc with h | h
  · exact hds c h
  · exact hes c h

theorem allDigits_zeros (n : Nat) : AllDigits (List.replicate n '0') := by
  intro c hc
  rw [List.eq_of_mem_replicate hc]
  rfl

theorem AllDigits.take {ds : List Char} (h : AllDigits ds) (n : Nat) : AllDigits (ds.take n) :=
  fun c hc => h c (List.mem_of_mem_take hc)

theorem AllDigits.drop {ds : List Char} (h : AllDigits ds) (n : Nat) : AllDigits (ds.drop n) :=
  fun c hc => h c (List.mem_of_mem_drop hc)

theorem toNat_of_isDigit {c : Char} (h : c.isDigit = true) : 48 ≤ c.toNat ∧ c.toNat ≤ 57 := by
  simp only [Char.isDigit, Bool.and_eq_true, decide_eq_true_eq] at h
  exact h

theorem digitValue_lt {c : Char} (h : c.isDigit = true) : digitValue c < 10 := by
  have hrange := toNat_of_isDigit h
  rw [digitValue]
  omega

/-! ## Splitting digits off -/

theorem takeWhile_digits {ds rest : List Char} (hds : AllDigits ds) (hrest : NoDigitAhead rest) :
    (ds ++ rest).takeWhile Char.isDigit = ds := by
  rw [List.takeWhile_append_of_pos hds]
  cases rest with
  | nil => simp
  | cons c rest => rw [List.takeWhile_cons_of_neg (by simp [hrest c rfl]), List.append_nil]

theorem dropWhile_digits {ds rest : List Char} (hds : AllDigits ds) (hrest : NoDigitAhead rest) :
    (ds ++ rest).dropWhile Char.isDigit = rest := by
  rw [List.dropWhile_append_of_pos hds]
  cases rest with
  | nil => rfl
  | cons c rest => rw [List.dropWhile_cons_of_neg (by simp [hrest c rfl])]

/-! ## The number that digits denote -/

theorem value_append (ds es : List Char) :
    value (ds ++ es) = value ds * 10 ^ es.length + value es := by
  induction es using List.reverseRecOn with
  | nil => simp [value]
  | append_singleton es c ih =>
      rw [← List.append_assoc, value_append_digit, value_append_digit, ih, List.length_append,
        List.length_singleton, pow_succ]
      ring

theorem value_zeros (n : Nat) : value (List.replicate n '0') = 0 := by
  induction n with
  | zero => rfl
  | succ n ih =>
      rw [List.replicate_succ', value_append_digit, ih]
      rfl

/-- Digits denote a number that has no more digits than they are. -/
theorem value_lt_pow_length {ds : List Char} (h : AllDigits ds) : value ds < 10 ^ ds.length := by
  induction ds using List.reverseRecOn with
  | nil => exact Nat.one_pos
  | append_singleton ds c ih =>
      have hlast := digitValue_lt (h c (by simp))
      have hinit := ih fun d hd => h d (List.mem_append_left _ hd)
      -- the last digit is less than one unit of the digits in front of it
      rw [value_append_digit, List.length_append, List.length_singleton, pow_succ]
      omega

theorem pow_length_digits_le {n : Nat} (hn : n ≠ 0) : 10 ^ ((digits n).length - 1) ≤ n := by
  induction n using digits.induct with
  | case1 n h =>
      rw [digits, if_pos h]
      simp only [List.length_singleton, Nat.sub_self, pow_zero]
      omega
  | case2 n h ih =>
      have hdiv := ih (by omega)
      have hpos := List.length_pos_iff.2 (digits_ne_nil (n / 10))
      have hlength : (digits (n / 10) ++ [digit (n % 10)]).length - 1 =
          (digits (n / 10)).length - 1 + 1 := by
        rw [List.length_append, List.length_singleton]
        omega
      rw [digits, if_neg h, hlength, pow_succ]
      omega

/-- The first digit of a number is no zero, unless the number is. -/
theorem head?_digits_ne_zero {n : Nat} (hn : n ≠ 0) : (digits n).head? ≠ some '0' := by
  induction n using digits.induct with
  | case1 n h =>
      have hall : ∀ d : Fin 10, d.val ≠ 0 → some (digit d.val) ≠ some '0' := by decide
      rw [digits, if_pos h]
      exact hall ⟨n, h⟩ hn
  | case2 n h ih =>
      have hdiv := ih (by omega)
      rw [digits, if_neg h, List.head?_append]
      cases hds : digits (n / 10) with
      | nil => exact absurd hds (digits_ne_nil _)
      | cons d ds =>
          rw [hds] at hdiv
          exact hdiv

/-! ## Numbers of a fixed width -/

theorem allDigits_padded (width n : Nat) : AllDigits (padded width n) :=
  (allDigits_zeros _).append (allDigits_digits n)

theorem value_padded (width n : Nat) : value (padded width n) = n := by
  rw [padded, value_append, value_zeros, value_digits, Nat.zero_mul, Nat.zero_add]

theorem le_length_padded (width n : Nat) : width ≤ (padded width n).length := by
  rw [padded, List.length_append, List.length_replicate]
  omega

theorem length_padded {width n : Nat} (h : n < 10 ^ width) (hwidth : 0 < width) :
    (padded width n).length = width := by
  have hle : (digits n).length ≤ width := by
    by_cases hn : n = 0
    · have hone : (digits n).length = 1 := by
        rw [hn, digits]
        rfl
      rw [hone]
      exact hwidth
    · have hpow := Nat.lt_of_le_of_lt (pow_length_digits_le hn) h
      have hlt := (Nat.pow_lt_pow_iff_right (by decide : 1 < 10)).1 hpow
      omega
  rw [padded, List.length_append, List.length_replicate]
  omega

/-! ## Numerals -/

/-- Digits that denote a number; there may be leading zeros. -/
structure IsNumeral (ds : List Char) (n : Nat) : Prop where
  ne_nil : ds ≠ []
  allDigits : AllDigits ds
  denotes : value ds = n

theorem isNumeral_padded (width n : Nat) : IsNumeral (padded width n) n :=
  ⟨List.append_ne_nil_of_right_ne_nil _ (digits_ne_nil n), allDigits_padded width n,
    value_padded width n⟩

theorem IsNumeral.lt_pow_length {ds : List Char} {n : Nat} (h : IsNumeral ds n) :
    n < 10 ^ ds.length :=
  h.denotes ▸ value_lt_pow_length h.allDigits

end DocQuery.Text
