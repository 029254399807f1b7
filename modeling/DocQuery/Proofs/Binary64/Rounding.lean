import DocQuery.Binary64.Rounding
import Mathlib.Algebra.Order.Field.Power
import Mathlib.Algebra.Order.Field.Rat
import Mathlib.Data.Rat.Cast.Order
import Mathlib.Tactic.FieldSimp
import Mathlib.Tactic.Linarith
import Mathlib.Tactic.NormNum

/-!
# Magnitudes and rounding

The lower 63 bits of a double number its magnitude (`magnitude_eq`). Rounding a ratio takes its
binary logarithm and then the nearest natural; both are pinned down by bounds in rational numbers
(`floorLog2_spec`, `roundHalfEven_eq`).
-/

set_option autoImplicit false

namespace DocQuery.Binary64

/-! ## Bits -/

theorem fraction_lt (d : Binary64) : d.fraction < fractionCount :=
  Nat.mod_lt _ (by decide)

theorem exponentField_lt (d : Binary64) : d.exponentField < exponentCount :=
  Nat.mod_lt _ (by decide)

/-- A double is its sign and its magnitude. -/
theorem ofMagnitude_magnitude (d : Binary64) : ofMagnitude d.isNegative d.magnitude = d := by
  have hlt : d.bits.toNat < 18446744073709551616 := d.bits.toNat_lt
  have hbits : (if d.isNegative then signWeight + d.magnitude else d.magnitude) =
      d.bits.toNat := by
    by_cases hsign : signWeight ≤ d.bits.toNat
    · rw [isNegative, decide_eq_true hsign, if_pos rfl]
      simp only [magnitude, exponentField, fraction, fractionCount, exponentCount,
        signWeight] at hsign ⊢
      omega
    · rw [isNegative, decide_eq_false hsign, if_neg Bool.false_ne_true]
      simp only [magnitude, exponentField, fraction, fractionCount, exponentCount,
        signWeight] at hsign ⊢
      omega
  rw [ofMagnitude, hbits, UInt64.ofNat_toNat]

/-- The magnitudes of a power of two are numbered one after another, and those of the next one
follow. -/
theorem magnitude_eq (d : Binary64) :
    d.magnitude = d.significand + (d.scale + 1074).toNat * fractionCount := by
  rw [magnitude, significand, scale]
  by_cases h : d.exponentField = 0
  · rw [if_pos h, h]
    simp
  · have hscale : (((max d.exponentField 1 : Nat) : Int) - 1075 + 1074).toNat =
        d.exponentField - 1 := by omega
    rw [if_neg h, hscale, fractionCount]
    omega

theorem magnitude_lt_infinity {d : Binary64} (h : d.isFinite = true) :
    d.magnitude < infinityMagnitude := by
  have hfraction := d.fraction_lt
  have hfield := d.exponentField_lt
  simp only [isFinite, decide_eq_true_eq] at h
  simp only [magnitude, infinityMagnitude, fractionCount, exponentCount] at hfraction hfield ⊢
  omega

theorem significand_lt (d : Binary64) : d.significand < 2 * fractionCount := by
  have hfraction := d.fraction_lt
  rw [significand]
  split <;> omega

theorem scale_ge (d : Binary64) : -1074 ≤ d.scale := by
  rw [scale]
  omega

/-! ## Powers with integer exponents -/

/-- A power with an integer exponent is a quotient of two powers of which one is one. -/
theorem cast_pow_toNat {b : Nat} (hb : b ≠ 0) (e : Int) :
    ((Nat.pow b e.toNat : Nat) : ℚ) = (b : ℚ) ^ e * ((Nat.pow b (-e).toNat : Nat) : ℚ) := by
  have hb' : (b : ℚ) ≠ 0 := Nat.cast_ne_zero.2 hb
  rw [Nat.pow_eq, Nat.pow_eq, Nat.cast_pow, Nat.cast_pow, ← zpow_natCast, ← zpow_natCast,
    ← zpow_add₀ hb']
  congr 1
  omega

theorem two_zpow_lt_iff {a b : Int} : (2 : ℚ) ^ a < (2 : ℚ) ^ b ↔ a < b :=
  zpow_lt_zpow_iff_right₀ one_lt_two

theorem two_zpow_le_iff {a b : Int} : (2 : ℚ) ^ a ≤ (2 : ℚ) ^ b ↔ a ≤ b :=
  zpow_le_zpow_iff_right₀ one_lt_two

theorem two_zpow_pos (a : Int) : (0 : ℚ) < 2 ^ a := zpow_pos (by norm_num) a

theorem two_zpow_add (a : Int) (k : Nat) : (2 : ℚ) ^ (a + k) = 2 ^ k * 2 ^ a := by
  rw [zpow_add₀ two_ne_zero, zpow_natCast, mul_comm]

/-! ## The binary logarithm -/

theorem atLeastPow_iff {num den : Nat} (hden : 0 < den) (e : Int) :
    atLeastPow num den e = true ↔ (2 : ℚ) ^ e ≤ (num : ℚ) / den := by
  have hden' : (0 : ℚ) < den := Nat.cast_pos.2 hden
  have hpow : (0 : ℚ) < (Nat.pow 2 (-e).toNat : Nat) :=
    Nat.cast_pos.2 (Nat.pow_pos (by decide))
  have hcast : (((den * Nat.pow 2 e.toNat : Nat) : ℚ) ≤ ((num * Nat.pow 2 (-e).toNat : Nat) : ℚ)) ↔
      2 ^ e * den * ((Nat.pow 2 (-e).toNat : Nat) : ℚ) ≤
        num * ((Nat.pow 2 (-e).toNat : Nat) : ℚ) := by
    rw [Nat.cast_mul, Nat.cast_mul, cast_pow_toNat (by decide) e, Nat.cast_ofNat, ← mul_assoc,
      mul_comm (den : ℚ)]
  rw [atLeastPow, decide_eq_true_eq, le_div_iff₀ hden', ← Nat.cast_le (α := ℚ), hcast,
    mul_le_mul_iff_left₀ hpow]

/-- A positive ratio lies between the power of two of its binary logarithm and the next one. -/
theorem floorLog2_spec {num den : Nat} (hnum : 0 < num) (hden : 0 < den) :
    (2 : ℚ) ^ floorLog2 num den ≤ (num : ℚ) / den ∧
      (num : ℚ) / den < 2 ^ (floorLog2 num den + 1) := by
  have hden' : (0 : ℚ) < den := Nat.cast_pos.2 hden
  have hnum₁ : (2 : ℚ) ^ (num.log2 : Int) ≤ num := by
    rw [zpow_natCast]
    exact_mod_cast Nat.log2_self_le (Nat.pos_iff_ne_zero.1 hnum)
  have hnum₂ : (num : ℚ) < 2 ^ ((num.log2 : Int) + 1) := by
    rw [← Nat.cast_succ, zpow_natCast]
    exact_mod_cast Nat.lt_log2_self (n := num)
  have hden₁ : (2 : ℚ) ^ (den.log2 : Int) ≤ den := by
    rw [zpow_natCast]
    exact_mod_cast Nat.log2_self_le (Nat.pos_iff_ne_zero.1 hden)
  have hden₂ : (den : ℚ) < 2 ^ ((den.log2 : Int) + 1) := by
    rw [← Nat.cast_succ, zpow_natCast]
    exact_mod_cast Nat.lt_log2_self (n := den)
  -- the ratio lies less than two binades from the quotient of the two powers
  have hlow : (2 : ℚ) ^ ((num.log2 : Int) - den.log2 - 1) ≤ (num : ℚ) / den := by
    rw [le_div_iff₀ hden']
    have hsplit : (2 : ℚ) ^ ((num.log2 : Int) - den.log2 - 1) * 2 ^ ((den.log2 : Int) + 1) =
        2 ^ (num.log2 : Int) := by
      rw [← zpow_add₀ two_ne_zero]
      congr 1
      omega
    have hmul := mul_le_mul_of_nonneg_left hden₂.le
      (two_zpow_pos ((num.log2 : Int) - den.log2 - 1)).le
    linarith
  have hhigh : (num : ℚ) / den < 2 ^ ((num.log2 : Int) - den.log2 + 1) := by
    rw [div_lt_iff₀ hden']
    have hsplit : (2 : ℚ) ^ ((num.log2 : Int) - den.log2 + 1) * 2 ^ (den.log2 : Int) =
        2 ^ ((num.log2 : Int) + 1) := by
      rw [← zpow_add₀ two_ne_zero]
      congr 1
      omega
    have hmul := mul_le_mul_of_nonneg_left hden₁
      (two_zpow_pos ((num.log2 : Int) - den.log2 + 1)).le
    linarith
  -- one comparison tells which of the two binades it is
  unfold floorLog2
  by_cases hguess : atLeastPow num den ((num.log2 : Int) - den.log2) = true
  · simp only [if_pos hguess]
    exact ⟨(atLeastPow_iff hden _).1 hguess, hhigh⟩
  · simp only [if_neg hguess]
    rw [atLeastPow_iff hden, not_le] at hguess
    refine ⟨hlow, ?_⟩
    rw [sub_add_cancel]
    exact hguess

/-! ## Rounding to a natural -/

/-- The natural at most half a unit away is the rounded one; at exactly half a unit it has to be
even. -/
theorem roundHalfEven_eq {num den n : Nat} (hden : 0 < den)
    (hlow : (n : ℚ) - 1 / 2 ≤ (num : ℚ) / den) (hhigh : (num : ℚ) / den ≤ (n : ℚ) + 1 / 2)
    (heven : n % 2 = 0 ∨ ((n : ℚ) - 1 / 2 < (num : ℚ) / den ∧ (num : ℚ) / den < (n : ℚ) + 1 / 2)) :
    roundHalfEven num den = n := by
  have hden' : (0 : ℚ) < den := Nat.cast_pos.2 hden
  rw [le_div_iff₀ hden'] at hlow
  rw [div_le_iff₀ hden'] at hhigh
  rw [lt_div_iff₀ hden', div_lt_iff₀ hden'] at heven
  have hlow' : 2 * (n * den) ≤ 2 * num + den := by
    have h : (2 : ℚ) * (n * den) ≤ 2 * num + den := by linarith
    exact_mod_cast h
  have hhigh' : 2 * num ≤ 2 * (n * den) + den := by
    have h : (2 : ℚ) * num ≤ 2 * (n * den) + den := by linarith
    exact_mod_cast h
  have heven' : n % 2 = 0 ∨ (2 * (n * den) < 2 * num + den ∧ 2 * num < 2 * (n * den) + den) := by
    refine heven.imp id fun ⟨h₁, h₂⟩ => ⟨?_, ?_⟩
    · have h : (2 : ℚ) * (n * den) < 2 * num + den := by linarith
      exact_mod_cast h
    · have h : (2 : ℚ) * num < 2 * (n * den) + den := by linarith
      exact_mod_cast h
  have hdiv : num = num / den * den + num % den := (Nat.div_add_mod' num den).symm
  have hmod := Nat.mod_lt num hden
  have hsucc : (num / den + 1) * den = num / den * den + den := Nat.succ_mul _ _
  unfold roundHalfEven
  -- the quotient is the natural or the one below; elsewhere the ratio is too far away
  rcases Nat.lt_trichotomy n (num / den) with hlt | heq | hgt
  · have hmul := Nat.mul_le_mul_right den (Nat.succ_le_of_lt hlt)
    rw [Nat.succ_mul] at hmul
    omega
  · rw [← heq] at hdiv ⊢
    simp only
    split <;> omega
  · rcases Nat.lt_or_ge (num / den + 1) n with hlt | hle
    · have hmul := Nat.mul_le_mul_right den (Nat.succ_le_of_lt hlt)
      rw [Nat.succ_mul] at hmul
      omega
    · have heq : n = num / den + 1 := by omega
      rw [heq, hsucc] at hlow' heven'
      rw [heq]
      simp only
      split <;> omega

end DocQuery.Binary64
