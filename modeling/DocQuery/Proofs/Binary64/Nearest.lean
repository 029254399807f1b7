import DocQuery.Binary64.Shortest
import DocQuery.Proofs.Binary64.Rounding
import Mathlib.Tactic.Ring

/-!
# The interval of a double

The ratios that are rounded to a double form an interval around it. Above it reaches half a unit of the
last place, and below as far, except under a significand that starts a binade, where it reaches a
quarter (`nearestMagnitude_eq`). The ends belong to it when the significand is even. A ratio in the
interval is rounded to the double (`ofRatio_eq`).
-/

set_option autoImplicit false

namespace DocQuery.Binary64

/-- The lower end of the interval of a double. -/
def lowerEnd (d : Binary64) : ℚ := d.lowerQuarters * 2 ^ (d.scale - 2)

/-- The upper end of the interval of a double. -/
def upperEnd (d : Binary64) : ℚ := d.upperQuarters * 2 ^ (d.scale - 2)

/-- The ratio lies in the interval of a double. -/
def Near (d : Binary64) (x : ℚ) : Prop :=
  if d.significand % 2 = 0 then d.lowerEnd ≤ x ∧ x ≤ d.upperEnd
  else d.lowerEnd < x ∧ x < d.upperEnd

theorem Near.bounds {d : Binary64} {x : ℚ} (h : d.Near x) : d.lowerEnd ≤ x ∧ x ≤ d.upperEnd := by
  rw [Near] at h
  split at h
  · exact h
  · exact ⟨h.1.le, h.2.le⟩

theorem Near.even_or_inside {d : Binary64} {x : ℚ} (h : d.Near x) :
    d.significand % 2 = 0 ∨ (d.lowerEnd < x ∧ x < d.upperEnd) := by
  rw [Near] at h
  split at h
  · exact .inl ‹_›
  · exact .inr h

/-! ## The ends -/

theorem lowerQuarters_ge (d : Binary64) : (4 * d.significand : ℚ) - 2 ≤ d.lowerQuarters := by
  have h : 4 * d.significand ≤ d.lowerQuarters + 2 := by
    rw [lowerQuarters]
    split <;> omega
  have h' : (4 * d.significand : ℚ) ≤ d.lowerQuarters + 2 := by exact_mod_cast h
  linarith

/-- Half a unit of the last place is two quarters. -/
theorem quarters_eq (d : Binary64) (q : ℚ) :
    q * 2 ^ (d.scale - 2) = q / 4 * 2 ^ d.scale := by
  rw [zpow_sub₀ two_ne_zero]
  ring

theorem lowerEnd_ge (d : Binary64) : ((d.significand : ℚ) - 1 / 2) * 2 ^ d.scale ≤ d.lowerEnd := by
  rw [lowerEnd, quarters_eq]
  refine mul_le_mul_of_nonneg_right ?_ (two_zpow_pos _).le
  linarith [d.lowerQuarters_ge]

theorem upperEnd_eq (d : Binary64) :
    d.upperEnd = ((d.significand : ℚ) + 1 / 2) * 2 ^ d.scale := by
  rw [upperEnd, quarters_eq, upperQuarters]
  push_cast
  ring

theorem one_le_significand {d : Binary64} (hs : d.significand ≠ 0) : (1 : ℚ) ≤ d.significand := by
  exact_mod_cast Nat.one_le_iff_ne_zero.2 hs

/-- The number that the magnitude of a finite double stands for. -/
def value (d : Binary64) : ℚ := d.significand * 2 ^ d.scale

/-- A double other than zero lies inside its interval. -/
theorem near_value {d : Binary64} (hs : d.significand ≠ 0) : d.Near d.value := by
  have hlow : d.lowerEnd < d.value := by
    have hquarters : d.lowerQuarters < 4 * d.significand := by
      rw [lowerQuarters]
      split <;> omega
    have hlt : (d.lowerQuarters : ℚ) < 4 * d.significand := by exact_mod_cast hquarters
    rw [lowerEnd, quarters_eq, value]
    exact mul_lt_mul_of_pos_right (by linarith) (two_zpow_pos _)
  have hhigh : d.value < d.upperEnd := by
    rw [upperEnd_eq, value]
    exact mul_lt_mul_of_pos_right (by linarith) (two_zpow_pos _)
  rw [Near]
  split
  · exact ⟨hlow.le, hhigh.le⟩
  · exact ⟨hlow, hhigh⟩

/-- The interval of a double other than zero stays away from zero. -/
theorem lowerEnd_gt {d : Binary64} (hs : d.significand ≠ 0) :
    (2 : ℚ) ^ (-1075 : Int) ≤ d.lowerEnd := by
  have hsplit : (2 : ℚ) ^ (-1075 : Int) = 1 / 2 * 2 ^ (-1074 : Int) := by
    rw [show (-1075 : Int) = -1074 - 1 from rfl, zpow_sub₀ two_ne_zero, zpow_one]
    ring
  have hpow : (2 : ℚ) ^ (-1074 : Int) ≤ 2 ^ d.scale := two_zpow_le_iff.2 d.scale_ge
  have hmul : 1 / 2 * (2 : ℚ) ^ d.scale ≤ ((d.significand : ℚ) - 1 / 2) * 2 ^ d.scale :=
    mul_le_mul_of_nonneg_right (by linarith [one_le_significand hs]) (two_zpow_pos _).le
  linarith [d.lowerEnd_ge]

/-- The interval of a double lies below the next binade. -/
theorem upperEnd_lt (d : Binary64) : d.upperEnd < 2 ^ (d.scale + 53) := by
  have hlt : d.significand + 1 ≤ 2 * fractionCount := d.significand_lt
  have hlt' : (d.significand : ℚ) + 1 ≤ 9007199254740992 := by
    rw [fractionCount] at hlt
    exact_mod_cast hlt
  have hpow : (2 : ℚ) ^ (d.scale + 53) = 9007199254740992 * 2 ^ d.scale :=
    (two_zpow_add d.scale 53).trans (by norm_num)
  rw [upperEnd_eq, hpow]
  exact mul_lt_mul_of_pos_right (by linarith) (two_zpow_pos _)

/-! ## Rounding at a place -/

/-- What is rounded is the ratio in units of the place. -/
theorem scaled_ratio (num den : Nat) (e : Int) :
    ((num * Nat.pow 2 (-e).toNat : Nat) : ℚ) / ((den * Nat.pow 2 e.toNat : Nat) : ℚ) =
      (num : ℚ) / den / 2 ^ e := by
  have hpow : ((Nat.pow 2 (-e).toNat : Nat) : ℚ) ≠ 0 :=
    Nat.cast_ne_zero.2 (Nat.pow_pos (by decide)).ne'
  have htwo : (2 : ℚ) ^ e ≠ 0 := (two_zpow_pos e).ne'
  rw [Nat.cast_mul, Nat.cast_mul, cast_pow_toNat (by decide) e, Nat.cast_ofNat]
  by_cases hden : (den : ℚ) = 0
  · rw [hden]
    simp
  · field_simp

/-- The place where a ratio is rounded. -/
theorem nearestMagnitude_of_place {num den : Nat} {e : Int} {n : Nat} (hden : 0 < den)
    (hplace : max (floorLog2 num den - 52) (-1074) = e)
    (hlow : ((n : ℚ) - 1 / 2) * 2 ^ e ≤ (num : ℚ) / den)
    (hhigh : (num : ℚ) / den ≤ ((n : ℚ) + 1 / 2) * 2 ^ e)
    (heven : n % 2 = 0 ∨ (((n : ℚ) - 1 / 2) * 2 ^ e < (num : ℚ) / den ∧
      (num : ℚ) / den < ((n : ℚ) + 1 / 2) * 2 ^ e)) :
    nearestMagnitude num den = n + (e + 1074).toNat * fractionCount := by
  have hpow := two_zpow_pos e
  rw [nearestMagnitude]
  simp only [hplace]
  rw [roundHalfEven_eq (n := n)]
  · exact Nat.mul_pos hden (Nat.pow_pos (by decide))
  · rw [scaled_ratio, le_div_iff₀ hpow]
    exact hlow
  · rw [scaled_ratio, div_le_iff₀ hpow]
    exact hhigh
  · rw [scaled_ratio, lt_div_iff₀ hpow, div_lt_iff₀ hpow]
    exact heven

/-- The interval reaches under the least ratio of its binade only when the double starts the
binade. -/
theorem starts_of_lowerEnd_lt {d : Binary64} (h : d.lowerEnd < 2 ^ (d.scale + 52))
    (hnormal : d.scale ≠ -1074) :
    d.significand = fractionCount ∧ d.lowerQuarters = 4 * fractionCount - 1 := by
  have hquarters : d.lowerQuarters < 4 * fractionCount := by
    have hpow : (2 : ℚ) ^ (d.scale + 52) = 18014398509481984 * 2 ^ (d.scale - 2) := by
      rw [show d.scale + 52 = (d.scale - 2) + (54 : Nat) by omega, two_zpow_add]
      norm_num
    rw [hpow, lowerEnd] at h
    have hlt := lt_of_mul_lt_mul_right h (two_zpow_pos _).le
    rw [fractionCount]
    exact_mod_cast hlt
  have hfield : 1 < d.exponentField := by
    rw [scale] at hnormal
    omega
  have hsignificand : d.significand = fractionCount + d.fraction := by
    rw [significand, if_neg (by omega)]
  by_cases hfraction : d.fraction = 0 ∧ 1 < d.exponentField
  · rw [lowerQuarters, if_pos hfraction] at hquarters ⊢
    omega
  · -- half a unit below a later significand is still in the binade
    rw [lowerQuarters, if_neg hfraction] at hquarters
    omega

/-- The interval of a double that starts a binade stays in the binade below. -/
theorem lowerEnd_ge_of_starts {d : Binary64} (h : d.lowerQuarters = 4 * fractionCount - 1) :
    (2 : ℚ) ^ (d.scale + 51) ≤ d.lowerEnd := by
  have hpow : (2 : ℚ) ^ (d.scale + 51) = 9007199254740992 * 2 ^ (d.scale - 2) := by
    rw [show d.scale + 51 = (d.scale - 2) + (53 : Nat) by omega, two_zpow_add]
    norm_num
  rw [lowerEnd, hpow, h, fractionCount]
  exact mul_le_mul_of_nonneg_right (by norm_num) (two_zpow_pos _).le

/-- Where a ratio of the interval is rounded: at the last place of the double, or one place below
when it lies under a binade that the double starts. -/
theorem place_of_near {d : Binary64} (hs : d.significand ≠ 0) {num den : Nat} (hden : 0 < den)
    (h : d.Near ((num : ℚ) / den)) :
    max (floorLog2 num den - 52) (-1074) = d.scale ∨
      (d.significand = fractionCount ∧ d.lowerQuarters = 4 * fractionCount - 1 ∧
        (num : ℚ) / den < 2 ^ (d.scale + 52) ∧ -1074 < d.scale ∧
        max (floorLog2 num den - 52) (-1074) = d.scale - 1) := by
  obtain ⟨hlow, hhigh⟩ := h.bounds
  have hpos : 0 < (num : ℚ) / den :=
    (two_zpow_pos (-1075)).trans_le ((lowerEnd_gt hs).trans hlow)
  have hnum : 0 < num := by
    rcases Nat.eq_zero_or_pos num with hzero | hnum
    · rw [hzero, Nat.cast_zero, zero_div] at hpos
      exact absurd hpos (lt_irrefl _)
    · exact hnum
  obtain ⟨hfloor, hfloor'⟩ := floorLog2_spec hnum hden
  generalize floorLog2 num den = f at hfloor hfloor' ⊢
  have hle : f < d.scale + 53 :=
    two_zpow_lt_iff.1 (hfloor.trans_lt (hhigh.trans_lt d.upperEnd_lt))
  have hscale := d.scale_ge
  by_cases hplace : d.scale ≤ f - 52 ∨ d.scale = -1074
  · left
    omega
  · right
    obtain ⟨hbelow, hnormal⟩ := not_or.1 hplace
    -- the ratio lies under the least normal one of the binade, so the double starts it
    have hunder : (num : ℚ) / den < 2 ^ (d.scale + 52) :=
      hfloor'.trans_le (two_zpow_le_iff.2 (by omega))
    obtain ⟨hsignificand, hquarters⟩ := starts_of_lowerEnd_lt (hlow.trans_lt hunder) hnormal
    refine ⟨hsignificand, hquarters, hunder, lt_of_le_of_ne hscale (Ne.symm hnormal), ?_⟩
    have habove : (2 : ℚ) ^ (d.scale + 51) ≤ (num : ℚ) / den :=
      (lowerEnd_ge_of_starts hquarters).trans hlow
    have hge : d.scale + 51 < f + 1 := two_zpow_lt_iff.1 (habove.trans_lt hfloor')
    omega

/-- **A ratio in the interval of a double is rounded to its magnitude.** -/
theorem nearestMagnitude_eq {d : Binary64} (hs : d.significand ≠ 0) {num den : Nat}
    (hden : 0 < den) (h : d.Near ((num : ℚ) / den)) : nearestMagnitude num den = d.magnitude := by
  obtain ⟨hlow, hhigh⟩ := h.bounds
  rw [magnitude_eq]
  rcases place_of_near hs hden h with hplace | ⟨hstart, hquarters, hunder, hnormal, hplace⟩
  · -- half a unit of the last place around the double holds the interval
    refine nearestMagnitude_of_place hden hplace (d.lowerEnd_ge.trans hlow)
      (hhigh.trans_eq d.upperEnd_eq) (h.even_or_inside.imp id ?_)
    rintro ⟨hlow', hhigh'⟩
    exact ⟨d.lowerEnd_ge.trans_lt hlow', hhigh'.trans_eq d.upperEnd_eq⟩
  · -- one place below, the ratio rounds up to the next power of two
    have hpow : (2 : ℚ) ^ d.scale = 2 * 2 ^ (d.scale - 1) := by
      rw [zpow_sub₀ two_ne_zero, zpow_one]
      ring
    have hcast : (((2 * fractionCount : Nat)) : ℚ) = 9007199254740992 := by
      rw [fractionCount]
      norm_num
    have hlow' : ((2 * fractionCount : Nat) - 1 / 2 : ℚ) * 2 ^ (d.scale - 1) ≤ (num : ℚ) / den := by
      refine le_trans ?_ hlow
      rw [lowerEnd, quarters_eq, hpow, hcast, hquarters, fractionCount]
      rw [← mul_assoc]
      exact mul_le_mul_of_nonneg_right (by norm_num) (two_zpow_pos _).le
    have hhigh' : (num : ℚ) / den ≤ ((2 * fractionCount : Nat) + 1 / 2 : ℚ) * 2 ^ (d.scale - 1) := by
      refine hunder.le.trans ?_
      have hnext : (2 : ℚ) ^ (d.scale + 52) = 9007199254740992 * 2 ^ (d.scale - 1) := by
        rw [show d.scale + 52 = (d.scale - 1) + (53 : Nat) by omega, two_zpow_add]
        norm_num
      rw [hnext, hcast]
      exact mul_le_mul_of_nonneg_right (by norm_num) (two_zpow_pos _).le
    rw [nearestMagnitude_of_place (n := 2 * fractionCount) hden hplace hlow' hhigh'
      (.inl (Nat.mul_mod_right 2 _)), hstart]
    rw [fractionCount]
    omega

/-- **A ratio in the interval of a finite double is rounded to that double,** without its sign. -/
theorem ofRatio_eq {d : Binary64} (hd : d.isFinite = true) (hs : d.significand ≠ 0)
    {num den : Nat} (hden : 0 < den) (h : d.Near ((num : ℚ) / den)) :
    ofRatio num den = d.withSign false := by
  have hnum : num ≠ 0 := by
    rintro rfl
    have hlow := (lowerEnd_gt hs).trans h.bounds.1
    rw [Nat.cast_zero, zero_div] at hlow
    exact absurd hlow (not_le.2 (two_zpow_pos _))
  rw [ofRatio, if_neg hnum, nearestMagnitude_eq hs hden h,
    Nat.min_eq_left (magnitude_lt_infinity hd).le, withSign]

/-! ## Ratios within range -/

theorem roundHalfEven_le (num den : Nat) : roundHalfEven num den ≤ num / den + 1 := by
  unfold roundHalfEven
  simp only
  split <;> omega

/-- What is rounded lies below the next power of two after the significands. -/
theorem scaled_quotient_lt {num den : Nat} (hnum : 0 < num) (hden : 0 < den) :
    let e := max (floorLog2 num den - 52) (-1074)
    num * Nat.pow 2 (-e).toNat / (den * Nat.pow 2 e.toNat) < 2 * fractionCount := by
  intro e
  have hhigh := (floorLog2_spec hnum hden).2
  have hplace : floorLog2 num den + 1 ≤ e + (53 : Nat) := by omega
  have hunits : (num : ℚ) / den / 2 ^ e < 9007199254740992 := by
    rw [div_lt_iff₀ (two_zpow_pos e)]
    have hpow : (2 : ℚ) ^ (e + (53 : Nat)) = 9007199254740992 * 2 ^ e := by
      rw [two_zpow_add]
      norm_num
    rw [← hpow]
    exact hhigh.trans_le (two_zpow_le_iff.2 hplace)
  have hpos : 0 < den * Nat.pow 2 e.toNat := Nat.mul_pos hden (Nat.pow_pos (by decide))
  rw [← scaled_ratio, div_lt_iff₀ (Nat.cast_pos.2 hpos)] at hunits
  rw [Nat.div_lt_iff_lt_mul hpos, fractionCount]
  exact_mod_cast hunits

/-- A positive ratio below the last binade is nearest to a finite double. -/
theorem nearestMagnitude_lt_infinity {num den : Nat} (hnum : 0 < num) (hden : 0 < den)
    (h : (num : ℚ) / den < 2 ^ (1023 : Int)) : nearestMagnitude num den < infinityMagnitude := by
  have hlow := (floorLog2_spec hnum hden).1
  have hlog : floorLog2 num den < 1023 := two_zpow_lt_iff.1 (hlow.trans_lt h)
  have hquotient := scaled_quotient_lt hnum hden
  rw [nearestMagnitude]
  generalize hplace : max (floorLog2 num den - 52) (-1074) = e at hquotient ⊢
  have hround := roundHalfEven_le (num * Nat.pow 2 (-e).toNat) (den * Nat.pow 2 e.toNat)
  -- rounding up may reach that power, which still leaves the exponent of a finite double
  have hexponent : (e + 1074).toNat ≤ 2044 := by omega
  have hscaled := Nat.mul_le_mul_right fractionCount hexponent
  unfold infinityMagnitude
  unfold fractionCount at hquotient hscaled ⊢
  omega

/-- The magnitude of a 64-bit integer, with or without a sign, is that of a finite double. -/
theorem nearestMagnitude_natAbs_lt_infinity {n : Int} (hne : n ≠ 0) (h : n.natAbs < UInt64.size) :
    nearestMagnitude n.natAbs 1 < infinityMagnitude := by
  have hsize : UInt64.size ≤ 2 ^ 1023 := by decide +kernel
  have hlt : n.natAbs < 2 ^ 1023 := h.trans_le hsize
  apply nearestMagnitude_lt_infinity (Int.natAbs_pos.2 hne) Nat.one_pos
  rw [Nat.cast_one, div_one]
  exact_mod_cast hlt

/-- A 64-bit integer, with or without a sign, is nearest to a finite double. -/
theorem isFinite_ofInt {n : Int} (h : n.natAbs < UInt64.size) : (ofInt n).isFinite = true := by
  rw [ofInt]
  split
  · exact isFinite_zero false
  · rename_i hne
    exact isFinite_ofMagnitude _ (nearestMagnitude_natAbs_lt_infinity hne h)

theorem natAbs_toInt_lt (n : Int64) : n.toInt.natAbs < UInt64.size := by
  have hlower := n.le_toInt
  have hupper := n.toInt_lt
  have hsize : UInt64.size = 2 ^ 64 := rfl
  omega

end DocQuery.Binary64
