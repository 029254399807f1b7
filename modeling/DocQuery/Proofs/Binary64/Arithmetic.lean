import DocQuery.Binary64.Arithmetic
import DocQuery.Proofs.Binary64.Closest
import Mathlib.Algebra.Order.Field.Basic

/-!
# Scaling, exact and rounded

Rounding is monotone (`nearestMagnitude_mono`), so a quotient by a number that is at least one is no
larger than what was divided, and scaling a finite double gives a finite double
(`isFinite_of_scale10?`).

Integers of at most 53 bits and the powers of ten up to the twenty-second are doubles themselves. So
where such an integer is scaled by such a power, the result is rounded once, and it is the double
nearest to the decimal (`scale10?_eq`). Elsewhere the scaled number may be off, because what is
scaled has been rounded before.
-/

set_option autoImplicit false

namespace DocQuery.Binary64

theorem pow_two_pos (k : Nat) : 0 < Nat.pow 2 k := Nat.pow_pos (by decide)

theorem pow_ten_pos (k : Nat) : 0 < Nat.pow 10 k := Nat.pow_pos (by decide)

/-! ## Rounding is monotone -/

/-- Of two ratios in order, the naturals nearest to them are in the same order. -/
theorem roundHalfEven_mono {num den num' den' : Nat} (hden : 0 < den) (hden' : 0 < den')
    (h : (num : ℚ) / den ≤ num' / den') : roundHalfEven num den ≤ roundHalfEven num' den' := by
  obtain ⟨hhalf, heven⟩ := @abs_roundHalfEven_sub_le num den hden
  obtain ⟨hhalf', heven'⟩ := @abs_roundHalfEven_sub_le num' den' hden'
  generalize roundHalfEven num den = r at hhalf heven ⊢
  generalize roundHalfEven num' den' = r' at hhalf' heven' ⊢
  by_contra hlt
  have hnext : (r' : ℚ) + 1 ≤ r := by exact_mod_cast Nat.succ_le_of_lt (not_le.1 hlt)
  -- both ratios lie half a unit from their naturals, which are neighbours and cannot both be even
  rw [abs_le] at hhalf hhalf'
  have htie : (r : ℚ) - num / den = 1 / 2 := by linarith
  have htie' : (r' : ℚ) - num' / den' = -(1 / 2) := by linarith
  have hodd : (r : ℚ) = r' + 1 := by linarith
  have hr := heven (by rw [htie, abs_of_pos (by norm_num)])
  have hr' := heven' (by rw [htie', abs_neg, abs_of_pos (by norm_num)])
  have hneighbour : r = r' + 1 := by exact_mod_cast hodd
  omega

/-- A ratio that is no smaller than a positive one is positive. -/
theorem num_pos_of_ratio_le {num den num' den' : Nat} (hnum : 0 < num) (hden : 0 < den)
    (h : (num : ℚ) / den ≤ num' / den') : 0 < num' := by
  have hpos : (0 : ℚ) < num / den := div_pos (Nat.cast_pos.2 hnum) (Nat.cast_pos.2 hden)
  apply Nat.pos_of_ne_zero
  rintro rfl
  rw [Nat.cast_zero, zero_div] at h
  exact absurd h (not_le.2 hpos)

/-- Of two positive ratios in order, the binary logarithms are in the same order. -/
theorem floorLog2_mono {num den num' den' : Nat} (hnum : 0 < num) (hden : 0 < den)
    (hden' : 0 < den') (h : (num : ℚ) / den ≤ num' / den') :
    floorLog2 num den ≤ floorLog2 num' den' := by
  have hnum' := num_pos_of_ratio_le hnum hden h
  have hlow := (floorLog2_spec hnum hden).1
  have hhigh := (floorLog2_spec hnum' hden').2
  have hlt := two_zpow_lt_iff.1 (hlow.trans_lt (h.trans_lt hhigh))
  omega

/-- **Rounding is monotone.** Where the larger ratio is rounded at a higher place, it starts a
binade above the one that the smaller ratio may reach. -/
theorem nearestMagnitude_mono {num den num' den' : Nat} (hnum : 0 < num) (hden : 0 < den)
    (hden' : 0 < den') (h : (num : ℚ) / den ≤ num' / den') :
    nearestMagnitude num den ≤ nearestMagnitude num' den' := by
  have hplaces := floorLog2_mono hnum hden hden' h
  have hnum' := num_pos_of_ratio_le hnum hden h
  have hle := (roundHalfEven_le _ _).trans (scaled_quotient_lt hnum hden)
  rw [nearestMagnitude, nearestMagnitude]
  by_cases hsame : max (floorLog2 num den - 52) (-1074) = max (floorLog2 num' den' - 52) (-1074)
  · -- both are rounded at the same place
    rw [hsame]
    have hunit := two_zpow_pos (max (floorLog2 num' den' - 52) (-1074))
    apply Nat.add_le_add_right
    apply roundHalfEven_mono
    · exact Nat.mul_pos hden (pow_two_pos _)
    · exact Nat.mul_pos hden' (pow_two_pos _)
    · rw [scaled_ratio, scaled_ratio]
      exact div_le_div_of_nonneg_right h hunit.le
  · -- the larger ratio fills its binade, and the smaller one at most the binades below
    have hfull := fractionCount_le_roundHalfEven hnum' hden'
      (by omega : floorLog2 num' den' - 52 = max (floorLog2 num' den' - 52) (-1074))
    have hnext : (max (floorLog2 num den - 52) (-1074) + 1074).toNat + 1 ≤
        (max (floorLog2 num' den' - 52) (-1074) + 1074).toNat := by omega
    have hmul := Nat.mul_le_mul_right fractionCount hnext
    rw [Nat.succ_mul] at hmul
    omega

/-! ## Products and quotients -/

theorem isFinite_ofRatio {num den : Nat} (h : nearestMagnitude num den < infinityMagnitude) :
    (ofRatio num den).isFinite = true := by
  rw [ofRatio]
  split
  · exact isFinite_zero false
  · rw [Nat.min_eq_left h.le]
    exact isFinite_ofMagnitude false h

theorem magnitude_ofRatio {num den : Nat} (hnum : 0 < num)
    (h : nearestMagnitude num den < infinityMagnitude) :
    (ofRatio num den).magnitude = nearestMagnitude num den := by
  rw [ofRatio, if_neg hnum.ne', Nat.min_eq_left h.le]
  exact magnitude_ofMagnitude h

/-- The magnitude of a double as a ratio of naturals. -/
theorem value_eq_div (d : Binary64) :
    d.value = ((d.significand * Nat.pow 2 d.scale.toNat : Nat) : ℚ) /
      ((Nat.pow 2 (-d.scale).toNat : Nat) : ℚ) := by
  have hne : ((Nat.pow 2 (-d.scale).toNat : Nat) : ℚ) ≠ 0 :=
    Nat.cast_ne_zero.2 (pow_two_pos _).ne'
  rw [Nat.cast_mul, cast_pow_toNat (by decide) d.scale, Nat.cast_ofNat, ← mul_assoc,
    mul_div_cancel_right₀ _ hne, value]

/-- What is rounded for a product. -/
theorem ratio_mul (a b : Binary64) :
    ((a.significand * b.significand * Nat.pow 2 (a.scale + b.scale).toNat : Nat) : ℚ) /
      ((Nat.pow 2 (-(a.scale + b.scale)).toNat : Nat) : ℚ) = a.value * b.value := by
  have hne : ((Nat.pow 2 (-(a.scale + b.scale)).toNat : Nat) : ℚ) ≠ 0 :=
    Nat.cast_ne_zero.2 (pow_two_pos _).ne'
  rw [Nat.cast_mul, cast_pow_toNat (by decide) (a.scale + b.scale), Nat.cast_ofNat, ← mul_assoc,
    mul_div_cancel_right₀ _ hne, zpow_add₀ two_ne_zero, value, value]
  push_cast
  ring

/-- What is rounded for a quotient. -/
theorem ratio_div (a b : Binary64) :
    ((a.significand * Nat.pow 2 (a.scale - b.scale).toNat : Nat) : ℚ) /
      ((b.significand * Nat.pow 2 (-(a.scale - b.scale)).toNat : Nat) : ℚ) = a.value / b.value := by
  have hne : ((Nat.pow 2 (-(a.scale - b.scale)).toNat : Nat) : ℚ) ≠ 0 :=
    Nat.cast_ne_zero.2 (pow_two_pos _).ne'
  rw [Nat.cast_mul, Nat.cast_mul, cast_pow_toNat (by decide) (a.scale - b.scale), Nat.cast_ofNat,
    ← mul_assoc, mul_div_mul_right _ _ hne, zpow_sub₀ two_ne_zero, value, value,
    ← mul_div_assoc, div_div, mul_comm (2 ^ b.scale : ℚ)]

theorem significand_ne_zero {d : Binary64} (h : 0 < d.value) : d.significand ≠ 0 := by
  intro hzero
  rw [value, hzero, Nat.cast_zero, zero_mul] at h
  exact absurd h (lt_irrefl 0)

/-- A quotient by a number that is at least one is finite. -/
theorem isFinite_div {a b : Binary64} (ha : a.isFinite = true) (hb : 1 ≤ b.value) :
    (a.div b).isFinite = true := by
  rw [div]
  by_cases hs : a.significand = 0
  · rw [hs, Nat.zero_mul]
    exact isFinite_zero false
  · have hbs := significand_ne_zero (zero_lt_one.trans_le hb)
    have hvalue : 0 ≤ a.value := mul_nonneg (Nat.cast_nonneg _) (two_zpow_pos _).le
    -- the quotient is no larger than what is divided, whose magnitude is finite
    have hle : a.value / b.value ≤ a.value := div_le_self hvalue hb
    rw [← ratio_div, value_eq_div a] at hle
    have hmono := nearestMagnitude_mono
      (Nat.mul_pos (Nat.pos_of_ne_zero hs) (pow_two_pos _))
      (Nat.mul_pos (Nat.pos_of_ne_zero hbs) (pow_two_pos _)) (pow_two_pos _) hle
    have hnear := near_value hs
    rw [value_eq_div a] at hnear
    rw [nearestMagnitude_eq hs (pow_two_pos _) hnear] at hmono
    exact isFinite_ofRatio (hmono.trans_lt (magnitude_lt_infinity ha))

/-! ## The table of powers of ten -/

/-- Larger powers of ten have larger magnitudes. -/
theorem nearestMagnitude_powTen_mono {j k : Nat} (h : j ≤ k) :
    nearestMagnitude (Nat.pow 10 j) 1 ≤ nearestMagnitude (Nat.pow 10 k) 1 := by
  apply nearestMagnitude_mono (pow_ten_pos j) Nat.one_pos Nat.one_pos
  rw [Nat.cast_one, div_one, div_one]
  exact_mod_cast Nat.pow_le_pow_right (by decide) h

/-- The powers of ten in the table are finite. -/
theorem nearestMagnitude_powTen_lt {k : Nat} (hk : k ≤ tableEnd) :
    nearestMagnitude (Nat.pow 10 k) 1 < infinityMagnitude :=
  lt_of_le_of_lt (nearestMagnitude_powTen_mono hk) (by decide +kernel)

/-- From the exponent of one on, doubles are at least one. -/
theorem one_le_value {d : Binary64} (h : 1023 * fractionCount ≤ d.magnitude) : 1 ≤ d.value := by
  have hfraction := d.fraction_lt
  rw [magnitude] at h
  unfold fractionCount at h hfraction
  have hfield : 1023 ≤ d.exponentField := by omega
  have hsignificand : (4503599627370496 : ℚ) ≤ d.significand := by
    rw [significand, if_neg (by omega), fractionCount]
    exact_mod_cast Nat.le_add_right _ _
  have hscale : (2 : ℚ) ^ (-52 : Int) ≤ 2 ^ d.scale := by
    rw [two_zpow_le_iff, scale]
    omega
  have hone : (1 : ℚ) = 4503599627370496 * 2 ^ (-52 : Int) := by norm_num
  rw [value, hone]
  exact mul_le_mul hsignificand hscale (two_zpow_pos _).le (Nat.cast_nonneg _)

theorem one_le_value_powTen {k : Nat} (hk : k ≤ tableEnd) : 1 ≤ (powTen k).value := by
  apply one_le_value
  rw [powTen, magnitude_ofRatio (pow_ten_pos k) (nearestMagnitude_powTen_lt hk)]
  have hone : nearestMagnitude (Nat.pow 10 0) 1 = 1023 * fractionCount := by decide
  rw [← hone]
  exact nearestMagnitude_powTen_mono (Nat.zero_le k)

theorem nearestMagnitude_lt_of_size {n : Nat} (hpos : 0 < n) (hn : n < UInt64.size) :
    nearestMagnitude n 1 < infinityMagnitude := by
  have hfinite := @nearestMagnitude_natAbs_lt_infinity n (by omega) (by rwa [Int.natAbs_natCast])
  rwa [Int.natAbs_natCast] at hfinite

/-- A natural of 64 bits is nearest to a finite double. -/
theorem isFinite_ofRatio_one {n : Nat} (hn : n < UInt64.size) : (ofRatio n 1).isFinite = true := by
  rcases Nat.eq_zero_or_pos n with rfl | hpos
  · exact isFinite_zero false
  · exact isFinite_ofRatio (nearestMagnitude_lt_of_size hpos hn)

/-- **A finite double is scaled to a finite double.** A product is looked at before it is taken, and
quotients are no larger than what is divided. -/
theorem isFinite_of_scale10? {d r : Binary64} {e : Int} (hd : d.isFinite = true)
    (h : d.scale10? e = some r) : r.isFinite = true := by
  induction d, e using scale10?.induct with
  | case1 d e htable hmul scaled hfinite =>
      rw [scale10?, if_pos htable, if_pos hmul] at h
      simp only [scaled] at hfinite
      simp only [if_pos hfinite] at h
      cases h
      exact hfinite
  | case2 d e htable hmul scaled hinfinite =>
      rw [scale10?, if_pos htable, if_pos hmul] at h
      simp only [scaled] at hinfinite
      simp only [if_neg hinfinite] at h
      cases h
  | case3 d e htable hdiv =>
      rw [scale10?, if_pos htable, if_neg hdiv] at h
      cases h
      exact isFinite_div hd (one_le_value_powTen htable)
  | case4 d e hbeyond hzero =>
      rw [scale10?, if_neg hbeyond, if_pos hzero] at h
      cases h
      exact hd
  | case5 d e hbeyond hzero hlarge =>
      rw [scale10?, if_neg hbeyond, if_neg hzero, if_pos hlarge] at h
      cases h
  | case6 d e hbeyond hzero hsmall ih =>
      rw [scale10?, if_neg hbeyond, if_neg hzero, if_neg hsmall] at h
      exact ih (isFinite_div hd (one_le_value_powTen (Nat.le_refl _))) h

/-! ## Exact cases -/

theorem roundHalfEven_of_eq {num den n : Nat} (hden : 0 < den) (h : (num : ℚ) / den = n) :
    roundHalfEven num den = n := by
  apply roundHalfEven_eq hden
  · linarith
  · linarith
  · right
    constructor <;> linarith

/-- A ratio that is an integer of at most 53 bits in some unit is rounded to itself. -/
theorem value_ofRatio {num den m : Nat} {unit : Int} (hnum : 0 < num) (hden : 0 < den)
    (hm : m < 2 * fractionCount) (hunit : -1074 ≤ unit) (h : (num : ℚ) / den = m * 2 ^ unit)
    (hfinite : nearestMagnitude num den < infinityMagnitude) :
    (ofRatio num den).value = num / den := by
  -- the last place of the ratio is no coarser than the unit
  have hplace : max (floorLog2 num den - 52) (-1074) ≤ unit := by
    have hlow := (floorLog2_spec hnum hden).1
    have hm' : (m : ℚ) < 2 ^ 53 := by
      rw [fractionCount] at hm
      exact_mod_cast hm
    have hhigh : (m : ℚ) * 2 ^ unit < 2 ^ (unit + (53 : Nat)) := by
      rw [two_zpow_add]
      exact mul_lt_mul_of_pos_right hm' (two_zpow_pos _)
    rw [h] at hlow
    have hlt := two_zpow_lt_iff.1 (hlow.trans_lt hhigh)
    omega
  generalize hplace' : max (floorLog2 num den - 52) (-1074) = place at hplace
  obtain ⟨k, rfl⟩ := Int.exists_add_of_le hplace
  have hscaled : (num : ℚ) / den = ((m * 2 ^ k : Nat) : ℚ) * 2 ^ place := by
    rw [h, two_zpow_add]
    push_cast
    ring
  have hexact : (num : ℚ) / den / 2 ^ place = (m * 2 ^ k : Nat) := by
    rw [hscaled, mul_div_cancel_right₀ _ (two_zpow_pos place).ne']
  have hrounded : roundHalfEven (num * Nat.pow 2 (-place).toNat) (den * Nat.pow 2 place.toNat) =
      m * 2 ^ k := by
    have hpos : 0 < den * Nat.pow 2 place.toNat := Nat.mul_pos hden (pow_two_pos _)
    apply roundHalfEven_of_eq hpos
    rw [scaled_ratio, hexact]
  have hvalue := (toRat_ofMagnitude_nearestMagnitude false hnum hden hplace' hfinite).1
  rw [ofRatio, if_neg hnum.ne', Nat.min_eq_left hfinite.le, value, hvalue, hrounded, hscaled]

/-- An integer of at most 53 bits is a double. -/
theorem value_ofRatio_one {n : Nat} (hpos : 0 < n) (hn : n < 2 * fractionCount) :
    (ofRatio n 1).value = n := by
  have hratio : (n : ℚ) / (1 : Nat) = n * 2 ^ (0 : Int) := by simp
  have hsize : n < UInt64.size := hn.trans (by decide)
  rw [value_ofRatio hpos Nat.one_pos hn (by decide) hratio (nearestMagnitude_lt_of_size hpos hsize),
    Nat.cast_one, div_one]

/-- The powers of ten up to the twenty-second are doubles: their odd part has at most 53 bits. -/
theorem value_powTen {k : Nat} (hk : k ≤ 22) : (powTen k).value = 10 ^ k := by
  have hfive : 5 ^ k < 2 * fractionCount :=
    (Nat.pow_le_pow_right (by decide) hk).trans_lt (by decide)
  have hratio : ((Nat.pow 10 k : Nat) : ℚ) / (1 : Nat) = (5 ^ k : Nat) * 2 ^ (k : Int) := by
    rw [Nat.cast_one, div_one, zpow_natCast, Nat.pow_eq]
    push_cast
    rw [← mul_pow]
    norm_num
  have htable : k ≤ tableEnd := hk.trans (by decide)
  rw [powTen, value_ofRatio (pow_ten_pos k) Nat.one_pos hfive (by omega) hratio
    (nearestMagnitude_powTen_lt htable), Nat.cast_one, div_one, Nat.pow_eq]
  push_cast
  rfl

/-- Zero stays zero, whatever the power is. -/
theorem scale10?_zero (e : Int) : (zero false).scale10? e = some (zero false) := by
  have hsignificand : (zero false).significand = 0 := by decide
  by_cases he : e.natAbs ≤ tableEnd
  · rw [scale10?, if_pos he]
    simp only [mul, div, hsignificand, Nat.zero_mul, ofRatio, if_true, isFinite_zero, ite_self]
  · rw [scale10?, if_neg he, if_pos hsignificand]

/-- **An integer of at most 53 bits, scaled by a power of ten up to the twenty-second, is the double
in whose interval the decimal lies.** Both are doubles, so only the result is rounded. -/
theorem scale10?_eq {d : Binary64} (hd : d.isFinite = true) (hs : d.significand ≠ 0) {n : Nat}
    (hn : n < 2 * fractionCount) {e : Int} (he : e.natAbs ≤ 22) (h : d.Near (n * 10 ^ e)) :
    (ofRatio n 1).scale10? e = some (d.withSign false) := by
  have hpos : 0 < n := by
    rcases Nat.eq_zero_or_pos n with rfl | hpos
    · have hlow := (lowerEnd_gt hs).trans h.bounds.1
      rw [Nat.cast_zero, zero_mul] at hlow
      exact absurd hlow (not_le.2 (two_zpow_pos _))
    · exact hpos
  have hvalue := value_ofRatio_one hpos hn
  have hten := value_powTen he
  rw [scale10?, if_pos (he.trans (by decide))]
  by_cases hsign : 0 ≤ e
  · have hmul : (ofRatio n 1).mul (powTen e.natAbs) = d.withSign false := by
      apply ofRatio_eq hd hs (pow_two_pos _)
      rw [ratio_mul, hvalue, hten, ← zpow_natCast, Int.natAbs_of_nonneg hsign]
      exact h
    have hfinite : (d.withSign false).isFinite = true :=
      isFinite_ofMagnitude false (magnitude_lt_infinity hd)
    simp only [if_pos hsign, hmul, if_pos hfinite]
  · have hdiv : (ofRatio n 1).div (powTen e.natAbs) = d.withSign false := by
      have hten' : (powTen e.natAbs).significand ≠ 0 := by
        apply significand_ne_zero
        rw [hten]
        exact pow_pos (by norm_num) _
      apply ofRatio_eq hd hs (Nat.mul_pos (Nat.pos_of_ne_zero hten') (pow_two_pos _))
      have hneg : ((e.natAbs : Nat) : Int) = -e := by omega
      rw [ratio_div, hvalue, hten, ← zpow_natCast, hneg, zpow_neg, div_inv_eq_mul]
      exact h
    rw [if_neg hsign, hdiv]

end DocQuery.Binary64
