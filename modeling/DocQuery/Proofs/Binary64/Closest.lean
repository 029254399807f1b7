import DocQuery.Proofs.Binary64.Nearest

/-!
# The double closest to a number

Rounding a ratio to a double takes the multiple of a power of two that is closest to the ratio
(`roundHalfEven_closest`). No finite double is closer: the doubles with a smaller unit lie below the
binade of the ratio (`roundHalfEven_closest_double`). So a ratio is rounded to the double that is
nearest to it, ties going to the even significand (`isNearest_ofMagnitude`), and so is a 64-bit
integer (`isNearest_ofInt`). There is only one such double (`IsNearest.unique`).
-/

set_option autoImplicit false

namespace DocQuery.Binary64

/-- The number that a finite double stands for. -/
def toRat (d : Binary64) : ℚ :=
  if d.isNegative then -(d.significand * 2 ^ d.scale) else d.significand * 2 ^ d.scale

/-- No finite double is closer to the number, and where another one is as close, the significand is
even. The sign is that of the number, and zero has none. -/
structure IsNearest (d : Binary64) (x : ℚ) : Prop where
  finite : d.isFinite = true
  closest : ∀ other : Binary64, other.isFinite = true → |d.toRat - x| ≤ |other.toRat - x|
  even : ∀ other : Binary64, other.isFinite = true → |d.toRat - x| = |other.toRat - x| →
    other.toRat = d.toRat ∨ d.significand % 2 = 0
  sign : d.isNegative = true ↔ x < 0

/-! ## Rounding to a natural -/

theorem div_eq_quotient_add (num : Nat) {den : Nat} (hden : 0 < den) :
    (num : ℚ) / den = (num / den : Nat) + (num % den : Nat) / den := by
  have hcast : (num : ℚ) = (num / den : Nat) * den + (num % den : Nat) := by
    exact_mod_cast (Nat.div_add_mod' num den).symm
  have hne : (den : ℚ) ≠ 0 := Nat.cast_ne_zero.2 hden.ne'
  rw [div_eq_iff hne, add_mul, div_mul_cancel₀ _ hne]
  exact hcast

/-- The rounded natural is at most half a unit away, and even if it is exactly half a unit away. -/
theorem abs_roundHalfEven_sub_le {num den : Nat} (hden : 0 < den) :
    |(roundHalfEven num den : ℚ) - num / den| ≤ 1 / 2 ∧
      (|(roundHalfEven num den : ℚ) - num / den| = 1 / 2 → roundHalfEven num den % 2 = 0) := by
  have hden' : (0 : ℚ) < den := Nat.cast_pos.2 hden
  have hmod : num % den < den := Nat.mod_lt num hden
  have hdiv := div_eq_quotient_add num hden
  have hpos : (0 : ℚ) ≤ (num % den : Nat) / den :=
    div_nonneg (Nat.cast_nonneg _) (Nat.cast_nonneg _)
  have hlt : ((num % den : Nat) : ℚ) / den < 1 := by
    rw [div_lt_iff₀ hden', one_mul]
    exact_mod_cast hmod
  -- half of the unit, in terms of the remainder
  have hhalf : 2 * (num % den) < den ↔ ((num % den : Nat) : ℚ) / den < 1 / 2 := by
    rw [div_lt_div_iff₀ hden' two_pos, one_mul, mul_comm]
    exact_mod_cast Iff.rfl
  have htie : 2 * (num % den) = den ↔ ((num % den : Nat) : ℚ) / den = 1 / 2 := by
    rw [div_eq_div_iff hden'.ne' two_ne_zero, one_mul, mul_comm]
    exact_mod_cast Iff.rfl
  rw [roundHalfEven]
  split
  · rename_i hdown
    rw [hdiv, sub_add_cancel_left, abs_neg, abs_of_nonneg hpos]
    rw [hhalf, htie] at hdown
    constructor
    · rcases hdown with hlow | ⟨htie', -⟩
      · exact hlow.le
      · exact htie'.le
    · intro heq
      rcases hdown with hlow | ⟨-, heven⟩
      · exact absurd heq hlow.ne
      · exact heven
  · rename_i hup
    obtain ⟨hlow, heven⟩ := not_or.1 hup
    rw [hhalf, not_lt] at hlow
    rw [htie] at heven
    have hsub : ((num / den + 1 : Nat) : ℚ) - ((num / den : Nat) + (num % den : Nat) / den) =
        1 - (num % den : Nat) / den := by
      push_cast
      ring
    rw [hdiv, hsub, abs_of_nonneg (by linarith)]
    constructor
    · linarith
    · intro heq
      have hquotient := not_and.1 heven (by linarith)
      omega

/-- No integer is closer than a natural at most half a unit away. -/
theorem roundHalfEven_closest {num den : Nat} (hden : 0 < den) (k : ℤ) :
    |(roundHalfEven num den : ℚ) - num / den| ≤ |(k : ℚ) - num / den| ∧
      (|(roundHalfEven num den : ℚ) - num / den| = |(k : ℚ) - num / den| →
        (k : ℚ) = roundHalfEven num den ∨ roundHalfEven num den % 2 = 0) := by
  obtain ⟨hhalf, heven⟩ := @abs_roundHalfEven_sub_le num den hden
  generalize roundHalfEven num den = r at hhalf heven ⊢
  generalize (num : ℚ) / den = x at hhalf heven ⊢
  by_cases hk : k = r
  · rw [hk]
    exact ⟨le_refl _, fun _ => .inl rfl⟩
  · -- another integer is a whole unit away from the natural
    have hunit : (1 : ℚ) ≤ |(k : ℚ) - r| := by
      have hint : (1 : ℤ) ≤ |k - r| := Int.one_le_abs (sub_ne_zero.2 hk)
      exact_mod_cast hint
    have htriangle : |(k : ℚ) - r| ≤ |(k : ℚ) - x| + |(r : ℚ) - x| := by
      rw [abs_sub_comm (r : ℚ) x]
      exact abs_sub_le (k : ℚ) x r
    constructor
    · linarith
    · intro heq
      exact .inr (heven (by linarith))

/-! ## The double of a magnitude -/

theorem fraction_ofMagnitude (negative : Bool) (magnitude : Nat) :
    (ofMagnitude negative magnitude).fraction = magnitude % fractionCount := by
  cases negative with
  | true =>
      simp only [fraction, ofMagnitude, fractionCount, signWeight, if_true, UInt64.toNat_ofNat']
      omega
  | false =>
      simp only [fraction, ofMagnitude, fractionCount, Bool.false_eq_true, if_false,
        UInt64.toNat_ofNat']
      omega

section

variable {negative : Bool} {magnitude : Nat} (h : magnitude < infinityMagnitude)

include h

theorem isNegative_ofMagnitude : (ofMagnitude negative magnitude).isNegative = negative := by
  unfold infinityMagnitude fractionCount at h
  cases negative with
  | true =>
      simp only [isNegative, ofMagnitude, signWeight, if_true, UInt64.toNat_ofNat',
        decide_eq_true_eq]
      omega
  | false =>
      simp only [isNegative, ofMagnitude, signWeight, Bool.false_eq_true, if_false,
        UInt64.toNat_ofNat', decide_eq_false_iff_not]
      omega

theorem exponentField_ofMagnitude :
    (ofMagnitude negative magnitude).exponentField = magnitude / fractionCount := by
  unfold infinityMagnitude fractionCount at h
  cases negative with
  | true =>
      simp only [exponentField, ofMagnitude, fractionCount, exponentCount, signWeight, if_true,
        UInt64.toNat_ofNat']
      omega
  | false =>
      simp only [exponentField, ofMagnitude, fractionCount, exponentCount, Bool.false_eq_true,
        if_false, UInt64.toNat_ofNat']
      omega

end

/-- The double whose magnitude is put together from a rounded significand and the place of its unit.
A significand that was rounded up to the next power of two is half as large, with a unit twice as
large. -/
theorem significand_ofMagnitude {negative : Bool} {rounded place : Nat}
    (hrounded : rounded ≤ 2 * fractionCount) (hplace : place = 0 ∨ fractionCount ≤ rounded)
    (h : rounded + place * fractionCount < infinityMagnitude) :
    let d := ofMagnitude negative (rounded + place * fractionCount)
    (d.significand = rounded ∧ d.scale = place - 1074) ∨
      (rounded = 2 * fractionCount ∧ d.significand = fractionCount ∧ d.scale = place - 1073) := by
  intro d
  have hfield : d.exponentField = (rounded + place * fractionCount) / fractionCount :=
    exponentField_ofMagnitude h
  have hfraction : d.fraction = (rounded + place * fractionCount) % fractionCount :=
    fraction_ofMagnitude _ _
  rw [significand, scale]
  unfold fractionCount at *
  by_cases hzero : d.exponentField = 0
  · rw [if_pos hzero]
    omega
  · rw [if_neg hzero]
    omega

/-! ## Doubles around a ratio -/

/-- A double is an integer of at most 53 bits in its unit. -/
theorem exists_toRat_eq (d : Binary64) :
    ∃ k : ℤ, |k| < 2 * fractionCount ∧ d.toRat = k * 2 ^ d.scale := by
  have hlt : (d.significand : ℤ) < 2 * fractionCount := by exact_mod_cast d.significand_lt
  rw [toRat]
  cases d.isNegative with
  | true =>
      refine ⟨-d.significand, ?_, ?_⟩
      · rwa [abs_neg, Nat.abs_cast]
      · simp
  | false =>
      refine ⟨d.significand, ?_, ?_⟩
      · rwa [Nat.abs_cast]
      · simp

/-- A significand of full length outweighs any significand with a smaller unit. -/
theorem mul_zpow_lt {x : ℚ} {a b : ℤ} (hx : x < 2 * fractionCount) (h : a < b) :
    x * 2 ^ a < fractionCount * 2 ^ b := by
  have hunits : (2 : ℚ) * 2 ^ a ≤ 2 ^ b := by
    have hnext := two_zpow_add a 1
    rw [pow_one] at hnext
    rw [← hnext]
    exact two_zpow_le_iff.2 (by omega)
  calc x * 2 ^ a < 2 * fractionCount * 2 ^ a := mul_lt_mul_of_pos_right hx (two_zpow_pos a)
    _ = fractionCount * (2 * 2 ^ a) := by ring
    _ ≤ fractionCount * 2 ^ b := mul_le_mul_of_nonneg_left hunits (Nat.cast_nonneg _)

section

variable {num den : Nat} {place : Int}

/-- No multiple of the unit is closer to a ratio than the rounded one. -/
theorem roundHalfEven_mul_closest (hden : 0 < den) (k : ℤ) :
    let rounded := roundHalfEven (num * Nat.pow 2 (-place).toNat) (den * Nat.pow 2 place.toNat)
    |(rounded : ℚ) * 2 ^ place - num / den| ≤ |(k : ℚ) * 2 ^ place - num / den| ∧
      (|(rounded : ℚ) * 2 ^ place - num / den| = |(k : ℚ) * 2 ^ place - num / den| →
        (k : ℚ) * 2 ^ place = rounded * 2 ^ place ∨ rounded % 2 = 0) := by
  intro rounded
  have hunit := two_zpow_pos place
  have hscaled (x : ℚ) : |x * 2 ^ place - num / den| = |x - num / den / 2 ^ place| * 2 ^ place := by
    have hsplit : x * 2 ^ place - num / den = (x - num / den / 2 ^ place) * 2 ^ place := by
      rw [sub_mul, div_mul_cancel₀ _ hunit.ne']
    rw [hsplit, abs_mul, abs_of_pos hunit]
  have hpos : 0 < den * Nat.pow 2 place.toNat := Nat.mul_pos hden (Nat.pow_pos (by decide))
  obtain ⟨hclosest, heven⟩ :=
    @roundHalfEven_closest (num * Nat.pow 2 (-place).toNat) (den * Nat.pow 2 place.toNat) hpos k
  rw [scaled_ratio] at hclosest heven
  rw [hscaled, hscaled]
  constructor
  · exact mul_le_mul_of_nonneg_right hclosest hunit.le
  · intro heq
    rcases heven (mul_right_cancel₀ hunit.ne' heq) with hsame | heven
    · exact .inl (by rw [hsame])
    · exact .inr heven

/-- No double is closer to a positive ratio than the ratio rounded at its place. A double with a
smaller unit lies below the binade of the ratio, where a multiple of the unit is closer. -/
theorem roundHalfEven_closest_double (hnum : 0 < num) (hden : 0 < den)
    (hplace : max (floorLog2 num den - 52) (-1074) = place) {k scale : ℤ}
    (hk : |k| < 2 * fractionCount) (hscale : -1074 ≤ scale) :
    let rounded := roundHalfEven (num * Nat.pow 2 (-place).toNat) (den * Nat.pow 2 place.toNat)
    |(rounded : ℚ) * 2 ^ place - num / den| ≤ |(k : ℚ) * 2 ^ scale - num / den| ∧
      (|(rounded : ℚ) * 2 ^ place - num / den| = |(k : ℚ) * 2 ^ scale - num / den| →
        (k : ℚ) * 2 ^ scale = rounded * 2 ^ place ∨ rounded % 2 = 0) := by
  intro rounded
  rcases le_or_gt place scale with hle | hlt
  · -- the double is a multiple of the unit
    have hmultiple :
        (k : ℚ) * 2 ^ scale = ((k * 2 ^ (scale - place).toNat : ℤ) : ℚ) * 2 ^ place := by
      have hsplit : scale = place + (scale - place).toNat := by omega
      push_cast
      rw [mul_assoc, ← two_zpow_add, ← hsplit]
    rw [hmultiple]
    exact roundHalfEven_mul_closest hden _
  · have hbinade : (fractionCount : ℚ) * 2 ^ place ≤ num / den := by
      have hfloor : floorLog2 num den = place + (52 : Nat) := by omega
      have hlow := (floorLog2_spec hnum hden).1
      rw [hfloor, two_zpow_add] at hlow
      rw [fractionCount]
      norm_num at hlow ⊢
      exact hlow
    have hbelow : (k : ℚ) * 2 ^ scale < fractionCount * 2 ^ place := by
      apply mul_zpow_lt _ hlt
      exact_mod_cast (le_abs_self k).trans_lt hk
    -- the least number of the binade is a multiple of the unit, and closer than the double
    have hcloser : |((fractionCount : ℤ) : ℚ) * 2 ^ place - num / den| <
        |(k : ℚ) * 2 ^ scale - num / den| := by
      rw [Int.cast_natCast, abs_of_nonpos (by linarith), abs_of_neg (by linarith)]
      linarith
    have hrounded := (@roundHalfEven_mul_closest num den place hden fractionCount).1
    have hlt := hrounded.trans_lt hcloser
    exact ⟨hlt.le, fun heq => absurd heq hlt.ne⟩

end

/-! ## The nearest double -/

theorem div_le_roundHalfEven (num den : Nat) : num / den ≤ roundHalfEven num den := by
  unfold roundHalfEven
  simp only
  split <;> omega

/-- Above the least place, what is rounded has as many bits as a significand. -/
theorem fractionCount_le_roundHalfEven {num den : Nat} {place : Int} (hnum : 0 < num)
    (hden : 0 < den) (hplace : floorLog2 num den - 52 = place) :
    fractionCount ≤
      roundHalfEven (num * Nat.pow 2 (-place).toNat) (den * Nat.pow 2 place.toNat) := by
  have hfloor : floorLog2 num den = place + (52 : Nat) := by omega
  have hlow := (floorLog2_spec hnum hden).1
  rw [hfloor, two_zpow_add, ← le_div_iff₀ (two_zpow_pos place), ← scaled_ratio] at hlow
  have hpos : 0 < den * Nat.pow 2 place.toNat := Nat.mul_pos hden (Nat.pow_pos (by decide))
  rw [le_div_iff₀ (Nat.cast_pos.2 hpos)] at hlow
  have hquotient : fractionCount ≤
      num * Nat.pow 2 (-place).toNat / (den * Nat.pow 2 place.toNat) := by
    rw [Nat.le_div_iff_mul_le hpos, fractionCount]
    exact_mod_cast hlow
  exact hquotient.trans (div_le_roundHalfEven _ _)

/-- The double with the rounded magnitude of a ratio is the rounded multiple of the unit. -/
theorem toRat_ofMagnitude_nearestMagnitude {num den : Nat} {place : Int} (negative : Bool)
    (hnum : 0 < num) (hden : 0 < den) (hplace : max (floorLog2 num den - 52) (-1074) = place)
    (hfinite : nearestMagnitude num den < infinityMagnitude) :
    let rounded := roundHalfEven (num * Nat.pow 2 (-place).toNat) (den * Nat.pow 2 place.toNat)
    let d := ofMagnitude negative (nearestMagnitude num den)
    (d.significand : ℚ) * 2 ^ d.scale = rounded * 2 ^ place ∧
      (rounded % 2 = 0 → d.significand % 2 = 0) := by
  intro rounded d
  have hmagnitude : nearestMagnitude num den =
      rounded + (place + 1074).toNat * fractionCount := by
    rw [nearestMagnitude]
    simp only [hplace]
    rfl
  have hle : rounded ≤ 2 * fractionCount :=
    (roundHalfEven_le _ _).trans (hplace ▸ scaled_quotient_lt hnum hden)
  have hbits : (place + 1074).toNat = 0 ∨ fractionCount ≤ rounded := by
    by_cases hleast : place = -1074
    · exact .inl (by omega)
    · exact .inr (fractionCount_le_roundHalfEven hnum hden (by omega))
  rw [hmagnitude] at hfinite
  have hd : d = ofMagnitude negative (rounded + (place + 1074).toNat * fractionCount) := by
    rw [← hmagnitude]
  rcases significand_ofMagnitude hle hbits hfinite with ⟨hs, hscale⟩ | ⟨htop, hs, hscale⟩
  · rw [← hd] at hs hscale
    have hplace' : d.scale = place := by omega
    rw [hs, hplace']
    exact ⟨rfl, id⟩
  · rw [← hd] at hs hscale
    have hplace' : d.scale = place + (1 : Nat) := by omega
    rw [hs, hplace', htop, two_zpow_add]
    refine ⟨?_, fun _ => by decide⟩
    push_cast
    ring

/-- The number of a double is its magnitude with its sign. -/
theorem exists_toRat_eq_sign (d : Binary64) :
    ∃ sign : ℤ, |sign| = 1 ∧ d.toRat = sign * (d.significand * 2 ^ d.scale) ∧
      ∀ x : ℚ, (if d.isNegative then -x else x) = sign * x := by
  rw [toRat]
  cases d.isNegative with
  | true => exact ⟨-1, rfl, by simp, by simp⟩
  | false => exact ⟨1, rfl, by simp, by simp⟩

/-- **A ratio is rounded to the double nearest to it.** -/
theorem isNearest_ofMagnitude {num den : Nat} (negative : Bool) (hnum : 0 < num) (hden : 0 < den)
    (hfinite : nearestMagnitude num den < infinityMagnitude) :
    (ofMagnitude negative (nearestMagnitude num den)).IsNearest
      (if negative then -(num / den) else num / den) := by
  have hpos : (0 : ℚ) < num / den := div_pos (Nat.cast_pos.2 hnum) (Nat.cast_pos.2 hden)
  obtain ⟨hvalue, heven⟩ :=
    toRat_ofMagnitude_nearestMagnitude negative hnum hden rfl hfinite
  have hfinite' := isFinite_ofMagnitude negative hfinite
  have hnegative : (ofMagnitude negative (nearestMagnitude num den)).isNegative = negative :=
    isNegative_ofMagnitude hfinite
  have hdouble {k scale : ℤ} (hk : |k| < 2 * fractionCount) (hscale : -1074 ≤ scale) :=
    roundHalfEven_closest_double hnum hden rfl hk hscale
  simp only [← hvalue] at hdouble
  generalize ofMagnitude negative (nearestMagnitude num den) = d at *
  obtain ⟨sign, hsign, htoRat, hsigned⟩ := d.exists_toRat_eq_sign
  have hdistance (a b : ℚ) : |sign * a - sign * b| = |a - b| := by
    have hunit : |(sign : ℚ)| = 1 := by exact_mod_cast hsign
    rw [← mul_sub, abs_mul, hunit, one_mul]
  have hclosest (other : Binary64) :
      |d.toRat - sign * (num / den)| ≤ |other.toRat - sign * (num / den)| ∧
        (|d.toRat - sign * (num / den)| = |other.toRat - sign * (num / den)| →
          other.toRat = d.toRat ∨ d.significand % 2 = 0) := by
    -- with the same sign taken from both, the other double is some double around the ratio
    obtain ⟨k, hk, hother⟩ := other.exists_toRat_eq
    have hsquare : (sign : ℚ) * sign = 1 := by
      have hint : sign * sign = 1 := by rw [← abs_mul_abs_self, hsign, one_mul]
      exact_mod_cast hint
    have hother' : other.toRat = sign * (((sign * k : ℤ) : ℚ) * 2 ^ other.scale) := by
      push_cast
      rw [hother, ← mul_assoc, ← mul_assoc, hsquare, one_mul]
    have hbound : |sign * k| < 2 * fractionCount := by rwa [abs_mul, hsign, one_mul]
    obtain ⟨hle, htie⟩ := hdouble hbound other.scale_ge
    rw [htoRat, hother', hdistance, hdistance]
    refine ⟨hle, fun heq => (htie heq).imp (fun hsame => ?_) heven⟩
    rw [hsame]
  rw [← hnegative, hsigned]
  refine ⟨hfinite', fun other _ => (hclosest other).1, fun other _ => (hclosest other).2, ?_⟩
  rw [← hsigned]
  cases d.isNegative with
  | true => simpa using hpos
  | false => simpa using hpos.le

theorem isNearest_zero : (zero false).IsNearest 0 := by
  have hsignificand : (zero false).significand = 0 := by decide
  have hzero : (zero false).toRat = 0 := by simp [toRat, hsignificand]
  constructor
  · exact isFinite_zero false
  · intro other _
    rw [hzero, sub_zero, abs_zero]
    exact abs_nonneg _
  · intro other _ heq
    rw [hzero, sub_zero, sub_zero, abs_zero] at heq
    exact .inl ((abs_eq_zero.1 heq.symm).trans hzero.symm)
  · simp only [lt_irrefl, iff_false]
    decide

/-- **An integer of 64 bits is read as the double nearest to it.** -/
theorem isNearest_ofInt {n : Int} (h : n.natAbs < UInt64.size) : (ofInt n).IsNearest n := by
  rw [ofInt]
  split
  · rename_i hzero
    rw [hzero, Int.cast_zero]
    exact isNearest_zero
  · rename_i hne
    have hvalue : (if decide (n < 0) then -((n.natAbs : ℚ) / (1 : Nat))
        else (n.natAbs : ℚ) / (1 : Nat)) = n := by
      rw [Nat.cast_one, div_one, Nat.cast_natAbs]
      rcases lt_or_ge n 0 with hneg | hnonneg
      · rw [decide_eq_true hneg, if_pos rfl, abs_of_neg hneg, Int.cast_neg, neg_neg]
      · rw [decide_eq_false (not_lt.2 hnonneg), if_neg Bool.false_ne_true, abs_of_nonneg hnonneg]
    have hnearest := isNearest_ofMagnitude (decide (n < 0)) (Int.natAbs_pos.2 hne) Nat.one_pos
      (nearestMagnitude_natAbs_lt_infinity hne h)
    rwa [hvalue] at hnearest

/-! ## One double is nearest -/

/-- Doubles of greater magnitude are further away from zero. -/
theorem lt_of_magnitude_lt {a b : Binary64} (h : a.magnitude < b.magnitude) :
    (a.significand : ℚ) * 2 ^ a.scale < b.significand * 2 ^ b.scale := by
  have ha := a.significand_lt
  have hb := b.significand_lt
  have hbits (d : Binary64) : d.scale = -1074 ∨ fractionCount ≤ d.significand := by
    rw [scale, significand]
    split
    · left
      omega
    · right
      omega
  have hascale := a.scale_ge
  have hbscale := b.scale_ge
  rw [magnitude_eq, magnitude_eq] at h
  rcases lt_trichotomy a.scale b.scale with hlt | heq | hgt
  · -- a significand of full length above outweighs any significand below
    have hfull : (fractionCount : ℚ) ≤ b.significand := by
      rcases hbits b with hleast | hfull
      · omega
      · exact_mod_cast hfull
    have hshort : (a.significand : ℚ) < 2 * fractionCount := by exact_mod_cast ha
    calc (a.significand : ℚ) * 2 ^ a.scale < fractionCount * 2 ^ b.scale := mul_zpow_lt hshort hlt
      _ ≤ b.significand * 2 ^ b.scale := mul_le_mul_of_nonneg_right hfull (two_zpow_pos _).le
  · rw [heq] at h ⊢
    have hless : (a.significand : ℚ) < b.significand := by
      exact_mod_cast Nat.lt_of_add_lt_add_right h
    exact mul_lt_mul_of_pos_right hless (two_zpow_pos _)
  · have hfull := hbits a
    unfold fractionCount at *
    omega

theorem magnitude_ofMagnitude {negative : Bool} {m : Nat} (h : m < infinityMagnitude) :
    (ofMagnitude negative m).magnitude = m := by
  rw [magnitude, exponentField_ofMagnitude h, fraction_ofMagnitude, Nat.div_add_mod']

/-- Of two doubles at the same distance from the number, with the same sign, neither is closest: a
double between them is closer. -/
theorem closer_of_between {d c e : Binary64} {x : ℚ} (hc : c.isNegative = d.isNegative)
    (he : e.isNegative = d.isNegative) (hdc : d.magnitude < c.magnitude)
    (hce : c.magnitude < e.magnitude) (heq : |d.toRat - x| = |e.toRat - x|) :
    |c.toRat - x| < |d.toRat - x| := by
  have hlow := lt_of_magnitude_lt hdc
  have hhigh := lt_of_magnitude_lt hce
  -- the number lies in the middle of the two
  have hmiddle {a b m : ℚ} (ham : a < m) (hmb : m < b) (h : |a - x| = |b - x|) :
      |m - x| < |a - x| := by
    rcases abs_eq_abs.1 h with hsame | hopposite
    · linarith
    · have hneg : a - x < 0 := by linarith
      rw [abs_of_neg hneg, abs_lt]
      constructor
      · linarith
      · linarith
  simp only [toRat, hc, he] at heq ⊢
  cases hsign : d.isNegative with
  | true =>
      simp only [hsign, if_true] at heq ⊢
      rw [heq]
      exact hmiddle (neg_lt_neg hhigh) (neg_lt_neg hlow) heq.symm
  | false =>
      simp only [hsign, Bool.false_eq_true, if_false] at heq ⊢
      exact hmiddle hlow hhigh heq

/-- The significand is even with the magnitude. -/
theorem magnitude_mod_two (d : Binary64) : d.magnitude % 2 = d.significand % 2 := by
  rw [magnitude_eq, fractionCount]
  omega

/-- **A number has one nearest double.** -/
theorem IsNearest.unique {d e : Binary64} {x : ℚ} (hd : d.IsNearest x) (he : e.IsNearest x) :
    d = e := by
  have hsign : e.isNegative = d.isNegative := by rw [Bool.eq_iff_iff, hd.sign, he.sign]
  have heq : |d.toRat - x| = |e.toRat - x| :=
    le_antisymm (hd.closest e he.finite) (he.closest d hd.finite)
  have hmagnitude : d.magnitude = e.magnitude := by
    by_contra hne
    wlog hlt : d.magnitude < e.magnitude generalizing d e with hother
    · exact hother he hd hsign.symm heq.symm (Ne.symm hne) (by omega)
    -- the doubles differ, so both are even, and there is another double between them
    have hdiffer : e.toRat ≠ d.toRat := by
      have hvalues := lt_of_magnitude_lt hlt
      rw [toRat, toRat, hsign]
      split
      · exact fun hsame => hvalues.ne (neg_injective hsame).symm
      · exact hvalues.ne'
    have heven := (hd.even e he.finite heq).resolve_left hdiffer
    have heven' := (he.even d hd.finite heq.symm).resolve_left hdiffer.symm
    rw [← magnitude_mod_two] at heven heven'
    have hbound := magnitude_lt_infinity he.finite
    have hbetween : d.magnitude + 1 < infinityMagnitude := by omega
    let c := ofMagnitude d.isNegative (d.magnitude + 1)
    have hcmagnitude : c.magnitude = d.magnitude + 1 := magnitude_ofMagnitude hbetween
    have hcloser : |c.toRat - x| < |d.toRat - x| :=
      closer_of_between (isNegative_ofMagnitude hbetween) hsign (by omega) (by omega) heq
    exact absurd (hd.closest c (isFinite_ofMagnitude _ hbetween)) (not_le.2 hcloser)
  rw [← d.ofMagnitude_magnitude, ← e.ofMagnitude_magnitude, hsign, hmagnitude]

end DocQuery.Binary64
