import DocQuery.Proofs.Binary64.Nearest

/-!
# The shortest decimal reads back

Every point that the search for the shortest decimal accepts lies in the interval of the double, and
so does the exact decimal (`near_shortest`).
-/

set_option autoImplicit false

namespace DocQuery

/-- The number that a decimal stands for. -/
def Decimal.toRat (x : Decimal) : ℚ := x.coefficient * 10 ^ x.exponent

namespace Binary64

/-! ## Points of a grid -/

/-- Points of a grid and quarters of the last place are compared on a common scale. -/
theorem exists_common_unit (d : Binary64) (k : Int) :
    ∃ unit : ℚ, 0 < unit ∧ (d.gridUnit k : ℚ) = 10 ^ k * unit ∧
      (d.quarterUnit k : ℚ) = 2 ^ (d.scale - 2) * unit := by
  refine ⟨(Nat.pow 10 (-k).toNat : Nat) * (Nat.pow 2 (2 - d.scale).toNat : Nat), ?_, ?_, ?_⟩
  · exact mul_pos (Nat.cast_pos.2 (Nat.pow_pos (by decide)))
      (Nat.cast_pos.2 (Nat.pow_pos (by decide)))
  · rw [gridUnit, Nat.cast_mul, cast_pow_toNat (by decide) k, Nat.cast_ofNat]
    ring
  · have hneg : -(d.scale - 2) = 2 - d.scale := by omega
    rw [quarterUnit, Nat.cast_mul, cast_pow_toNat (by decide) (d.scale - 2), hneg, Nat.cast_ofNat]
    ring

/-- A point of a grid is accepted when it lies in the interval. -/
theorem admits_iff (d : Binary64) (c : Nat) (k : Int) :
    d.admits c k = true ↔ d.Near (c * 10 ^ k) := by
  obtain ⟨unit, hunit, hgrid, hquarter⟩ := d.exists_common_unit k
  have hle {q : Nat} : q * d.quarterUnit k ≤ c * d.gridUnit k ↔
      (q * 2 ^ (d.scale - 2) : ℚ) ≤ c * 10 ^ k := by
    rw [← Nat.cast_le (α := ℚ), Nat.cast_mul, Nat.cast_mul, hgrid, hquarter, ← mul_assoc,
      ← mul_assoc, mul_le_mul_iff_left₀ hunit]
  have hge {q : Nat} : c * d.gridUnit k ≤ q * d.quarterUnit k ↔
      (c * 10 ^ k : ℚ) ≤ q * 2 ^ (d.scale - 2) := by
    rw [← Nat.cast_le (α := ℚ), Nat.cast_mul, Nat.cast_mul, hgrid, hquarter, ← mul_assoc,
      ← mul_assoc, mul_le_mul_iff_left₀ hunit]
  rw [admits, Near]
  split
  · rw [decide_eq_true_eq, hle, hge]
    rfl
  · rw [decide_eq_true_eq, ← not_le, ← not_le, hle, hge, not_le, not_le]
    rfl

theorem nearer_eq_or (d : Binary64) (tie : TieRule) (c : Nat) (k : Int) :
    d.nearer tie c k = c ∨ d.nearer tie c k = c + 1 := by
  unfold nearer
  simp only
  split
  · exact .inl rfl
  · split
    · exact .inr rfl
    · cases tie with
      | toEven =>
          simp only
          split
          · exact .inl rfl
          · exact .inr rfl
      | up => exact .inr rfl

/-- The point found on a grid lies in the interval. -/
theorem near_of_gridPoint? {d : Binary64} {tie : TieRule} {k : Int} {x : Decimal}
    (h : d.gridPoint? tie k = some x) : d.Near x.toRat := by
  rw [gridPoint?] at h
  split at h
  · -- both neighbours are accepted, and the nearer one is taken
    rename_i hbelow habove
    cases h
    rcases d.nearer_eq_or tie (4 * d.significand * d.quarterUnit k / d.gridUnit k) k with hc | hc
    · rw [Decimal.toRat, hc]
      exact (d.admits_iff _ k).1 hbelow
    · rw [Decimal.toRat, hc]
      exact (d.admits_iff _ k).1 habove
  · rename_i hbelow habove
    cases h
    exact (d.admits_iff _ k).1 hbelow
  · rename_i hbelow habove
    cases h
    exact (d.admits_iff _ k).1 habove
  · cases h

/-! ## The exact decimal -/

theorem toRat_exactDecimal (d : Binary64) : d.exactDecimal.toRat = d.significand * 2 ^ d.scale := by
  rw [exactDecimal]
  split
  · rename_i h
    rw [Decimal.toRat, Nat.pow_eq, zpow_zero, mul_one, Nat.cast_mul, Nat.cast_pow,
      ← zpow_natCast, Int.toNat_of_nonneg h, Nat.cast_ofNat]
  · rename_i h
    have hfive : ((5 : Nat) : ℚ) ^ ((-d.scale).toNat : Int) = 5 ^ (-d.scale) := by
      rw [Int.toNat_of_nonneg (by omega), Nat.cast_ofNat]
    have hten : (10 : ℚ) ^ d.scale = 5 ^ d.scale * 2 ^ d.scale := by
      rw [← mul_zpow]
      norm_num
    have hinv : (5 : ℚ) ^ (-d.scale) * 5 ^ d.scale = 1 := by
      rw [← zpow_add₀ (by norm_num), neg_add_cancel, zpow_zero]
    rw [Decimal.toRat, Nat.pow_eq, Nat.cast_mul, Nat.cast_pow, ← zpow_natCast, hfive, hten,
      mul_assoc, ← mul_assoc _ (_ ^ d.scale), hinv, one_mul]

theorem near_exactDecimal {d : Binary64} (hs : d.significand ≠ 0) : d.Near d.exactDecimal.toRat := by
  rw [toRat_exactDecimal, ← value]
  exact near_value hs

/-- **The shortest decimal of a double lies in its interval.** -/
theorem near_shortest {d : Binary64} (hs : d.significand ≠ 0) (tie : TieRule) :
    d.Near (d.shortest tie).toRat := by
  rw [shortest]
  cases h : (List.range 24).findSome? fun (i : Nat) => d.gridPoint? tie (d.topExponent - (i : Int)) with
  | none =>
      -- no grid in the search has a point
      exact near_exactDecimal hs
  | some x =>
      obtain ⟨i, -, hi⟩ := List.exists_of_findSome?_eq_some h
      exact near_of_gridPoint? hi

end Binary64

end DocQuery
