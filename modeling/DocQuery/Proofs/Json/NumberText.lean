import DocQuery.Proofs.Binary64.Arithmetic
import DocQuery.Proofs.Binary64.Shortest
import DocQuery.Proofs.Json.NumeralText

/-!
# Numbers read back

The text of a double is a numeral with a fraction or an exponent, and the number that the numeral
stands for lies in the interval of the double (`Numeral.exists_writtenFor`). The reader rounds the
digits before it scales them, so it need not come back to the double (`Binary64.ReadsBack`). It does
where digits and power are small enough to be doubles themselves (`Binary64.readsBack_of_digits`).
-/

set_option autoImplicit false

namespace DocQuery.Json

open Text

namespace Numeral

/-- The digits before and behind the point, as a number. -/
def digitsValue (n : Numeral) : Nat := value (n.whole ++ n.fraction.getD [])

/-- The power of ten that scales all the digits. -/
def digitsPower (n : Numeral) : Int := n.exponent.getD 0 - ((n.fraction.getD []).length : Int)

/-- The number that a numeral stands for, without its sign. -/
def toRat (n : Numeral) : ℚ := n.digitsValue * 10 ^ n.digitsPower

/-- The numeral is written as its sign and the given text, and stands for the given decimal. It is
no integer, because it has a fraction or an exponent. -/
structure Spells (n : Numeral) (x : Decimal) (cs : List Char) : Prop where
  spelled : n.IsSpelled
  write : n.write = writeSign n.negative ++ cs
  marked : ¬ (n.fraction = none ∧ n.exponent = none)
  toRat : n.toRat = x.toRat

/-- The numeral of a decimal with a point among its digits. -/
def positional (negative : Bool) (x : Decimal) : Numeral :=
  let ds := digits x.coefficient
  let e := Binary64.leadingExponent x
  if 0 ≤ x.exponent then
    ⟨negative, ds ++ List.replicate x.exponent.toNat '0', some ['0'], none⟩
  else if 0 ≤ e then ⟨negative, ds.take (e + 1).toNat, some (ds.drop (e + 1).toNat), none⟩
  else ⟨negative, ['0'], some (List.replicate (-e - 1).toNat '0' ++ ds), none⟩

/-- The numeral of a decimal with one digit before the point and an exponent. -/
def exponential (negative : Bool) (x : Decimal) : Numeral :=
  let ds := digits x.coefficient
  ⟨negative, ds.take 1, if ds.length ≤ 1 then none else some (ds.drop 1),
    some (Binary64.leadingExponent x)⟩

/-- The leading digits of a number other than zero are a whole part. -/
theorem whole_take_digits {n k : Nat} (hn : n ≠ 0) (hk : 0 < k) :
    (digits n).take k ≠ [] ∧ AllDigits ((digits n).take k) ∧
      ((digits n).take k).head? ≠ some '0' := by
  refine ⟨?_, (allDigits_digits n).take k, ?_⟩
  · intro h
    rcases List.take_eq_nil_iff.1 h with hzero | hnil
    · omega
    · exact digits_ne_nil n hnil
  · rw [List.head?_take, if_neg (by omega)]
    exact head?_digits_ne_zero hn

/-- An integer is written with all its zeros, and with a zero behind the point. -/
theorem spells_trailingZeros (negative : Bool) {x : Decimal} (hx : x.coefficient ≠ 0)
    (hexponent : 0 ≤ x.exponent) :
    Spells ⟨negative, digits x.coefficient ++ List.replicate x.exponent.toNat '0', some ['0'], none⟩
      x (digits x.coefficient ++ List.replicate x.exponent.toNat '0' ++ ['.', '0']) := by
  refine ⟨⟨?_, ?_, ?_, ?_⟩, ?_, ?_, ?_⟩
  · exact List.append_ne_nil_of_left_ne_nil (digits_ne_nil _) _
  · exact (allDigits_digits _).append (allDigits_zeros _)
  · intro hhead
    rw [List.head?_append_of_ne_nil _ (digits_ne_nil _)] at hhead
    exact absurd hhead (head?_digits_ne_zero hx)
  · rintro ds ⟨⟩
    exact ⟨List.cons_ne_nil _ _, allDigits_zeros 1⟩
  · simp [write, writeFraction, writeExponent]
  · simp
  · have hzeros : value (digits x.coefficient ++ List.replicate x.exponent.toNat '0' ++ ['0']) =
        x.coefficient * 10 ^ x.exponent.toNat * 10 := by
      rw [value_append_digit, value_append, value_digits, value_zeros, List.length_replicate]
      show 10 * (x.coefficient * 10 ^ x.exponent.toNat + 0) + 0 = _
      ring
    -- the zero behind the point makes the number ten times as large, and its place undoes that
    rw [toRat, digitsValue, digitsPower, Option.getD_some, hzeros]
    push_cast
    rw [← zpow_natCast, Int.toNat_of_nonneg hexponent, Decimal.toRat]
    simp

/-- The point stands among the digits, behind the first `k`. -/
theorem spells_pointInside (negative : Bool) {x : Decimal} (hx : x.coefficient ≠ 0) {k : Nat}
    (hk : 0 < k) (hlt : k < (digits x.coefficient).length)
    (hexponent : x.exponent = (k : Int) - (digits x.coefficient).length) :
    Spells ⟨negative, (digits x.coefficient).take k, some ((digits x.coefficient).drop k), none⟩
      x ((digits x.coefficient).take k ++ '.' :: (digits x.coefficient).drop k) := by
  obtain ⟨hne, hdigits, hhead⟩ := whole_take_digits hx hk
  have hfraction : (digits x.coefficient).drop k ≠ [] := by
    intro hnil
    exact absurd (List.drop_eq_nil_iff.1 hnil) (Nat.not_le.2 hlt)
  refine ⟨⟨hne, hdigits, fun hzero => absurd hzero hhead, ?_⟩, ?_, ?_, ?_⟩
  · rintro ds ⟨⟩
    exact ⟨hfraction, (allDigits_digits _).drop _⟩
  · simp [write, writeFraction, writeExponent]
  · simp
  · rw [toRat, digitsValue, digitsPower, Option.getD_some, List.take_append_drop, value_digits,
      Decimal.toRat]
    congr 2
    rw [List.length_drop, Option.getD_none]
    omega

/-- The digits stand behind the point, after some zeros. -/
theorem spells_leadingZeros (negative : Bool) (x : Decimal) {zeros : Nat}
    (hexponent : x.exponent = -(zeros + (digits x.coefficient).length : Int)) :
    Spells ⟨negative, ['0'], some (List.replicate zeros '0' ++ digits x.coefficient), none⟩
      x ('0' :: '.' :: List.replicate zeros '0' ++ digits x.coefficient) := by
  refine ⟨⟨List.cons_ne_nil _ _, allDigits_zeros 1, fun _ => rfl, ?_⟩, ?_, ?_, ?_⟩
  · rintro ds ⟨⟩
    exact ⟨List.append_ne_nil_of_right_ne_nil _ (digits_ne_nil _),
      (allDigits_zeros _).append (allDigits_digits _)⟩
  · simp [write, writeFraction, writeExponent]
  · simp
  · have hvalue : value (['0'] ++ (List.replicate zeros '0' ++ digits x.coefficient)) =
        x.coefficient := by
      rw [← List.append_assoc, List.singleton_append, ← List.replicate_succ, value_append,
        value_zeros, value_digits, Nat.zero_mul, Nat.zero_add]
    rw [toRat, digitsValue, digitsPower, Option.getD_some, hvalue, Decimal.toRat]
    congr 2
    rw [List.length_append, List.length_replicate, Option.getD_none]
    omega

theorem spells_positional (negative : Bool) {x : Decimal} (hx : x.coefficient ≠ 0) :
    (positional negative x).Spells x (Binary64.writePositional x) := by
  have hlength := List.length_pos_iff.2 (digits_ne_nil x.coefficient)
  have hlead : Binary64.leadingExponent x =
      x.exponent + ((digits x.coefficient).length : Int) - 1 := rfl
  rw [positional, Binary64.writePositional]
  generalize Binary64.leadingExponent x = e at hlead ⊢
  by_cases hexponent : 0 ≤ x.exponent
  · rw [if_pos hexponent, if_pos hexponent]
    exact spells_trailingZeros negative hx hexponent
  · rw [if_neg hexponent, if_neg hexponent]
    by_cases hpoint : 0 ≤ e
    · rw [if_pos hpoint, if_pos hpoint]
      apply spells_pointInside negative hx
      · omega
      · omega
      · omega
    · rw [if_neg hpoint, if_neg hpoint]
      apply spells_leadingZeros
      omega

theorem spells_exponential (negative : Bool) {x : Decimal} (hx : x.coefficient ≠ 0) :
    (exponential negative x).Spells x (Binary64.writeExponential .wire x) := by
  have hlength := List.length_pos_iff.2 (digits_ne_nil x.coefficient)
  have hlead : Binary64.leadingExponent x =
      x.exponent + ((digits x.coefficient).length : Int) - 1 := rfl
  have hwhole := whole_take_digits hx Nat.one_pos
  rw [exponential, Binary64.writeExponential]
  generalize Binary64.leadingExponent x = e at hlead ⊢
  simp only [Binary64.Layout.wire, if_true]
  refine ⟨⟨hwhole.1, hwhole.2.1, fun hhead => absurd hhead hwhole.2.2, ?_⟩, ?_, ?_, ?_⟩
  · intro ds hds
    simp only at hds
    split at hds
    · cases hds
    · cases hds
      refine ⟨?_, (allDigits_digits _).drop 1⟩
      intro hnil
      rw [List.drop_eq_nil_iff] at hnil
      omega
  · -- a single digit has no point behind it
    rw [write]
    simp only [writeExponent]
    by_cases hshort : (digits x.coefficient).length ≤ 1
    · simp only [if_pos hshort, writeFraction, List.drop_eq_nil_iff.2 hshort]
      split <;> simp
    · simp only [if_neg hshort, writeFraction]
      split <;> simp
  · rintro ⟨-, hnone⟩
    cases hnone
  · have hdrop : (if (digits x.coefficient).length ≤ 1 then none
        else some ((digits x.coefficient).drop 1)).getD [] = (digits x.coefficient).drop 1 := by
      by_cases hshort : (digits x.coefficient).length ≤ 1
      · rw [if_pos hshort, List.drop_eq_nil_iff.2 hshort, Option.getD_none]
      · rw [if_neg hshort, Option.getD_some]
    rw [toRat, digitsValue, digitsPower, hdrop, List.take_append_drop, value_digits, Decimal.toRat]
    congr 2
    rw [List.length_drop, Option.getD_some]
    omega

/-! ## The double of a numeral -/

theorem value_cons (c : Char) (cs : List Char) :
    value (c :: cs) = digitValue c * 10 ^ cs.length + value cs := by
  have happend := value_append [c] cs
  have hsingle : value [c] = digitValue c := by simp [value]
  rwa [List.singleton_append, hsingle] at happend

theorem takeDigits_lt {n : Nat} (hn : n < UInt64.size) (ds : List Char) :
    (takeDigits n ds).1 < UInt64.size := by
  induction ds generalizing n with
  | nil => exact hn
  | cons c cs ih =>
      rw [takeDigits]
      split
      · exact ih ‹_›
      · exact hn

/-- Digits that fit together are all taken. -/
theorem takeDigits_eq {n : Nat} {ds : List Char} (h : n * 10 ^ ds.length + value ds < UInt64.size) :
    takeDigits n ds = (n * 10 ^ ds.length + value ds, []) := by
  induction ds generalizing n with
  | nil => simp [takeDigits, value]
  | cons c cs ih =>
      have hsplit : n * 10 ^ (c :: cs).length + value (c :: cs) =
          (10 * n + digitValue c) * 10 ^ cs.length + value cs := by
        rw [value_cons, List.length_cons]
        ring
      rw [hsplit] at h ⊢
      -- what the digits up to this one make is no larger than what all of them make
      have hle : 10 * n + digitValue c ≤ (10 * n + digitValue c) * 10 ^ cs.length :=
        Nat.le_mul_of_pos_right _ (Nat.pow_pos (by decide))
      rw [takeDigits, if_pos (by omega), ih h]

/-- Digits that fit together are all taken, from the whole part and from the fraction. -/
theorem taken_eq {n : Numeral} (h : n.digitsValue < UInt64.size) :
    n.takenWhole.2 = [] ∧ n.taken = (n.digitsValue, []) := by
  rw [digitsValue, value_append] at h
  have hle : value n.whole ≤ value n.whole * 10 ^ (n.fraction.getD []).length :=
    Nat.le_mul_of_pos_right _ (Nat.pow_pos (by decide))
  have hwhole : n.takenWhole = (value n.whole, []) := by
    rw [takenWhole, takeDigits_eq (by omega), Nat.zero_mul, Nat.zero_add]
  rw [taken, hwhole]
  refine ⟨rfl, ?_⟩
  rw [takeDigits_eq h, digitsValue, value_append]

/-- **A numeral denotes finite doubles only.** -/
theorem isFinite_of_toDouble? {n : Numeral} {d : Binary64} (h : n.toDouble? = some d) :
    d.isFinite = true := by
  rw [toDouble?] at h
  obtain ⟨r, hscaled, rfl⟩ := Option.map_eq_some_iff.1 h
  have hsize : n.significand < UInt64.size := takeDigits_lt (takeDigits_lt (by decide) _) _
  have hfinite := Binary64.isFinite_of_scale10? (Binary64.isFinite_ofRatio_one hsize) hscaled
  exact Binary64.isFinite_ofMagnitude _ (Binary64.magnitude_lt_infinity hfinite)

/-- What a numeral denotes is a number of a document. -/
theorem toNumber?_of_toDouble? {n : Numeral} (hinteger : ¬ n.IsInteger) {d : Binary64}
    (h : n.toDouble? = some d) : n.toNumber? = some (.double d (isFinite_of_toDouble? h)) := by
  rw [toNumber?, dif_neg hinteger, h]
  exact dif_pos (isFinite_of_toDouble? h)

/-- **Few digits and a small power are read exactly.** If the digits of a numeral make a number of at
most 53 bits and the power that scales them is at most the twenty-second, the numeral denotes the
double in whose interval it lies. -/
theorem toDouble?_of_near {d : Binary64} (hd : d.isFinite = true) (hs : d.significand ≠ 0)
    {n : Numeral} (hsign : n.negative = d.isNegative)
    (hdigits : n.digitsValue < 2 * Binary64.fractionCount) (hpower : n.digitsPower.natAbs ≤ 22)
    (h : d.Near n.toRat) : n.toDouble? = some d := by
  obtain ⟨hleft, htaken⟩ := taken_eq (hdigits.trans (by decide))
  have hsignificand : n.significand = n.digitsValue := by rw [significand, htaken]
  have hscale : n.power = n.digitsPower := by
    rw [power, htaken, hleft, digitsPower]
    simp
  rw [toDouble?, hsignificand, hscale, Binary64.scale10?_eq hd hs hdigits hpower h, hsign,
    Option.map_some, Binary64.withSign, Binary64.withSign,
    Binary64.magnitude_ofMagnitude (Binary64.magnitude_lt_infinity hd),
    Binary64.ofMagnitude_magnitude]

/-- A numeral without a digit other than zero denotes zero. -/
theorem toDouble?_of_digitsValue {n : Numeral} (h : n.digitsValue = 0) :
    n.toDouble? = some (.zero n.negative) := by
  obtain ⟨-, htaken⟩ := taken_eq (h.trans_lt (by decide))
  have hsignificand : n.significand = 0 := by rw [significand, htaken, h]
  have hzero : Binary64.ofRatio 0 1 = .zero false := rfl
  have hmagnitude : (Binary64.zero false).magnitude = 0 := by decide
  rw [toDouble?, hsignificand, hzero, Binary64.scale10?_zero, Option.map_some, Binary64.withSign,
    hmagnitude, Binary64.zero]

/-! ## The numeral of a double -/

theorem eq_zero_of_significand {d : Binary64} (hs : d.significand = 0) :
    d = Binary64.zero d.isNegative := by
  have hmagnitude : d.magnitude = 0 := by
    rw [Binary64.significand] at hs
    split at hs
    · rename_i hfield
      rw [Binary64.magnitude, hfield, hs]
      rfl
    · rw [Binary64.fractionCount] at hs
      omega
  rw [Binary64.zero, ← hmagnitude, Binary64.ofMagnitude_magnitude]

/-- The sign and the magnitude of a finite double are written one after the other. -/
theorem write_of_isFinite {d : Binary64} (hd : d.isFinite = true) (layout : Binary64.Layout) :
    d.write layout = writeSign d.isNegative ++ d.writeMagnitude layout := by
  have hnan : d.isNaN = false := by
    rw [Binary64.isFinite, decide_eq_true_eq] at hd
    exact decide_eq_false fun h => hd h.1
  rw [Binary64.write, if_neg (by rw [hnan]; exact Bool.false_ne_true), if_pos hd, writeSign]
  cases d.isNegative <;> rfl

/-- The numeral is the one that is written for the double. It is no integer, it stands for a number
in the interval of the double, and for zero if the double is zero. -/
structure WrittenFor (n : Numeral) (d : Binary64) : Prop where
  spelled : n.IsSpelled
  write : n.write = d.write .wire
  notInteger : ¬ n.IsInteger
  sign : n.negative = d.isNegative
  zero : d.significand = 0 → n.digitsValue = 0
  near : d.significand ≠ 0 → d.Near n.toRat

/-- **The text of a finite double is a numeral.** -/
theorem exists_writtenFor {d : Binary64} (hd : d.isFinite = true) : ∃ n : Numeral, n.WrittenFor d := by
  by_cases hs : d.significand = 0
  · -- zero keeps its sign
    refine ⟨⟨d.isNegative, ['0'], some ['0'], none⟩, ?_, ?_, ?_, rfl, fun _ => rfl, absurd hs⟩
    · refine ⟨List.cons_ne_nil _ _, allDigits_zeros 1, fun _ => rfl, ?_⟩
      rintro ds ⟨⟩
      exact ⟨List.cons_ne_nil _ _, allDigits_zeros 1⟩
    · rw [write_of_isFinite hd, Binary64.writeMagnitude, if_pos hs]
      rfl
    · rintro ⟨⟨hnone, -⟩, -⟩
      cases hnone
  · have hnear := Binary64.near_shortest hs Binary64.Layout.wire.tie
    -- the interval lies above zero, so the shortest decimal in it has a digit
    have hcoefficient : (d.shortest Binary64.Layout.wire.tie).coefficient ≠ 0 := by
      intro hzero
      have hlow := (Binary64.lowerEnd_gt hs).trans hnear.bounds.1
      rw [Decimal.toRat, hzero, Nat.cast_zero, zero_mul] at hlow
      exact absurd hlow (not_le.2 (Binary64.two_zpow_pos _))
    have hspells : ∃ n : Numeral, n.negative = d.isNegative ∧
        n.Spells (d.shortest Binary64.Layout.wire.tie) (d.writeMagnitude .wire) := by
      rw [Binary64.writeMagnitude, if_neg hs, Binary64.writeDecimal]
      split
      · refine ⟨_, ?_, spells_positional d.isNegative hcoefficient⟩
        rw [positional]
        split
        · rfl
        · split <;> rfl
      · exact ⟨_, rfl, spells_exponential d.isNegative hcoefficient⟩
    obtain ⟨n, hsign, h⟩ := hspells
    refine ⟨n, h.spelled, ?_, fun hinteger => h.marked hinteger.1, hsign, fun hzero => ?_, ?_⟩
    · rw [write_of_isFinite hd, h.write, hsign]
    · exact absurd hzero hs
    · intro _
      rw [h.toRat]
      exact hnear

theorem ends_nil : Ends [] := by
  rintro c ⟨⟩

theorem WrittenFor.read_write {n : Numeral} {d : Binary64} (h : n.WrittenFor d) :
    read (d.write .wire) = some (n, []) := by
  have hread := Numeral.read_write h.spelled ends_nil
  rwa [List.append_nil, h.write] at hread

end Numeral

end DocQuery.Json

namespace DocQuery.Binary64

open Json (Numeral)

/-! ## Doubles that are read back -/

/-- The numeral that is written for the double is read as the double. The reader computes with
doubles, so this is not so for all of them. -/
def ReadsBack (d : Binary64) : Prop :=
  (Numeral.read (d.write .wire)).bind (fun result => result.1.toDouble?) = some d

instance (d : Binary64) : Decidable d.ReadsBack := inferInstanceAs (Decidable (_ = _))

theorem readsBack_iff {d : Binary64} {n : Numeral} (h : n.WrittenFor d) :
    d.ReadsBack ↔ n.toDouble? = some d := by
  rw [ReadsBack, h.read_write, Option.bind_some]

/-- **Doubles with short numerals are read back:** those whose digits make a number of at most 53
bits, scaled by a power of ten up to the twenty-second. -/
theorem readsBack_of_digits {d : Binary64} (hd : d.isFinite = true) {n : Numeral}
    (hread : Numeral.read (d.write .wire) = some (n, []))
    (hdigits : n.digitsValue < 2 * fractionCount) (hpower : n.digitsPower.natAbs ≤ 22) :
    d.ReadsBack := by
  obtain ⟨n', h⟩ := Numeral.exists_writtenFor hd
  rw [h.read_write] at hread
  cases hread
  rw [readsBack_iff h]
  by_cases hs : d.significand = 0
  · rw [Numeral.toDouble?_of_digitsValue (h.zero hs), h.sign, ← Numeral.eq_zero_of_significand hs]
  · exact Numeral.toDouble?_of_near hd hs h.sign hdigits hpower (h.near hs)

/-- The double that is written as 0.5. -/
def half : Binary64 := ⟨4602678819172646912⟩

theorem write_half : half.write .wire = ['0', '.', '5'] := by
  have hshortest : half.shortest Layout.wire.tie = ⟨5, -1⟩ := by rfl
  have hdigit : Text.digits 5 = ['5'] := Text.digits_of_lt (by decide)
  have hlead : leadingExponent ⟨5, -1⟩ = -1 := by
    rw [leadingExponent, hdigit]
    rfl
  rw [Numeral.write_of_isFinite (by decide), writeMagnitude, if_neg (by decide), hshortest,
    writeDecimal, hlead, if_pos (by decide), writePositional, if_neg (by decide), hlead,
    if_neg (by decide), hdigit]
  rfl

theorem readsBack_half : half.ReadsBack := by
  have hread : Numeral.read (half.write .wire) =
      some (⟨false, ['0'], some ['5'], none⟩, []) := by
    rw [write_half]
    rfl
  exact readsBack_of_digits (by decide) hread (by decide) (by decide)

/-! ## A double that is not read back -/

/-- The double nearest to 3e+23, which is also how it is written. -/
def misread : Binary64 := ⟨4958396687196483698⟩

/-- The numeral that is written for it. -/
def misreadNumeral : Numeral := ⟨false, ['3'], none, some 23⟩

theorem write_misread : misread.write .wire = misreadNumeral.write := by
  have hshortest : misread.shortest Layout.wire.tie = ⟨3, 23⟩ := by rfl
  have hdigit : Text.digits 3 = ['3'] := Text.digits_of_lt (by decide)
  have hexponent : Text.digits (23 : Int).natAbs = ['2', '3'] := by
    rw [Text.digits_of_ge (by decide), Text.digits_of_lt (by decide)]
    rfl
  have hlead : leadingExponent ⟨3, 23⟩ = 23 := by
    rw [leadingExponent, hdigit]
    rfl
  rw [Numeral.write_of_isFinite (by decide), writeMagnitude, if_neg (by decide), hshortest,
    writeDecimal, hlead, if_neg (by decide), writeExponential, hlead, hdigit, hexponent,
    Numeral.write, misreadNumeral, Numeral.writeExponent, hexponent]
  rfl

/-- The power of ten is rounded before it is multiplied by the digit, and the product is the double
below. -/
theorem toDouble?_misreadNumeral : misreadNumeral.toDouble? = some ⟨4958396687196483697⟩ := by
  have hsignificand : misreadNumeral.significand = 3 := by rfl
  have hpower : misreadNumeral.power = 23 := by rfl
  rw [Numeral.toDouble?, hsignificand, hpower, scale10?, if_pos (by decide), if_pos (by decide)]
  rfl

end DocQuery.Binary64

namespace DocQuery.Json

/-! ## Numbers that are read back -/

/-- The text of the number is read as the number. -/
def Number.ReadsBack : Number → Prop
  | .integer _ _ => True
  | .double d _ => d.ReadsBack

instance : DecidablePred Number.ReadsBack
  | .integer _ _ => inferInstanceAs (Decidable True)
  | .double d _ => inferInstanceAs (Decidable d.ReadsBack)

/-- **Every number of a document is written as a numeral,** which denotes it if it is read back. -/
theorem Number.exists_numeral {number : Number} (h : number.ReadsBack) :
    ∃ n : Numeral, n.IsSpelled ∧ n.write = number.write ∧ n.toNumber? = some number := by
  cases number with
  | integer n fits =>
      refine ⟨Numeral.ofInt n, ?_, Numeral.write_ofInt n, Numeral.toNumber?_ofInt fits⟩
      refine Numeral.isSpelled_digits ?_
      rintro ds ⟨⟩
  | double d finite =>
      obtain ⟨n, hn⟩ := Numeral.exists_writtenFor finite
      refine ⟨n, hn.spelled, hn.write, ?_⟩
      exact Numeral.toNumber?_of_toDouble? hn.notInteger ((Binary64.readsBack_iff hn).1 h)

end DocQuery.Json
