import DocQuery.Calendar.Date
import Mathlib.Algebra.BigOperators.Intervals
import Mathlib.Algebra.Order.BigOperators.Group.Finset

/-!
# Numbered days

The days of the calendar in a row: the first of January of the year 1 is day 1. Later dates have
higher numbers (`Date.before_iff`), so a date is determined by its number, and the day after a date
and the day before it are the ones with the next number and the previous one
(`Date.next?_eq_some_iff`, `Date.previous?_eq_some_iff`).
-/

set_option autoImplicit false

namespace DocQuery

namespace Calendar

/-! ## Days before a month and before a year -/

/-- The days of a year that lie before a month. -/
def daysBeforeMonth (year : Int) (month : Nat) : Nat :=
  ∑ earlier ∈ Finset.Ico 1 month, daysInMonth year earlier

/-- The days of the years from year 1 on that lie before a year. They are counted down in the years
before. -/
def daysBeforeYear (year : Int) : Int :=
  365 * (year - 1) + (year - 1) / 4 - (year - 1) / 100 + (year - 1) / 400

theorem daysBeforeMonth_one (year : Int) : daysBeforeMonth year 1 = 0 := rfl

theorem daysBeforeMonth_succ (year : Int) {month : Nat} (h : 1 ≤ month) :
    daysBeforeMonth year (month + 1) = daysBeforeMonth year month + daysInMonth year month :=
  Finset.sum_Ico_succ_top h (daysInMonth year)

theorem daysBeforeMonth_mono (year : Int) {month later : Nat} (h : month ≤ later) :
    daysBeforeMonth year month ≤ daysBeforeMonth year later :=
  Finset.sum_le_sum_of_subset (Finset.Ico_subset_Ico_right h)

theorem one_le_daysInMonth (year : Int) (month : Nat) : 1 ≤ daysInMonth year month := by
  rw [daysInMonth]
  split
  · split <;> decide
  · split <;> decide

/-- Twelve months make a year. -/
theorem daysBeforeMonth_thirteen (year : Int) :
    daysBeforeMonth year 13 = 365 + if isLeapYear year then 1 else 0 := by
  rw [daysBeforeMonth]
  cases h : isLeapYear year <;> simp [Finset.sum_Ico_succ_top, daysInMonth, h]

theorem daysBeforeYear_succ (year : Int) :
    daysBeforeYear (year + 1) = daysBeforeYear year + daysBeforeMonth year 13 := by
  rw [daysBeforeMonth_thirteen, daysBeforeYear, daysBeforeYear, isLeapYear]
  simp only [Bool.and_eq_true, Bool.or_eq_true, beq_iff_eq, bne_iff_ne, ne_eq]
  split <;> omega

theorem daysBeforeYear_mono {year later : Int} (h : year ≤ later) :
    daysBeforeYear year ≤ daysBeforeYear later := by
  induction later, h using Int.leInduction with
  | base => exact le_refl _
  | succ later h ih =>
      rw [daysBeforeYear_succ]
      omega

end Calendar

open Calendar

namespace Date

/-- The number of a day, where the first of January of the year 1 is day 1. -/
def dayNumber (d : Date) : Int :=
  daysBeforeYear d.year + daysBeforeMonth d.year d.month + d.day

/-! ## Later dates -/

/-- A day lies before the end of its month. -/
theorem dayNumber_le_endOfMonth (d : Date) :
    d.dayNumber ≤ daysBeforeYear d.year + daysBeforeMonth d.year (d.month + 1) := by
  obtain ⟨-, -, hmonth, -, -, hday⟩ := d.isDate
  rw [dayNumber, daysBeforeMonth_succ _ hmonth]
  omega

/-- A day lies before the end of its year. -/
theorem dayNumber_le_endOfYear (d : Date) : d.dayNumber ≤ daysBeforeYear (d.year + 1) := by
  obtain ⟨-, -, -, hmonth, -, -⟩ := d.isDate
  have hend := d.dayNumber_le_endOfMonth
  have hmonths := daysBeforeMonth_mono d.year (by omega : d.month + 1 ≤ 13)
  rw [daysBeforeYear_succ]
  omega

theorem dayNumber_lt_of_before {a b : Date} (h : a.Before b) : a.dayNumber < b.dayNumber := by
  obtain ⟨-, -, -, -, hday, -⟩ := b.isDate
  rcases h with hyear | ⟨hyear, hmonth | ⟨hmonth, hlt⟩⟩
  · -- the year of the first date is over before the second one begins
    have hend := a.dayNumber_le_endOfYear
    have hyears := daysBeforeYear_mono (Int.add_one_le_of_lt hyear)
    rw [dayNumber.eq_def b]
    omega
  · have hend := a.dayNumber_le_endOfMonth
    have hmonths := daysBeforeMonth_mono b.year (by omega : a.month + 1 ≤ b.month)
    rw [hyear] at hend
    rw [dayNumber.eq_def b]
    omega
  · rw [dayNumber, dayNumber, hyear, hmonth]
    omega

/-- Of two dates one is the earlier one, unless they are the same. -/
theorem before_or_eq_or_before (a b : Date) : a.Before b ∨ a = b ∨ b.Before a := by
  rcases a with ⟨year, month, day, -⟩
  rcases b with ⟨year', month', day', -⟩
  simp only [Before, mk.injEq]
  omega

/-- **The earlier of two dates has the lower number.** -/
theorem before_iff {a b : Date} : a.Before b ↔ a.dayNumber < b.dayNumber := by
  constructor
  · exact dayNumber_lt_of_before
  · intro h
    rcases before_or_eq_or_before a b with hbefore | rfl | hafter
    · exact hbefore
    · exact absurd h (lt_irrefl _)
    · exact absurd (dayNumber_lt_of_before hafter) (lt_asymm h)

theorem dayNumber_injective {a b : Date} (h : a.dayNumber = b.dayNumber) : a = b := by
  rcases before_or_eq_or_before a b with hbefore | heq | hafter
  · exact absurd h (dayNumber_lt_of_before hbefore).ne
  · exact heq
  · exact absurd h (dayNumber_lt_of_before hafter).ne'

/-! ## The days around a date -/

theorem ofCivil?_of_isDate {year : Int} {month day : Nat} (h : IsDate year month day) :
    ofCivil? year month day = some ⟨year, month, day, h⟩ :=
  dif_pos h

theorem dayNumber_of_ofCivil? {year : Int} {month day : Nat} {d : Date}
    (h : ofCivil? year month day = some d) :
    d.dayNumber = daysBeforeYear year + daysBeforeMonth year month + day := by
  rw [ofCivil?] at h
  split at h
  · obtain rfl := Option.some.inj h
    rfl
  · cases h

theorem dayNumber_of_next? {d after : Date} (h : d.next? = some after) :
    after.dayNumber = d.dayNumber + 1 := by
  obtain ⟨-, -, hfirst, hlast, -, hday⟩ := d.isDate
  rw [dayNumber.eq_def d]
  rw [next?] at h
  split at h
  · rw [dayNumber_of_ofCivil? h]
    omega
  · split at h
    · -- the month is over
      rw [dayNumber_of_ofCivil? h, daysBeforeMonth_succ _ hfirst]
      omega
    · -- the year is over
      have hend := daysBeforeMonth_succ d.year hfirst
      rw [show d.month + 1 = 13 by omega] at hend
      rw [dayNumber_of_ofCivil? h, daysBeforeYear_succ, daysBeforeMonth_one, hend]
      omega

theorem dayNumber_of_previous? {d before : Date} (h : d.previous? = some before) :
    before.dayNumber + 1 = d.dayNumber := by
  obtain ⟨-, -, hfirst, -, hday, -⟩ := d.isDate
  rw [dayNumber.eq_def d]
  rw [previous?] at h
  split at h
  · rw [dayNumber_of_ofCivil? h]
    omega
  · split at h
    · -- the month before ends
      have hmonth := daysBeforeMonth_succ d.year (by omega : 1 ≤ d.month - 1)
      rw [Nat.sub_add_cancel hfirst] at hmonth
      rw [dayNumber_of_ofCivil? h, hmonth]
      omega
    · -- the year before ends
      have hyear := daysBeforeYear_succ (d.year - 1)
      have hend := daysBeforeMonth_succ (d.year - 1) (by decide : 1 ≤ 12)
      have hone : d.month = 1 := by omega
      rw [Int.sub_add_cancel, hend] at hyear
      rw [dayNumber_of_ofCivil? h, hyear, hone, daysBeforeMonth_one]
      have hlong : daysInMonth (d.year - 1) 12 = 31 := rfl
      omega

/-- Only the last date has no next one. -/
theorem exists_next? {d later : Date} (h : d.Before later) : ∃ after, d.next? = some after := by
  obtain ⟨hfirst, hlast, hmonth, hmonth', hday, -⟩ := d.isDate
  obtain ⟨-, hlater, -, hmonth'', -, hday'⟩ := later.isDate
  rw [next?]
  split
  · exact ⟨_, ofCivil?_of_isDate ⟨hfirst, hlast, hmonth, by omega, by omega, by omega⟩⟩
  · split
    · exact ⟨_, ofCivil?_of_isDate
        ⟨hfirst, hlast, by omega, by omega, le_refl 1, one_le_daysInMonth _ _⟩⟩
    · -- the later date is in a later year
      have hyear : d.year < later.year := by
        rcases h with hyear | ⟨hyear, hlt | ⟨hsame, hlt⟩⟩
        · exact hyear
        · omega
        · rw [← hyear, ← hsame] at hday'
          omega
      exact ⟨_, ofCivil?_of_isDate
        ⟨by omega, by omega, le_refl 1, by decide, le_refl 1, one_le_daysInMonth _ _⟩⟩

/-- Only the first date has no previous one. -/
theorem exists_previous? {d earlier : Date} (h : earlier.Before d) :
    ∃ before, d.previous? = some before := by
  obtain ⟨hfirst, hlast, hmonth, hmonth', hday, hday'⟩ := d.isDate
  obtain ⟨hearlier, -, hmonth'', -, hday'', -⟩ := earlier.isDate
  rw [previous?]
  split
  · exact ⟨_, ofCivil?_of_isDate ⟨hfirst, hlast, hmonth, hmonth', by omega, by omega⟩⟩
  · split
    · exact ⟨_, ofCivil?_of_isDate
        ⟨hfirst, hlast, by omega, by omega, one_le_daysInMonth _ _, le_refl _⟩⟩
    · -- the earlier date is in an earlier year
      have hyear : earlier.year < d.year := by
        rcases h with hyear | ⟨-, hlt | ⟨-, hlt⟩⟩
        · exact hyear
        · omega
        · omega
      exact ⟨_, ofCivil?_of_isDate
        ⟨by omega, by omega, by decide, le_refl 12, by decide, le_refl 31⟩⟩

/-- **The next day has the next number.** -/
theorem next?_eq_some_iff {d after : Date} :
    d.next? = some after ↔ after.dayNumber = d.dayNumber + 1 := by
  constructor
  · exact dayNumber_of_next?
  · intro h
    obtain ⟨other, hother⟩ := exists_next? (before_iff.2 (by omega) : d.Before after)
    have hsame := dayNumber_of_next? hother
    rw [hother, dayNumber_injective (hsame.trans h.symm)]

/-- **The day before has the previous number.** -/
theorem previous?_eq_some_iff {d before : Date} :
    d.previous? = some before ↔ before.dayNumber + 1 = d.dayNumber := by
  constructor
  · exact dayNumber_of_previous?
  · intro h
    obtain ⟨other, hother⟩ := exists_previous? (before_iff.2 (by omega) : before.Before d)
    have hsame := dayNumber_of_previous? hother
    rw [hother, dayNumber_injective (by omega : other.dayNumber = before.dayNumber)]

end Date

end DocQuery
