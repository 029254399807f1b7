import DocQuery.Proofs.Calendar.DayNumber
import DocQuery.Proofs.Calendar.TimestampText
import DocQuery.Value.Basic
import Mathlib

/-!
# Civil times and instants

A date and a time of day, as a calendar and a clock show them, name an instant of universal time.
Local time at an offset is that many minutes ahead on the line of minutes, with the same seconds
(`CivilTime.LocalAt`). The text of a local time and its offset is read as the instant, whatever the
offset is (`Timestamp.read_write_local`), so all texts of an instant are read alike; and instants
are ordered as what calendar and clock show in universal time (`Timestamp.parse_local_exact`).
-/

set_option autoImplicit false

namespace DocQuery

open Text Calendar

theorem Date.eq_iff {a b : Date} :
    a = b ↔ a.year = b.year ∧ a.month = b.month ∧ a.day = b.day := by
  rcases a with ⟨year, month, day, -⟩
  rcases b with ⟨year', month', day', -⟩
  simp only [mk.injEq]

theorem Timestamp.eq_iff {s t : Timestamp} :
    s = t ↔ s.date = t.date ∧ s.second = t.second ∧ s.nanosecond = t.nanosecond := by
  rcases s with ⟨date, second, nanosecond, -⟩
  rcases t with ⟨date', second', nanosecond', -⟩
  simp only [mk.injEq]

/-- A date and a time of day. Second 60 is a leap second, and may stand in any minute. -/
structure CivilTime where
  date : Date
  hour : Nat
  minute : Nat
  second : Nat
  /-- The digits of the fraction of the second, if there are any. -/
  fraction : List Char
  hour_lt : hour < 24
  minute_lt : minute < 60
  second_le : second ≤ 60
  allDigits : AllDigits fraction
  length_le : fraction.length ≤ 9

namespace CivilTime

/-- The fraction in nanoseconds. -/
def nanosecond (u : CivilTime) : Nat := value u.fraction * 10 ^ (9 - u.fraction.length)

/-- The minutes from the beginning of day 0 on. -/
def minutes (u : CivilTime) : Int := 1440 * u.date.dayNumber + 60 * u.hour + u.minute

/-- What calendar and clock show, from the year down to the nanoseconds. -/
def fields (u : CivilTime) : List Int :=
  [u.date.year, u.date.month, u.date.day, u.hour, u.minute, u.second, u.nanosecond]

/-- The year has four digits. -/
def InFourDigitYears (u : CivilTime) : Prop := 0 ≤ u.date.year ∧ u.date.year ≤ 9999

instance (u : CivilTime) : Decidable u.InFourDigitYears :=
  inferInstanceAs (Decidable (_ ∧ _))

/-- The second civil time is the local time of the first one, where local time is ahead of it by
some minutes: the second and its fraction are the same. -/
structure LocalAt (u : CivilTime) (ahead : Int) (v : CivilTime) : Prop where
  minutes : v.minutes = u.minutes + ahead
  second : v.second = u.second
  fraction : v.fraction = u.fraction

theorem nanosecond_lt (u : CivilTime) : u.nanosecond < 1000000000 := by
  have hlt := Nat.mul_lt_mul_of_pos_right (value_lt_pow_length u.allDigits)
    (Nat.pow_pos (by decide : 0 < 10) : 0 < 10 ^ (9 - u.fraction.length))
  rw [← Nat.pow_add, Nat.add_sub_cancel' u.length_le] at hlt
  exact hlt

/-- The instant that a civil time names in universal time. A leap second is the second 59 and a
second more. -/
def timestamp (u : CivilTime) : Timestamp where
  date := u.date
  second := 3600 * u.hour + 60 * u.minute + min u.second 59
  nanosecond := (if u.second = 60 then 1000000000 else 0) + u.nanosecond
  isTime := by
    have hhour := u.hour_lt
    have hminute := u.minute_lt
    have hsecond := u.second_le
    have hnanosecond := u.nanosecond_lt
    refine ⟨by omega, ?_⟩
    split <;> omega

end CivilTime

/-! ## The texts of a civil time -/

/-- The text is an offset: local time is that many minutes ahead of universal time. -/
inductive Calendar.IsOffset : List Char → Int → Prop where
  | universal {c : Char} (h : c = 'Z' ∨ c = 'z') : IsOffset [c] 0
  | ahead {hours minutes : Nat} (hhours : hours < 24) (hminutes : minutes < 60) :
      IsOffset ('+' :: (padded 2 hours ++ ':' :: padded 2 minutes)) (60 * hours + minutes : Nat)
  | behind {sign : Char} {hours minutes : Nat} (hsign : sign = '-' ∨ sign = '\u2212')
      (hhours : hours < 24) (hminutes : minutes < 60) :
      IsOffset (sign :: (padded 2 hours ++ ':' :: padded 2 minutes))
        (-(60 * hours + minutes : Nat))

namespace CivilTime

/-- The text of a fraction: a point and the digits, or nothing. -/
def fractionText (u : CivilTime) : List Char :=
  if u.fraction = [] then [] else '.' :: u.fraction

/-- The text of a civil time, with an offset behind it. -/
def write (u : CivilTime) (offset : List Char) : List Char :=
  Timestamp.partsText u.date u.hour u.minute u.second (u.fractionText ++ offset)

/-- The text of a civil time, as a string. -/
def text (u : CivilTime) (offset : List Char) : String := String.ofList (u.write offset)

end CivilTime

namespace Calendar

theorem readOffsetMinutes_padded {hours minutes : Nat} (hhours : hours < 24)
    (hminutes : minutes < 60) :
    readOffsetMinutes (padded 2 hours ++ ':' :: padded 2 minutes) =
      .ok (60 * hours + minutes, []) := by
  have hpair {n : Nat} (h : n < 100) (rest : List Char) :
      readPair (padded 2 n ++ rest) = .ok (n, rest) := by
    have hbytes := length_le_byteLength (padded 2 n ++ rest)
    have hlength := le_length_padded 2 n
    rw [List.length_append] at hbytes
    rw [readPair, if_neg (by omega), readFixed_padded Nat.two_pos h]
  have hlast := hpair (by omega : minutes < 100) []
  rw [List.append_nil] at hlast
  rw [readOffsetMinutes, hpair (by omega)]
  simp only [bind, Except.bind, expect, BEq.rfl, if_true, hlast]
  rw [if_neg (by omega)]
  rfl

/-- An offset is read as its minutes. -/
theorem readOffset_of_isOffset {offset : List Char} {ahead : Int} (h : IsOffset offset ahead) :
    readOffset offset = .ok (ahead, []) := by
  cases h with
  | universal h => rw [readOffset, if_pos h]
  | ahead hhours hminutes =>
      rw [readOffset, if_neg (by decide), if_pos rfl, readOffsetMinutes_padded hhours hminutes]
      rfl
  | @behind sign hours minutes hsign hhours hminutes =>
      have hletter : ¬ (sign = 'Z' ∨ sign = 'z') := by rcases hsign with rfl | rfl <;> decide
      have hplus : sign ≠ '+' := by rcases hsign with rfl | rfl <;> decide
      rw [readOffset, if_neg hletter, if_neg hplus, if_pos hsign,
        readOffsetMinutes_padded hhours hminutes]
      rfl

/-- Offsets are shorter than a day. -/
theorem IsOffset.natAbs_lt {offset : List Char} {ahead : Int} (h : IsOffset offset ahead) :
    ahead.natAbs < 1440 := by
  cases h with
  | universal h => decide
  | ahead hhours hminutes => omega
  | behind hsign hhours hminutes => omega

/-- An offset starts neither with a point nor with a digit. -/
theorem IsOffset.head {offset : List Char} {ahead : Int} (h : IsOffset offset ahead) :
    ∃ c rest, offset = c :: rest ∧ c ≠ '.' ∧ c.isDigit = false := by
  cases h with
  | universal h =>
      refine ⟨_, _, rfl, ?_⟩
      rcases h with rfl | rfl <;> decide
  | ahead hhours hminutes => exact ⟨_, _, rfl, by decide⟩
  | behind hsign hhours hminutes =>
      refine ⟨_, _, rfl, ?_⟩
      rcases hsign with rfl | rfl <;> decide

/-- Every offset shorter than a day can be written. -/
theorem exists_isOffset {ahead : Int} (h : ahead.natAbs < 1440) :
    ∃ offset, IsOffset offset ahead := by
  have hparts : 60 * (ahead.natAbs / 60) + ahead.natAbs % 60 = ahead.natAbs := by omega
  by_cases hsign : ahead < 0
  · have hbehind := IsOffset.behind (.inl rfl) (by omega : ahead.natAbs / 60 < 24)
      (by omega : ahead.natAbs % 60 < 60)
    rw [hparts, Int.ofNat_natAbs_of_nonpos hsign.le, neg_neg] at hbehind
    exact ⟨_, hbehind⟩
  · have hahead := IsOffset.ahead (by omega : ahead.natAbs / 60 < 24)
      (by omega : ahead.natAbs % 60 < 60)
    rw [hparts, Int.natAbs_of_nonneg (not_lt.1 hsign)] at hahead
    exact ⟨_, hahead⟩

end Calendar

namespace CivilTime

/-- A fraction is read up to the offset, as its nanoseconds. -/
theorem readFraction_fractionText (u : CivilTime) {offset : List Char} {ahead : Int}
    (h : IsOffset offset ahead) :
    readFraction (u.fractionText ++ offset) = .ok (u.nanosecond, offset) := by
  obtain ⟨c, rest, rfl, hpoint, hdigit⟩ := h.head
  have hrest : NoDigitAhead (c :: rest) := by
    rintro d ⟨⟩
    exact hdigit
  rw [fractionText, nanosecond]
  by_cases hnone : u.fraction = []
  · rw [if_pos hnone, hnone, List.nil_append, readFraction]
    · rfl
    · rintro cs ⟨⟩
      exact hpoint rfl
  · rw [if_neg hnone, List.cons_append, readFraction, if_neg (by simp),
      dropWhile_digits u.allDigits hrest]
    simp only [takeWhile_digits u.allDigits hrest]
    rw [if_neg hnone, List.take_of_length_le u.length_le]
    rfl

end CivilTime

namespace Timestamp

/-! ## The instant of a local time -/

/-- Local time is taken back to universal time by its offset, into the day before or the day after
if the minutes lie there. -/
theorem ofLocal?_of_localAt {u v : CivilTime} {ahead : Int} (h : u.LocalAt ahead v)
    (hahead : ahead.natAbs < 1440) {second : Nat} (hsecond : second < 60) (nanosecond : Nat) :
    ofLocal? v.date (3600 * v.hour + 60 * v.minute + second) nanosecond ahead =
      ofParts? u.date (3600 * u.hour + 60 * u.minute + second) nanosecond := by
  have hhour := u.hour_lt
  have hminute := u.minute_lt
  have hhour' := v.hour_lt
  have hminute' := v.minute_lt
  have hminutes := h.minutes
  rw [CivilTime.minutes, CivilTime.minutes] at hminutes
  rw [ofLocal?]
  simp only [Option.bind_eq_bind]
  split
  · have hprevious : v.date.previous? = some u.date := Date.previous?_eq_some_iff.2 (by omega)
    rw [hprevious, Option.bind_some]
    congr 1
    omega
  · split
    · have hnext : v.date.next? = some u.date := Date.next?_eq_some_iff.2 (by omega)
      rw [hnext, Option.bind_some]
      congr 1
      omega
    · have hsame : v.date = u.date := Date.dayNumber_injective (by omega)
      rw [hsame]
      congr 1
      omega

theorem ofLocal?_timestamp {u v : CivilTime} {ahead : Int} (h : u.LocalAt ahead v)
    (hahead : ahead.natAbs < 1440) :
    ofLocal? v.date (3600 * v.hour + 60 * v.minute + min u.second 59)
      ((if u.second = 60 then 1000000000 else 0) + u.nanosecond) ahead = some u.timestamp := by
  rw [ofLocal?_of_localAt h hahead (by omega)]
  exact dif_pos u.timestamp.isTime

/-- **A local time at an offset is read as its instant.** -/
theorem read_write_local {u v : CivilTime} {offset : List Char} {ahead : Int}
    (h : u.LocalAt ahead v) (hyear : v.InFourDigitYears) (hoffset : IsOffset offset ahead) :
    read (v.write offset) = .ok u.timestamp := by
  have hnanosecond : v.nanosecond = u.nanosecond := by
    rw [CivilTime.nanosecond, CivilTime.nanosecond, h.fraction]
  have hsecond := u.second_le
  have hinstant := ofLocal?_timestamp h hoffset.natAbs_lt
  rw [CivilTime.write, read_partsText hyear v.hour_lt v.minute_lt v.second_le
    (v.readFraction_fractionText hoffset) (readOffset_of_isOffset hoffset) hoffset.natAbs_lt,
    hnanosecond, h.second]
  -- a leap second is told from the written second alone
  by_cases hleap : u.second = 60
  · have hshort : min u.second 59 = 59 := by omega
    rw [hshort, if_pos hleap] at hinstant
    rw [if_pos hleap, hinstant]
  · have hshort : min u.second 59 = u.second := by omega
    rw [hshort, if_neg hleap, Nat.zero_add] at hinstant
    rw [if_neg hleap, hinstant]

end Timestamp

/-! ## Local times -/

namespace CivilTime

/-- A civil time is determined by its minutes, its second and the digits of the fraction. -/
theorem eq_of_minutes {v w : CivilTime} (hminutes : v.minutes = w.minutes)
    (hsecond : v.second = w.second) (hfraction : v.fraction = w.fraction) : v = w := by
  rcases v with ⟨date, hour, minute, second, fraction, _, _, _, _, _⟩
  rcases w with ⟨date', hour', minute', second', fraction', _, _, _, _, _⟩
  simp only [minutes] at hminutes hsecond hfraction
  -- a day has 1440 minutes, and an hour has 60
  obtain rfl := Date.dayNumber_injective (by omega : date.dayNumber = date'.dayNumber)
  obtain rfl : hour = hour' := by omega
  obtain rfl : minute = minute' := by omega
  rw [mk.injEq]
  exact ⟨rfl, rfl, rfl, hsecond, hfraction⟩

theorem LocalAt.unique {u v w : CivilTime} {ahead : Int} (hv : u.LocalAt ahead v)
    (hw : u.LocalAt ahead w) : v = w :=
  eq_of_minutes (hv.minutes.trans hw.minutes.symm) (hv.second.trans hw.second.symm)
    (hv.fraction.trans hw.fraction.symm)

/-- There is a local time as soon as there is a date for its minutes. -/
theorem exists_localAt_of_date {u : CivilTime} {ahead : Int} {date : Date}
    (hfirst : 1440 * date.dayNumber ≤ u.minutes + ahead)
    (hlast : u.minutes + ahead < 1440 * date.dayNumber + 1440) : ∃ v, u.LocalAt ahead v := by
  obtain ⟨rest, hrest⟩ := Int.eq_ofNat_of_zero_le (Int.sub_nonneg_of_le hfirst)
  refine ⟨⟨date, rest / 60, rest % 60, u.second, u.fraction, by omega, by omega, u.second_le,
    u.allDigits, u.length_le⟩, ?_, rfl, rfl⟩
  show 1440 * date.dayNumber + 60 * (rest / 60 : Nat) + (rest % 60 : Nat) = u.minutes + ahead
  omega

/-- In years of four digits there is a local time at every offset. -/
theorem exists_localAt {u : CivilTime} (hyear : u.InFourDigitYears) {ahead : Int}
    (hahead : ahead.natAbs < 1440) : ∃ v, u.LocalAt ahead v := by
  have hhour := u.hour_lt
  have hminute := u.minute_lt
  obtain ⟨hfirst, hlast⟩ := hyear
  have hearlier : Date.Before ⟨-1, 1, 1, by decide⟩ u.date := .inl (show -1 < u.date.year by omega)
  have hlater : u.date.Before ⟨10000, 1, 1, by decide⟩ :=
    .inl (show u.date.year < 10000 by omega)
  obtain ⟨before, hbefore⟩ := Date.exists_previous? hearlier
  obtain ⟨after, hafter⟩ := Date.exists_next? hlater
  rw [Date.previous?_eq_some_iff] at hbefore
  rw [Date.next?_eq_some_iff] at hafter
  have hminutes : u.minutes = 1440 * u.date.dayNumber + 60 * u.hour + u.minute := rfl
  -- the local time is on the day before, on the day after, or on the same day
  by_cases hday : 60 * u.hour + u.minute + ahead < 0
  · exact exists_localAt_of_date (by omega : 1440 * before.dayNumber ≤ _) (by omega)
  · by_cases hday' : 1440 ≤ 60 * u.hour + u.minute + ahead
    · exact exists_localAt_of_date (by omega : 1440 * after.dayNumber ≤ _) (by omega)
    · exact exists_localAt_of_date (by omega : 1440 * u.date.dayNumber ≤ _) (by omega)

theorem localAt_zero (u : CivilTime) : u.LocalAt 0 u := ⟨(Int.add_zero _).symm, rfl, rfl⟩

/-- The text shows the civil time as a local time and its offset. -/
def ShownBy (u : CivilTime) (text : String) : Prop :=
  ∃ v ahead offset, u.LocalAt ahead v ∧ v.InFourDigitYears ∧ IsOffset offset ahead ∧
    text = v.text offset

theorem shownBy_text {u : CivilTime} (hyear : u.InFourDigitYears) : u.ShownBy (u.text ['Z']) :=
  ⟨u, 0, ['Z'], u.localAt_zero, hyear, .universal (.inl rfl), rfl⟩

theorem ShownBy.parse_eq {u : CivilTime} {text : String} (h : u.ShownBy text) :
    Timestamp.parse text = .ok u.timestamp := by
  obtain ⟨v, ahead, offset, hlocal, hyear, hoffset, rfl⟩ := h
  rw [Timestamp.parse, CivilTime.text, String.toList_ofList,
    Timestamp.read_write_local hlocal hyear hoffset]

/-! ## The order of instants -/

theorem fields_lt_iff {u w : CivilTime} :
    u.fields < w.fields ↔
      u.date.Before w.date ∨ u.date = w.date ∧ (u.hour < w.hour ∨ u.hour = w.hour ∧
        (u.minute < w.minute ∨ u.minute = w.minute ∧ (u.second < w.second ∨ u.second = w.second ∧
          u.nanosecond < w.nanosecond))) := by
  rw [Date.eq_iff, Date.Before]
  simp only [fields, List.cons_lt_cons_iff, List.not_lt_nil, and_false, or_false, Nat.cast_lt,
    Nat.cast_inj]
  tauto

/-- Between two times of the same day, a leap second comes after the second 59 and before the next
minute. -/
theorem clock_lt_iff (u w : CivilTime) :
    (u.timestamp.second < w.timestamp.second ∨ u.timestamp.second = w.timestamp.second ∧
      u.timestamp.nanosecond < w.timestamp.nanosecond) ↔
      (u.hour < w.hour ∨ u.hour = w.hour ∧ (u.minute < w.minute ∨ u.minute = w.minute ∧
        (u.second < w.second ∨ u.second = w.second ∧ u.nanosecond < w.nanosecond))) := by
  have hminute := u.minute_lt
  have hminute' := w.minute_lt
  have hsecond := u.second_le
  have hsecond' := w.second_le
  have hnanosecond := u.nanosecond_lt
  have hnanosecond' := w.nanosecond_lt
  simp only [timestamp]
  split <;> split <;> omega

theorem before_timestamp_iff {u w : CivilTime} :
    u.timestamp.Before w.timestamp ↔ u.fields < w.fields := by
  rw [Timestamp.Before, clock_lt_iff, fields_lt_iff]
  rfl

theorem timestamp_eq_iff {u w : CivilTime} : u.timestamp = w.timestamp ↔ u.fields = w.fields := by
  have hminute := u.minute_lt
  have hminute' := w.minute_lt
  have hsecond := u.second_le
  have hsecond' := w.second_le
  have hnanosecond := u.nanosecond_lt
  have hnanosecond' := w.nanosecond_lt
  rw [Timestamp.eq_iff]
  simp only [timestamp, fields, List.cons.injEq, Nat.cast_inj, Date.eq_iff, and_true]
  split <;> split <;> omega

/-- Later in the calendar and on the clock is later on the line of minutes. -/
theorem fields_lt_iff_minutes {u w : CivilTime} :
    u.fields < w.fields ↔
      u.minutes < w.minutes ∨ u.minutes = w.minutes ∧
        (u.second < w.second ∨ u.second = w.second ∧ u.nanosecond < w.nanosecond) := by
  have hdate : u.date = w.date ↔ u.date.dayNumber = w.date.dayNumber :=
    ⟨congrArg Date.dayNumber, Date.dayNumber_injective⟩
  have hhour := u.hour_lt
  have hhour' := w.hour_lt
  have hminute := u.minute_lt
  have hminute' := w.minute_lt
  rw [fields_lt_iff, Date.before_iff, hdate, minutes, minutes]
  omega

end CivilTime

namespace Timestamp

/-- **Timestamps are instants, however their offset was written.** Every civil time has one local
time at each offset shorter than a day, and each of these offsets can be written. The text of a
civil time in universal time, and the texts of its local times with their offsets, are all read as
the same timestamp, with one text and as one value. Timestamps are ordered as what calendar and
clock show in universal time, which is the order of the instants on the line of minutes. -/
theorem parse_local_exact :
    (∀ (u : CivilTime) (ahead : Int), u.InFourDigitYears → ahead.natAbs < 1440 →
      ∃! v, u.LocalAt ahead v) ∧
    (∀ ahead : Int, ahead.natAbs < 1440 ↔ ∃ offset, IsOffset offset ahead) ∧
    (∀ (u v : CivilTime) (ahead : Int) (offset : List Char), u.InFourDigitYears →
      v.InFourDigitYears → u.LocalAt ahead v → IsOffset offset ahead →
      ∃ t, parse (u.text ['Z']) = .ok t ∧ parse (v.text offset) = .ok t) ∧
    (∀ (u : CivilTime) (text other : String), u.ShownBy text → u.ShownBy other →
      ∀ s t, parse text = .ok s → parse other = .ok t →
        s.text = t.text ∧ Value.beq (.timestamp s) (.timestamp t) = true) ∧
    ∀ (u w : CivilTime) (text other : String), u.ShownBy text → w.ShownBy other →
      ∀ s t, parse text = .ok s → parse other = .ok t →
        (s.Before t ↔ u.fields < w.fields) ∧ (s = t ↔ u.fields = w.fields) ∧
        (s.Before t ↔ u.minutes < w.minutes ∨ u.minutes = w.minutes ∧
          (u.second < w.second ∨ u.second = w.second ∧ u.nanosecond < w.nanosecond)) := by
  refine ⟨?_, ?_, ?_, ?_, ?_⟩
  · intro u ahead hyear hahead
    obtain ⟨v, hv⟩ := CivilTime.exists_localAt hyear hahead
    exact ⟨v, hv, fun w hw => hw.unique hv⟩
  · intro ahead
    constructor
    · exact exists_isOffset
    · rintro ⟨offset, hoffset⟩
      exact hoffset.natAbs_lt
  · intro u v ahead offset hyear hyear' hlocal hoffset
    have hshown : u.ShownBy (v.text offset) := ⟨v, ahead, offset, hlocal, hyear', hoffset, rfl⟩
    exact ⟨u.timestamp, (CivilTime.shownBy_text hyear).parse_eq, hshown.parse_eq⟩
  · intro u text other htext hother s t hs ht
    rw [htext.parse_eq] at hs
    rw [hother.parse_eq] at ht
    cases hs
    cases ht
    exact ⟨rfl, (Value.beq_iff _ _).2 rfl⟩
  · intro u w text other htext hother s t hs ht
    rw [htext.parse_eq] at hs
    rw [hother.parse_eq] at ht
    cases hs
    cases ht
    refine ⟨CivilTime.before_timestamp_iff, CivilTime.timestamp_eq_iff, ?_⟩
    rw [CivilTime.before_timestamp_iff, CivilTime.fields_lt_iff_minutes]

/-- The leap second at the end of the year 2008, and a part of it. -/
def leapSecond : CivilTime :=
  ⟨⟨2008, 12, 31, by decide⟩, 23, 59, 60, ['2', '5'], by decide, by decide, by decide,
    by simp [AllDigits], by decide⟩

/-- The same instant where local time is five and a half hours ahead. -/
def leapSecondEast : CivilTime :=
  ⟨⟨2009, 1, 1, by decide⟩, 5, 29, 60, ['2', '5'], by decide, by decide, by decide,
    by simp [AllDigits], by decide⟩

/-- The beginning of the year 2009. -/
def newYear : CivilTime :=
  ⟨⟨2009, 1, 1, by decide⟩, 0, 0, 0, [], by decide, by decide, by decide, by simp [AllDigits],
    by decide⟩

/-- Read in the new year of another offset, the leap second is the same timestamp, and it still
comes before the new year of universal time. -/
theorem parse_local_exact_leapSecond :
    (∃! v, leapSecond.LocalAt 330 v) ∧
      (leapSecond.LocalAt 330 leapSecondEast ∧ IsOffset ['+', '0', '5', ':', '3', '0'] 330) ∧
      (∃ t, parse (leapSecond.text ['Z']) = .ok t ∧
        parse (leapSecondEast.text ['+', '0', '5', ':', '3', '0']) = .ok t) ∧
      (parse "2009-01-01T05:29:60.25+05:30" = .ok leapSecond.timestamp ∧
        parse "2009-01-01T00:00:00Z" = .ok newYear.timestamp) ∧
      Value.beq (.timestamp leapSecond.timestamp) (.timestamp leapSecond.timestamp) = true ∧
      leapSecond.fields < newYear.fields ∧ leapSecond.timestamp.Before newYear.timestamp := by
  obtain ⟨hunique, -, hread, hsame, horder⟩ := parse_local_exact
  have hyear : leapSecond.InFourDigitYears := by decide
  have hyear' : leapSecondEast.InFourDigitYears := by decide
  have hlocal : leapSecond.LocalAt 330 leapSecondEast := ⟨by decide, rfl, rfl⟩
  have hoffset : IsOffset ['+', '0', '5', ':', '3', '0'] 330 := by
    have hahead := IsOffset.ahead (by decide : 5 < 24) (by decide : 30 < 60)
    rwa [show '+' :: (padded 2 5 ++ ':' :: padded 2 30) = ['+', '0', '5', ':', '3', '0'] by cbv]
      at hahead
  have heast : leapSecondEast.text ['+', '0', '5', ':', '3', '0'] =
      "2009-01-01T05:29:60.25+05:30" := by cbv
  have hshown : leapSecond.ShownBy "2009-01-01T05:29:60.25+05:30" :=
    ⟨leapSecondEast, 330, _, hlocal, hyear', hoffset, heast.symm⟩
  have hshown' : newYear.ShownBy "2009-01-01T00:00:00Z" := by
    have htext : newYear.text ['Z'] = "2009-01-01T00:00:00Z" := by cbv
    rw [← htext]
    exact CivilTime.shownBy_text (by decide)
  have hparse := hshown.parse_eq
  have hparse' := hshown'.parse_eq
  have hfields : leapSecond.fields < newYear.fields := by decide
  refine ⟨hunique leapSecond 330 hyear (by decide), ⟨hlocal, hoffset⟩,
    hread _ _ _ _ hyear hyear' hlocal hoffset, ⟨hparse, hparse'⟩, ?_, hfields, ?_⟩
  · exact (hsame leapSecond _ _ hshown hshown _ _ hparse hparse).2
  · exact (horder leapSecond newYear _ _ hshown hshown' _ _ hparse hparse').1.2 hfields

end Timestamp

end DocQuery
