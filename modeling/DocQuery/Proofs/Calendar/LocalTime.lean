import DocQuery.Proofs.Calendar.TimestampText
import DocQuery.Proofs.Results

/-!
# Local times

The instant of a local time lies on the local date, on the day before or on the day after
(`Timestamp.date_of_ofLocal?`). The local date of a timestamp that is read has a year of four digits,
so only one day before these years and one day after them can be reached
(`Timestamp.inFourDigitYears_or_adjacent`). Offsets are whole minutes, so a leap second that is read
ends a minute at every offset (`Timestamp.leapEndsMinute_of_parse`).
-/

set_option autoImplicit false

namespace DocQuery

open Text

/-! ## The days around a date -/

namespace Date

open Calendar

theorem of_ofCivil? {year : Int} {month day : Nat} {d : Date}
    (h : ofCivil? year month day = some d) : d.year = year ∧ d.month = month ∧ d.day = day := by
  rw [ofCivil?] at h
  split at h
  · obtain rfl := Option.some.inj h
    exact ⟨rfl, rfl, rfl⟩
  · cases h

/-- The day before a date lies in the same year, or it is the last day of the year before. -/
theorem of_previous? {d before : Date} (h : d.previous? = some before) :
    before.year = d.year ∨ before.year = d.year - 1 ∧ before.month = 12 ∧ before.day = 31 := by
  rw [previous?] at h
  split at h
  · exact .inl (of_ofCivil? h).1
  · split at h
    · exact .inl (of_ofCivil? h).1
    · exact .inr (of_ofCivil? h)

/-- The day after a date lies in the same year, or it is the first day of the year after. -/
theorem of_next? {d after : Date} (h : d.next? = some after) :
    after.year = d.year ∨ after.year = d.year + 1 ∧ after.month = 1 ∧ after.day = 1 := by
  rw [next?] at h
  split at h
  · exact .inl (of_ofCivil? h).1
  · split at h
    · exact .inl (of_ofCivil? h).1
    · exact .inr (of_ofCivil? h)

end Date

/-! ## Numbers of a fixed width -/

namespace Calendar

theorem lt_of_readFixed {width n : Nat} {cs rest : List Char}
    (h : readFixed width cs = .ok (n, rest)) : n < 10 ^ width := by
  rw [readFixed] at h
  split at h
  · rename_i hdigits
    obtain ⟨hlength, hall⟩ := hdigits
    cases h
    have hlt := value_lt_pow_length (List.all_eq_true.1 hall)
    rwa [hlength] at hlt
  · cases h

/-- The first number of three is limited by its width. -/
theorem lt_of_readTriple {first a b c : Nat} {separator : Char} {cs rest : List Char}
    (h : readTriple first separator cs = .ok ((a, b, c), rest)) : a < 10 ^ first := by
  rw [readTriple] at h
  obtain ⟨⟨a', cs₁⟩, hfirst, h⟩ := exists_of_bind_eq_ok h
  obtain ⟨cs₂, -, h⟩ := exists_of_bind_eq_ok h
  obtain ⟨⟨b', cs₃⟩, -, h⟩ := exists_of_bind_eq_ok h
  obtain ⟨cs₄, -, h⟩ := exists_of_bind_eq_ok h
  obtain ⟨⟨c', cs₅⟩, -, h⟩ := exists_of_bind_eq_ok h
  cases h
  exact lt_of_readFixed hfirst

/-- A fraction is less than a second. -/
theorem lt_of_readFraction {cs rest : List Char} {nanosecond : Nat}
    (h : readFraction cs = .ok (nanosecond, rest)) : nanosecond < 1000000000 := by
  unfold readFraction at h
  split at h
  · rename_i cs
    split at h
    · cases h
    · simp only at h
      split at h
      · cases h
      · cases h
        have hdigits : AllDigits ((cs.takeWhile Char.isDigit).take 9) := by
          apply AllDigits.take
          intro c hc
          exact List.all_eq_true.1 List.all_takeWhile c hc
        have hlt := value_lt_pow_length hdigits
        rw [List.length_take] at hlt
        have hmul := Nat.mul_lt_mul_of_pos_right hlt
          (Nat.pow_pos (by decide) : 0 < 10 ^ (9 - (cs.takeWhile Char.isDigit).length))
        refine hmul.trans_le ?_
        rw [← Nat.pow_add]
        exact Nat.pow_le_pow_right (by decide) (by omega : _ ≤ 9)
  · cases h
    decide

end Calendar

namespace Timestamp

open Calendar

/-! ## The instant of a local time -/

theorem of_ofParts? {date : Date} {second nanosecond : Nat} {t : Timestamp}
    (h : ofParts? date second nanosecond = some t) :
    t.date = date ∧ t.second = second ∧ t.nanosecond = nanosecond := by
  rw [ofParts?] at h
  split at h
  · obtain rfl := Option.some.inj h
    exact ⟨rfl, rfl, rfl⟩
  · cases h

/-- The instant lies on the local date or on a day next to it. -/
theorem date_of_ofLocal? {date : Date} {second nanosecond : Nat} {ahead : Int} {t : Timestamp}
    (h : ofLocal? date second nanosecond ahead = some t) :
    t.date = date ∨ date.previous? = some t.date ∨ date.next? = some t.date := by
  rw [ofLocal?] at h
  simp only [Option.bind_eq_bind] at h
  split at h
  · obtain ⟨before, hbefore, h⟩ := Option.bind_eq_some_iff.1 h
    rw [(of_ofParts? h).1]
    exact .inr (.inl hbefore)
  · split at h
    · obtain ⟨after, hafter, h⟩ := Option.bind_eq_some_iff.1 h
      rw [(of_ofParts? h).1]
      exact .inr (.inr hafter)
    · exact .inl (of_ofParts? h).1

/-- Offsets are whole minutes, so the second of the minute stays, and the nanoseconds do. -/
theorem clock_of_ofLocal? {date : Date} {second nanosecond : Nat} {ahead : Int} {t : Timestamp}
    (hahead : ahead.natAbs < 1440) (h : ofLocal? date second nanosecond ahead = some t) :
    t.second % 60 = second % 60 ∧ t.nanosecond = nanosecond := by
  rw [ofLocal?] at h
  simp only [Option.bind_eq_bind] at h
  split at h
  · obtain ⟨before, -, h⟩ := Option.bind_eq_some_iff.1 h
    obtain ⟨-, hsecond, hnanosecond⟩ := of_ofParts? h
    exact ⟨by omega, hnanosecond⟩
  · split at h
    · obtain ⟨after, -, h⟩ := Option.bind_eq_some_iff.1 h
      obtain ⟨-, hsecond, hnanosecond⟩ := of_ofParts? h
      exact ⟨by omega, hnanosecond⟩
    · obtain ⟨-, hsecond, hnanosecond⟩ := of_ofParts? h
      exact ⟨by omega, hnanosecond⟩

/-- A timestamp is read from a local time in a year of four digits, in which a leap second ends a
minute. -/
theorem exists_local_of_read {cs : List Char} {t : Timestamp} (h : read cs = .ok t) :
    ∃ (date : Date) (second nanosecond : Nat) (ahead : Int),
      (0 ≤ date.year ∧ date.year ≤ 9999) ∧ (1000000000 ≤ nanosecond → second % 60 = 59) ∧
        ahead.natAbs < 1440 ∧ ofLocal? date second nanosecond ahead = some t := by
  -- of all that is read, the year, the second, the fraction and the offset matter here
  rw [read] at h
  replace h := eq_ok_of_guard h
  obtain ⟨⟨⟨year, month, day⟩, cs₁⟩, hdate, h⟩ := exists_of_bind_eq_ok h
  have hyear : year < 10 ^ 4 := lt_of_readTriple hdate
  dsimp only at h
  split at h
  · rename_i date hcivil
    obtain ⟨hyears, -, -⟩ := Date.of_ofCivil? hcivil
    obtain ⟨cs₂, -, h⟩ := exists_of_bind_eq_ok h
    obtain ⟨⟨⟨hour, minute, second⟩, cs₃⟩, -, h⟩ := exists_of_bind_eq_ok h
    obtain ⟨⟨nanosecond, cs₄⟩, hfraction, h⟩ := exists_of_bind_eq_ok h
    have hnanosecond := lt_of_readFraction hfraction
    replace h := eq_ok_of_guard h
    obtain ⟨⟨ahead, cs₅⟩, -, h⟩ := exists_of_bind_eq_ok h
    replace h := eq_ok_of_guard h
    split at h
    · cases h
    · rename_i hahead
      replace hahead := Nat.not_le.1 hahead
      split at h
      · rename_i hlocal
        obtain rfl := Except.ok.inj h
        split at hlocal
        · exact ⟨date, _, _, ahead, by omega, by omega, hahead, hlocal⟩
        · exact ⟨date, _, _, ahead, by omega, by omega, hahead, hlocal⟩
      · cases h
  · cases h

/-! ## The years of timestamps that are read -/

/-- The timestamp lies on the day before the years of four digits, or on the day after them. -/
def Adjacent (t : Timestamp) : Prop :=
  (t.date.year = -1 ∧ t.date.month = 12 ∧ t.date.day = 31) ∨
    (t.date.year = 10000 ∧ t.date.month = 1 ∧ t.date.day = 1)

theorem Adjacent.not_inFourDigitYears {t : Timestamp} (h : t.Adjacent) :
    ¬ t.InFourDigitYears := by
  rintro ⟨hfirst, hlast⟩
  rcases h with ⟨hyear, -⟩ | ⟨hyear, -⟩
  · omega
  · omega

/-- A timestamp that is read leaves the years of four digits by at most a day. -/
theorem inFourDigitYears_or_adjacent {text : String} {t : Timestamp} (h : parse text = .ok t) :
    t.InFourDigitYears ∨ t.Adjacent := by
  obtain ⟨date, second, nanosecond, ahead, ⟨hfirst, hlast⟩, -, -, hlocal⟩ := exists_local_of_read h
  rw [InFourDigitYears, Adjacent]
  -- the year turns only between the last day of a year and the first one of the next
  rcases date_of_ofLocal? hlocal with hsame | hbefore | hafter
  · rw [hsame]
    exact .inl ⟨hfirst, hlast⟩
  · rcases Date.of_previous? hbefore with hyear | ⟨hyear, hmonth, hday⟩
    · omega
    · omega
  · rcases Date.of_next? hafter with hyear | ⟨hyear, hmonth, hday⟩
    · omega
    · omega

/-- **A leap second that is read ends a minute.** -/
theorem leapEndsMinute_of_parse {text : String} {t : Timestamp} (h : parse text = .ok t) :
    t.LeapEndsMinute := by
  obtain ⟨date, second, nanosecond, ahead, -, hleap, hahead, hlocal⟩ := exists_local_of_read h
  obtain ⟨hsecond, hnanosecond⟩ := clock_of_ofLocal? hahead hlocal
  rw [LeapEndsMinute, hsecond, hnanosecond]
  exact hleap

end Timestamp

end DocQuery
