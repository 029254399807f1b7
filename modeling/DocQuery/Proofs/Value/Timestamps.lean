import DocQuery.Proofs.Calendar.LocalTime
import DocQuery.Proofs.Value.Limits
import DocQuery.Proofs.Value.RoundTrip

/-!
# Timestamps on the wire

The wire form of a timestamp holds its text under a tag, so reading it is reading that text
(`parseWith_timestamp`). A timestamp that was read comes back unchanged as long as its instant has a
year of four digits; an offset can move it one day out of these years, and then its text is refused
(`reread_timestamp_exact`).
-/

set_option autoImplicit false

namespace DocQuery.Value

/-- The wire form of a timestamp has one level, and inside it stands the text of the timestamp. -/
theorem parseWith_timestamp (t : Timestamp) (limit : Nat) :
    parseWith limit (timestamp t).text =
      if limit < 1 then .error (.tooDeep limit) else timestampOfJson (.string t.text) := by
  have hback : (tagged .timestamp (.string t.text)).ReadsBack :=
    readsBack_tagged .timestamp (Json.readsBack_of_tokens rfl trivial)
  have hread := @parseWith_of_standsIn limit _ _ (Json.standsIn_ofJson hback)
  rw [Json.Written.depth_ofJson, Json.Written.toJson_ofJson, fromJson, ofJson_tagged,
    if_neg (Nat.not_lt_zero limit)] at hread
  exact hread

theorem timestampOfJson_of_parse_error {raw : String} {fault : Calendar.TextError}
    (h : Timestamp.parse raw = .error fault) :
    timestampOfJson (.string raw) = .error (.invalidTimestamp raw fault) := by
  simp only [timestampOfJson, expectString, bind, Except.bind, h]
  rfl

/-- **A timestamp that was read, read again.** While its instant lies in the years 0 to 9999, the
text of the timestamp and its wire form are read as the same timestamp. Otherwise the offset has
moved the instant to the day before these years or to the day after them, and neither is read. -/
theorem reread_timestamp_exact {text : String} {t : Timestamp} (h : Timestamp.parse text = .ok t) :
    (t.InFourDigitYears ∧ Timestamp.parse t.text = .ok t ∧
      ∀ limit, 1 ≤ limit → parseWith limit (timestamp t).text = .ok (timestamp t)) ∨
    (t.Adjacent ∧ Timestamp.parse t.text = .error .invalid ∧
      ∀ limit, 1 ≤ limit →
        parseWith limit (timestamp t).text = .error (.invalidTimestamp t.text .invalid)) := by
  rcases Timestamp.inFourDigitYears_or_adjacent h with hyears | hadjacent
  · -- a leap second that was read ends a minute, so the text shows it
    have hread := Timestamp.parse_text_eq_iff.2 ⟨hyears, Timestamp.leapEndsMinute_of_parse h⟩
    refine .inl ⟨hyears, hread, ?_⟩
    intro limit hlimit
    rw [parseWith_timestamp, if_neg (Nat.not_lt.2 hlimit), timestampOfJson_text hread]
  · have hrefused := Timestamp.parse_text_of_not hadjacent.not_inFourDigitYears
    refine .inr ⟨hadjacent, hrefused, ?_⟩
    intro limit hlimit
    rw [parseWith_timestamp, if_neg (Nat.not_lt.2 hlimit), timestampOfJson_of_parse_error hrefused]

/-- A leap second at the end of a year. -/
def leapEve : Timestamp := ⟨⟨2014, 12, 31, by decide⟩, 86399, 1250000000, by decide⟩

/-- Where local time is ahead, the leap second lies in the next year. -/
theorem reread_timestamp_exact_leapEve :
    Timestamp.parse "2015-01-01T01:59:60.25+02:00" = .ok leapEve ∧
      Timestamp.parse leapEve.text = .ok leapEve ∧
      parseWith 1 (timestamp leapEve).text = .ok (timestamp leapEve) := by
  have hparse : Timestamp.parse "2015-01-01T01:59:60.25+02:00" = .ok leapEve := rfl
  refine ⟨hparse, ?_⟩
  -- the offset takes the instant into the year before, but not out of the four digits
  rcases reread_timestamp_exact hparse with ⟨-, htext, hwire⟩ | ⟨hadjacent, -⟩
  · exact ⟨htext, hwire 1 (Nat.le_refl 1)⟩
  · exact absurd (by decide) hadjacent.not_inFourDigitYears

/-- The last minute before the years of four digits. -/
def beforeYears : Timestamp := ⟨⟨-1, 12, 31, by decide⟩, 86340, 0, by decide⟩

/-- Not every timestamp that is read comes back: a minute ahead of universal time, the first day of
the year zero begins in the year before it. -/
theorem not_reread_timestamp :
    ¬ ∀ (text : String) (t : Timestamp), Timestamp.parse text = .ok t →
      Timestamp.parse t.text = .ok t := by
  intro hall
  have hparse : Timestamp.parse "0000-01-01T00:00:00+00:01" = .ok beforeYears := rfl
  have hrefused : Timestamp.parse beforeYears.text = .error .invalid :=
    Timestamp.parse_text_of_not (by decide)
  have htext := hall _ _ hparse
  rw [hrefused] at htext
  cases htext

end DocQuery.Value
