import DocQuery.Calendar.TimestampText
import DocQuery.Proofs.Calendar.DateText

/-!
# Timestamps read back

The reader of timestamps takes years of exactly four digits, so the text of a timestamp is read when
its year lies between 0 and 9999 (`Timestamp.parse_text`), and refused when it does not
(`Timestamp.parse_text_of_not`). A leap second at the end of a minute is written as second 60, and any
other one as the second after it, so that another timestamp is read then
(`Timestamp.parse_text_eq_iff`).
-/

set_option autoImplicit false

namespace DocQuery

open Text

namespace Calendar

/-- A text has at least as many bytes as characters. -/
theorem length_le_byteLength (cs : List Char) : cs.length ≤ byteLength cs := by
  induction cs with
  | nil => exact Nat.le_refl 0
  | cons c cs ih =>
      have hpos := c.utf8Size_pos
      rw [byteLength, List.foldr_cons, ← byteLength, List.length_cons]
      omega

theorem readFixed_padded {width n : Nat} (hwidth : 0 < width) (h : n < 10 ^ width)
    (rest : List Char) : readFixed width (padded width n ++ rest) = .ok (n, rest) := by
  have hlength := length_padded h hwidth
  have htake : (padded width n ++ rest).take width = padded width n := by
    rw [List.take_append_of_le_length (Nat.le_of_eq hlength.symm), List.take_of_length_le
      (Nat.le_of_eq hlength)]
  have hdrop : (padded width n ++ rest).drop width = rest := by
    rw [List.drop_append_of_le_length (Nat.le_of_eq hlength.symm), List.drop_of_length_le
      (Nat.le_of_eq hlength), List.nil_append]
  rw [readFixed, htake, hdrop]
  simp only [value_padded]
  exact if_pos ⟨hlength, List.all_eq_true.2 (allDigits_padded width n)⟩

theorem readFixed_of_not_isDigit {width : Nat} {c : Char} (hwidth : 0 < width)
    (hc : c.isDigit = false) (cs : List Char) : readFixed width (c :: cs) = .error .invalid := by
  obtain ⟨width, rfl⟩ := Nat.exists_eq_succ_of_ne_zero hwidth.ne'
  rw [readFixed, List.take_succ_cons]
  exact if_neg (by simp [hc])

/-- Three written numbers are read back. -/
theorem readTriple_padded (first : Nat) {a b c : Nat} {separator : Char} (hfirst : 0 < first)
    (ha : a < 10 ^ first) (hb : b < 100) (hc : c < 100) (rest : List Char) :
    readTriple first separator (padded first a ++ separator :: (padded 2 b ++ separator ::
      (padded 2 c ++ rest))) = .ok ((a, b, c), rest) := by
  rw [readTriple, readFixed_padded hfirst ha]
  simp only [bind, Except.bind, require, BEq.rfl, if_true,
    readFixed_padded Nat.two_pos hb, readFixed_padded Nat.two_pos hc]
  rfl

/-- A written fraction of a second is read back. -/
theorem readFraction_writeFraction {nanosecond : Nat} (h : nanosecond < 1000000000) :
    readFraction (writeFraction nanosecond ++ ['Z']) = .ok (nanosecond, ['Z']) := by
  have hdigits (width n : Nat) (hwidth : 0 < width) (hle : width ≤ 9) (hn : n < 10 ^ width) :
      readFraction ('.' :: padded width n ++ ['Z']) = .ok (n * Nat.pow 10 (9 - width), ['Z']) := by
    have hrest : NoDigitAhead ['Z'] := by
      rintro c ⟨⟩
      rfl
    have hne : padded width n ≠ [] := List.append_ne_nil_of_right_ne_nil _ (digits_ne_nil n)
    have hlength := length_padded hn hwidth
    rw [List.cons_append, readFraction, if_neg (by simp),
      dropWhile_digits (allDigits_padded _ _) hrest]
    simp only [takeWhile_digits (allDigits_padded width n) hrest]
    rw [if_neg hne, List.take_of_length_le (hlength.trans_le hle), value_padded, hlength]
  -- the fraction has none, three, six or nine digits
  rw [writeFraction]
  split
  · rename_i hzero
    rw [hzero]
    rfl
  · split
    · rename_i hmillis
      rw [hdigits 3 _ (by decide) (by decide) (by omega)]
      congr 2
      show nanosecond / 1000000 * 1000000 = nanosecond
      omega
    · split
      · rename_i hmicros
        rw [hdigits 6 _ (by decide) (by decide) (by omega)]
        congr 2
        show nanosecond / 1000 * 1000 = nanosecond
        omega
      · rw [hdigits 9 _ (by decide) (by decide) (by omega)]
        congr 2
        exact Nat.mul_one nanosecond

end Calendar

namespace Timestamp

open Calendar

/-- The UTC year has four digits. -/
def InFourDigitYears (t : Timestamp) : Prop := 0 ≤ t.date.year ∧ t.date.year ≤ 9999

instance (t : Timestamp) : Decidable t.InFourDigitYears :=
  inferInstanceAs (Decidable (_ ∧ _))

/-- A timestamp is its own local time without an offset. -/
theorem ofLocal?_zero (t : Timestamp) :
    ofLocal? t.date t.second t.nanosecond 0 = some t := by
  have hsecond := t.isTime.1
  have hparts : ofParts? t.date t.second t.nanosecond = some t := dif_pos t.isTime
  rw [ofLocal?]
  simp only [Int.mul_zero, Int.sub_zero]
  rw [if_neg (by omega), if_neg (by omega), Int.toNat_natCast, hparts]

/-- The text of a date and a time of day, with a fraction and an offset behind it. -/
def partsText (date : Date) (hour minute second : Nat) (rest : List Char) : List Char :=
  padded 4 date.year.natAbs ++ '-' :: (padded 2 date.month ++ '-' :: (padded 2 date.day ++ 'T' ::
    (padded 2 hour ++ ':' :: (padded 2 minute ++ ':' :: (padded 2 second ++ rest)))))

/-- A text made of these parts is never too short to be read. -/
theorem byteLength_partsText_ge (date : Date) (hour minute second : Nat) (rest : List Char) :
    19 ≤ byteLength (partsText date hour minute second rest) := by
  refine Nat.le_trans ?_ (length_le_byteLength _)
  have hyear := le_length_padded 4 date.year.natAbs
  have hlength := le_length_padded 2
  have hmonth := hlength date.month
  have hday := hlength date.day
  have hhour := hlength hour
  have hminute := hlength minute
  have hsecond := hlength second
  simp only [partsText, List.length_append, List.length_cons]
  omega

/-- **Parts are read one after another.** What is left to see is which instant the local time at the
offset is. -/
theorem read_partsText {date : Date} {hour minute second nanosecond : Nat}
    {fraction offset : List Char} {ahead : Int} (hyear : 0 ≤ date.year ∧ date.year ≤ 9999)
    (hhour : hour < 24) (hminute : minute < 60) (hsecond : second ≤ 60)
    (hfraction : readFraction (fraction ++ offset) = .ok (nanosecond, offset))
    (hoffset : readOffset offset = .ok (ahead, [])) (hahead : ahead.natAbs < 1440) :
    read (partsText date hour minute second (fraction ++ offset)) =
      match (if second = 60 then
          ofLocal? date (3600 * hour + 60 * minute + 59) (1000000000 + nanosecond) ahead
        else ofLocal? date (3600 * hour + 60 * minute + second) nanosecond ahead) with
      | some t => .ok t
      | none => .error .outOfRange := by
  obtain ⟨-, -, -, hmonth, -, -⟩ := date.isDate
  have hday := day_le date.isDate
  have habs : (date.year.natAbs : Int) = date.year := Int.natAbs_of_nonneg hyear.1
  have hcivil : Date.ofCivil? date.year date.month date.day = some date := dif_pos date.isDate
  rw [read, if_neg (not_lt.2 (byteLength_partsText_ge _ _ _ _ _)), partsText]
  simp only [bind, Except.bind, pure, Except.pure,
    readTriple_padded 4 (by decide) (by omega : date.year.natAbs < 10 ^ 4)
      (by omega : date.month < 100) (by omega : date.day < 100),
    readTriple_padded 2 (by decide) (by omega : hour < 10 ^ 2) (by omega : minute < 100)
      (by omega : second < 100),
    hfraction, require, habs, hcivil, BEq.rfl, Bool.true_or, if_true]
  rw [if_neg (by omega)]
  simp only [hoffset, ne_eq, not_true_eq_false, if_false, not_le.2 hahead]
  rfl

/-- The parts of a written timestamp, one after another. -/
theorem write_eq {t : Timestamp} (h : t.InFourDigitYears) :
    t.write = partsText t.date (t.second / 3600) (t.second / 60 % 60)
      (t.second % 60 + t.nanosecond / 1000000000)
      (writeFraction (t.nanosecond % 1000000000) ++ ['Z']) := by
  rw [InFourDigitYears] at h
  rw [write, Date.write, writeYear, if_pos h, partsText]
  simp only [List.append_assoc, List.cons_append]

/-- What is written is never too short to be read. -/
theorem byteLength_write_ge (t : Timestamp) : 19 ≤ byteLength t.write := by
  refine Nat.le_trans ?_ (length_le_byteLength t.write)
  have hyear := le_length_writeYear t.date.year
  have hlength := le_length_padded 2
  have hmonth := hlength t.date.month
  have hday := hlength t.date.day
  have hhour := hlength (t.second / 3600)
  have hminute := hlength (t.second / 60 % 60)
  have hsecond := hlength (t.second % 60 + t.nanosecond / 1000000000)
  simp only [write, Date.write, List.length_append, List.length_cons]
  omega

/-- The timestamp that the text of a timestamp shows. A leap second behind another second than the
last of a minute is shown as the next second. -/
def shown (t : Timestamp) : Timestamp :=
  if h : t.LeapEndsMinute then t
  else ⟨t.date, t.second + 1, t.nanosecond - 1000000000, by
    have htime := t.isTime
    unfold LeapEndsMinute at h
    unfold Calendar.IsTime at htime ⊢
    omega⟩

/-- The text shows the timestamp itself just when a leap second in it ends a minute. -/
theorem shown_eq_iff {t : Timestamp} : t.shown = t ↔ t.LeapEndsMinute := by
  rw [shown]
  split
  · rename_i hleap
    exact ⟨fun _ => hleap, fun _ => rfl⟩
  · rename_i hleap
    refine ⟨fun heq => ?_, fun h => absurd h hleap⟩
    have hsecond := congrArg Timestamp.second heq
    exact absurd hsecond (Nat.succ_ne_self _)

/-- The written hour, minute and second give the second of the day back, and a leap second is told
from the written second alone. -/
theorem ofLocal?_written (t : Timestamp) :
    (if t.second % 60 + t.nanosecond / 1000000000 = 60 then
      ofLocal? t.date (3600 * (t.second / 3600) + 60 * (t.second / 60 % 60) + 59)
        (1000000000 + t.nanosecond % 1000000000) 0
    else
      ofLocal? t.date (3600 * (t.second / 3600) + 60 * (t.second / 60 % 60) +
        (t.second % 60 + t.nanosecond / 1000000000)) (t.nanosecond % 1000000000) 0) =
      some t.shown := by
  obtain ⟨hsecond, hnanosecond⟩ := t.isTime
  by_cases hleap : t.LeapEndsMinute
  · rw [shown, dif_pos hleap]
    unfold LeapEndsMinute at hleap
    by_cases hlong : 1000000000 ≤ t.nanosecond
    · -- the second is the last of its minute, and 60 is written
      have hlast := hleap hlong
      have hstart : 3600 * (t.second / 3600) + 60 * (t.second / 60 % 60) + 59 = t.second := by omega
      have hrest : 1000000000 + t.nanosecond % 1000000000 = t.nanosecond := by omega
      rw [if_pos (by omega), hstart, hrest, ofLocal?_zero]
    · have hstart : 3600 * (t.second / 3600) + 60 * (t.second / 60 % 60) +
          (t.second % 60 + t.nanosecond / 1000000000) = t.second := by omega
      have hrest : t.nanosecond % 1000000000 = t.nanosecond := by omega
      rw [if_neg (by omega), hstart, hrest, ofLocal?_zero]
  · -- the next second is written, which is no sixtieth
    rw [shown, dif_neg hleap]
    unfold LeapEndsMinute at hleap
    have hstart : 3600 * (t.second / 3600) + 60 * (t.second / 60 % 60) +
        (t.second % 60 + t.nanosecond / 1000000000) = t.second + 1 := by omega
    have hrest : t.nanosecond % 1000000000 = t.nanosecond - 1000000000 := by omega
    rw [if_neg (by omega), hstart, hrest]
    exact ofLocal?_zero ⟨t.date, t.second + 1, t.nanosecond - 1000000000, _⟩

/-- A written timestamp is read as the one that its text shows. -/
theorem read_write {t : Timestamp} (h : t.InFourDigitYears) : read t.write = .ok t.shown := by
  obtain ⟨hsecond, hnanosecond⟩ := t.isTime
  have hfraction := readFraction_writeFraction
    (by omega : t.nanosecond % 1000000000 < 1000000000)
  -- the written offset is zero, so the local time is the time
  rw [write_eq h, read_partsText h (by omega) (by omega) (by omega) hfraction
    (rfl : readOffset ['Z'] = .ok (0, [])) (by decide), ofLocal?_written]

/-- A year of any other size has a sign in front, where the reader needs a digit. -/
theorem read_write_of_not {t : Timestamp} (h : ¬ t.InFourDigitYears) :
    read t.write = .error .invalid := by
  obtain ⟨sign, rest, hsign, hwrite⟩ :
      ∃ sign rest, sign.isDigit = false ∧ t.write = sign :: rest := by
    rw [InFourDigitYears] at h
    rw [write, Date.write, writeYear, if_neg h]
    refine ⟨_, _, ?_, rfl⟩
    split <;> rfl
  rw [read, if_neg (not_lt.2 (byteLength_write_ge t)), hwrite, readTriple,
    readFixed_of_not_isDigit (by decide) hsign]
  rfl

/-- The text of a timestamp is read as the timestamp that it shows. -/
theorem parse_text {t : Timestamp} (h : t.InFourDigitYears) : parse t.text = .ok t.shown := by
  rw [parse, text, String.toList_ofList, read_write h]

theorem parse_text_of_not {t : Timestamp} (h : ¬ t.InFourDigitYears) :
    parse t.text = .error .invalid := by
  rw [parse, text, String.toList_ofList, read_write_of_not h]

/-- **The text of a timestamp is read back as the timestamp** just when the year has four digits and
a leap second ends a minute. -/
theorem parse_text_eq_iff {t : Timestamp} :
    parse t.text = .ok t ↔ t.InFourDigitYears ∧ t.LeapEndsMinute := by
  constructor
  · intro h
    by_cases hyears : t.InFourDigitYears
    · rw [parse_text hyears] at h
      exact ⟨hyears, shown_eq_iff.1 (Except.ok.inj h)⟩
    · rw [parse_text_of_not hyears] at h
      cases h
  · rintro ⟨hyears, hleap⟩
    rw [parse_text hyears, shown_eq_iff.2 hleap]

end Timestamp

end DocQuery
