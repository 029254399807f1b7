import DocQuery.Calendar.DateText
import DocQuery.Proofs.Text.Digits

/-!
# Dates read back

A numeral is read as its number wherever it ends at its width or in front of what is no digit
(`Calendar.readNumber_numeral`), so a year, a month and a day make up the text of the date that they
make (`Date.read_of_readYear`). The text that a date is written as is one of these texts, so every
date is read back from its text (`Date.parse_text`).
-/

set_option autoImplicit false

namespace DocQuery

open Text

namespace Calendar

/-- Nothing is passed over in front of a character that is no blank. -/
theorem skipBlanks_cons {c : Char} {cs : List Char} (h : isBlank c = false) :
    skipBlanks (c :: cs) = c :: cs := by
  rw [skipBlanks, List.dropWhile_cons_of_neg (by rw [h]; exact Bool.false_ne_true)]

/-- A digit is no blank and no sign. -/
theorem not_isBlank_of_isDigit {c : Char} (h : c.isDigit = true) :
    isBlank c = false ∧ c ≠ '-' ∧ c ≠ '+' := by
  refine ⟨?_, ?_, ?_⟩
  · have hrange := toNat_of_isDigit h
    -- the blanks below the digits and the ones above them
    have hwide : ∀ n ∈ wideBlanks, 57 < n := by decide
    rw [Bool.eq_false_iff]
    intro hblank
    simp only [isBlank, Bool.or_eq_true, beq_iff_eq, decide_eq_true_eq,
      List.contains_iff_mem] at hblank
    rcases hblank with (rfl | hcontrol) | hmem
    · cases h
    · omega
    · exact absurd (hwide _ hmem) (by omega)
  · rintro rfl
    cases h
  · rintro rfl
    cases h

theorem exists_cons_of_digits {ds : List Char} (hne : ds ≠ []) (hds : AllDigits ds) :
    ∃ c cs, ds = c :: cs ∧ c.isDigit = true := by
  cases ds with
  | nil => exact absurd rfl hne
  | cons c cs => exact ⟨c, cs, rfl, hds c List.mem_cons_self⟩

theorem skipBlanks_digits {ds : List Char} (hne : ds ≠ []) (hds : AllDigits ds)
    (rest : List Char) : skipBlanks (ds ++ rest) = ds ++ rest := by
  obtain ⟨c, cs, rfl, hc⟩ := exists_cons_of_digits hne hds
  exact skipBlanks_cons (not_isBlank_of_isDigit hc).1

/-- A number ends where the digits do, or where its width does. -/
theorem takeWhile_width {width : Option Nat} {ds rest : List Char} (hds : AllDigits ds)
    (hwidth : ∀ k ∈ width, ds.length ≤ k) (hend : NoDigitAhead rest ∨ width = some ds.length) :
    ((width.map (ds ++ rest).take).getD (ds ++ rest)).takeWhile Char.isDigit = ds := by
  cases width with
  | none =>
      rcases hend with hrest | hnone
      · exact takeWhile_digits hds hrest
      · cases hnone
  | some k =>
      have hle := hwidth k rfl
      have hrest : NoDigitAhead (rest.take (k - ds.length)) := by
        rcases hend with hrest | hlength
        · intro c hc
          rw [List.head?_take] at hc
          split at hc
          · cases hc
          · exact hrest c hc
        · -- the width is used up, so nothing is left to look at
          obtain rfl := Option.some.inj hlength
          rw [Nat.sub_self, List.take_zero]
          rintro c ⟨⟩
      rw [Option.map_some, Option.getD_some, List.take_append, List.take_of_length_le hle]
      exact takeWhile_digits hds hrest

/-- A numeral is read up to its end. -/
theorem readNumber_numeral {width : Option Nat} {ds rest : List Char} {n : Nat}
    (h : IsNumeral ds n) (hwidth : ∀ k ∈ width, ds.length ≤ k)
    (hend : NoDigitAhead rest ∨ width = some ds.length) (hfits : n < 9223372036854775808) :
    readNumber width (ds ++ rest) = .ok (n, rest) := by
  have hmax : Int64.maxValue.toInt = 9223372036854775807 := rfl
  have hvalue := h.denotes
  rw [readNumber]
  simp only [takeWhile_width h.allDigits hwidth hend]
  rw [if_neg (List.append_ne_nil_of_left_ne_nil h.ne_nil rest), if_neg h.ne_nil,
    if_neg (by omega), List.drop_left, hvalue]

theorem le_length_writeYear (year : Int) : 4 ≤ (writeYear year).length := by
  have hlength := le_length_padded 4 year.natAbs
  rw [writeYear]
  split
  · exact hlength
  · exact Nat.le_succ_of_le hlength

/-- A numeral with a sign; the sign of zero does not matter. -/
inductive IsSignedNumeral : List Char → Int → Prop where
  | plus {ds : List Char} {n : Nat} (numeral : IsNumeral ds n) : IsSignedNumeral ('+' :: ds) n
  | minus {ds : List Char} {n : Nat} (numeral : IsNumeral ds n) : IsSignedNumeral ('-' :: ds) (-n)

theorem isSignedNumeral_signed {ds : List Char} {n : Int} (h : IsNumeral ds n.natAbs) :
    IsSignedNumeral ((if n < 0 then '-' else '+') :: ds) n := by
  by_cases hsign : n < 0
  · have hminus := IsSignedNumeral.minus h
    rw [Int.ofNat_natAbs_of_nonpos hsign.le, neg_neg] at hminus
    rw [if_pos hsign]
    exact hminus
  · have hplus := IsSignedNumeral.plus h
    rw [Int.natAbs_of_nonneg (not_lt.1 hsign)] at hplus
    rw [if_neg hsign]
    exact hplus

/-- A year with its sign is read, however many digits it has. -/
theorem readYear_signed {cs rest : List Char} {year : Int} (h : IsSignedNumeral cs year)
    (hrange : Int32.minValue.toInt ≤ year ∧ year ≤ Int32.maxValue.toInt)
    (hrest : NoDigitAhead rest) : readYear (cs ++ rest) = .ok (year, rest) := by
  have hmin : Int32.minValue.toInt = -2147483648 := rfl
  have hmax : Int32.maxValue.toInt = 2147483647 := rfl
  have hnumber {ds : List Char} {n : Nat} (numeral : IsNumeral ds n) (hn : n ≤ 2147483648) :
      readNumber none (ds ++ rest) = .ok (n, rest) :=
    readNumber_numeral numeral (fun _ => nofun) (.inl hrest) (by omega)
  rw [readYear]
  cases h with
  | plus numeral =>
      rw [List.cons_append, skipBlanks_cons rfl]
      simp only [hnumber numeral (by omega), Except.map, bind, Except.bind, if_pos hrange]
      rfl
  | minus numeral =>
      rw [List.cons_append, skipBlanks_cons rfl]
      simp only [hnumber numeral (by omega), Except.map, bind, Except.bind, if_pos hrange]
      rfl

/-- A year of up to four digits needs no sign. -/
theorem readYear_unsigned {ds rest : List Char} {year : Nat} (h : IsNumeral ds year)
    (hwidth : ds.length ≤ 4) (hrest : NoDigitAhead rest) :
    readYear (ds ++ rest) = .ok ((year : Int), rest) := by
  have hmin : Int32.minValue.toInt = -2147483648 := rfl
  have hmax : Int32.maxValue.toInt = 2147483647 := rfl
  have hlt : year < 10 ^ 4 :=
    h.lt_pow_length.trans_le (Nat.pow_le_pow_right (by decide) hwidth)
  have hread : readNumber (some 4) (ds ++ rest) = .ok (year, rest) := by
    apply readNumber_numeral h _ (.inl hrest) (by omega)
    rintro k ⟨⟩
    exact hwidth
  rw [readYear, skipBlanks_digits h.ne_nil h.allDigits]
  -- the first digit is no sign
  obtain ⟨c, cs, hhead, hc⟩ := exists_cons_of_digits h.ne_nil h.allDigits
  obtain ⟨-, hminus, hplus⟩ := not_isBlank_of_isDigit hc
  rw [hhead, List.cons_append] at hread ⊢
  split
  · rename_i ds heq
    exact absurd (List.cons.inj heq).1 hminus
  · rename_i ds heq
    exact absurd (List.cons.inj heq).1 hplus
  · rw [hread]
    simp only [Except.map, bind, Except.bind]
    rw [if_pos (by omega)]
    rfl

/-- A written year is read back. -/
theorem readYear_writeYear {year : Int} (hfirst : firstYear ≤ year) (hlast : year ≤ lastYear)
    {rest : List Char} (hrest : NoDigitAhead rest) :
    readYear (writeYear year ++ rest) = .ok (year, rest) := by
  have hmin : Int32.minValue.toInt = -2147483648 := rfl
  have hmax : Int32.maxValue.toInt = 2147483647 := rfl
  rw [firstYear] at hfirst
  rw [lastYear] at hlast
  have hrange : Int32.minValue.toInt ≤ year ∧ year ≤ Int32.maxValue.toInt := by omega
  have hnumeral := isNumeral_padded 4 year.natAbs
  rw [writeYear]
  by_cases hplain : 0 ≤ year ∧ year ≤ 9999
  · have hlength : (padded 4 year.natAbs).length = 4 := length_padded (by omega) (by decide)
    have hread := readYear_unsigned hnumeral hlength.le hrest
    rw [if_pos hplain, hread, Int.natAbs_of_nonneg hplain.1]
  · rw [if_neg hplain]
    exact readYear_signed (isSignedNumeral_signed hnumeral) hrange hrest

/-- A numeral of up to two digits is read as a month or a day when it is in range. -/
theorem readCount_numeral {last n : Nat} {ds rest : List Char} (h : IsNumeral ds n)
    (hwidth : ds.length ≤ 2) (hend : NoDigitAhead rest ∨ ds.length = 2) :
    readCount last (ds ++ rest) =
      if 1 ≤ n ∧ n ≤ last then .ok (n, rest) else .error .outOfRange := by
  have hlt : n < 10 ^ 2 := h.lt_pow_length.trans_le (Nat.pow_le_pow_right (by decide) hwidth)
  have hread : readNumber (some 2) (ds ++ rest) = .ok (n, rest) := by
    refine readNumber_numeral h ?_ (hend.imp id fun hlength => by rw [hlength]) (by omega)
    rintro k ⟨⟩
    exact hwidth
  rw [readCount, skipBlanks_digits h.ne_nil h.allDigits, hread]
  rfl

theorem day_le {year : Int} {month day : Nat} (h : IsDate year month day) : day ≤ 31 := by
  obtain ⟨-, -, -, -, -, hday⟩ := h
  rw [daysInMonth] at hday
  split at hday
  · split at hday <;> omega
  · split at hday <;> omega

end Calendar

namespace Date

open Calendar

/-- A year that is read, a month and a day are the date that they make, if there is one. -/
theorem read_of_readYear {ys ms ns : List Char} {year : Int} {month day : Nat}
    (hyear : ∀ rest, NoDigitAhead rest → readYear (ys ++ rest) = .ok (year, rest))
    (hmonth : IsNumeral ms month) (hms : ms.length ≤ 2) (hday : IsNumeral ns day)
    (hns : ns.length ≤ 2) :
    read (ys ++ '-' :: ms ++ '-' :: ns) =
      match ofCivil? year month day with
      | some d => .ok d
      | none => .error .outOfRange := by
  have hdash (cs : List Char) : NoDigitAhead ('-' :: cs) := by
    rintro c ⟨⟩
    rfl
  have hend : NoDigitAhead [] := by
    rintro c ⟨⟩
  have hmonths := @readCount_numeral 12 month ms ('-' :: ns) hmonth hms (.inl (hdash ns))
  have hdays := @readCount_numeral 31 day ns [] hday hns (.inl hend)
  rw [List.append_nil] at hdays
  rw [List.append_assoc, List.cons_append, read, hyear _ (hdash _)]
  simp only [bind, Except.bind, expect, BEq.rfl, if_true, hmonths]
  -- a month or a day that is out of range is refused where it is read, and makes no date
  by_cases hmonth' : 1 ≤ month ∧ month ≤ 12
  · simp only [if_pos hmonth', BEq.rfl, if_true, hdays]
    by_cases hday' : 1 ≤ day ∧ day ≤ 31
    · simp only [if_pos hday', ne_eq, not_true_eq_false, if_false]
      cases ofCivil? year month day <;> rfl
    · have hnone : ofCivil? year month day = none := by
        refine dif_neg fun h => hday' ⟨?_, day_le h⟩
        exact h.2.2.2.2.1
      simp only [if_neg hday', hnone]
  · have hnone : ofCivil? year month day = none := by
      refine dif_neg fun h => hmonth' ⟨?_, ?_⟩
      · exact h.2.2.1
      · exact h.2.2.2.1
    simp only [if_neg hmonth', hnone]

/-- A written date is read back. -/
theorem read_write (d : Date) : read d.write = .ok d := by
  have hisDate := d.isDate
  have hday' := day_le hisDate
  obtain ⟨hfirst, hlast, hmonth, hmonth', hday, -⟩ := hisDate
  have hwidth {n : Nat} (h : n < 100) : (padded 2 n).length ≤ 2 := (length_padded h (by decide)).le
  have hread := @read_of_readYear (writeYear d.year) _ _ d.year _ _
    (fun rest hrest => readYear_writeYear hfirst hlast hrest)
    (isNumeral_padded 2 d.month) (hwidth (by omega)) (isNumeral_padded 2 d.day) (hwidth (by omega))
  have hcivil : ofCivil? d.year d.month d.day = some d := dif_pos d.isDate
  rw [hcivil] at hread
  exact hread

/-- **The text of a date is read back as the date.** -/
theorem parse_text (d : Date) : parse d.text = .ok d := by
  rw [parse, text, String.toList_ofList, read_write]

/-- **Dates and their texts.** Every date is read back from its text, so different dates have
different texts. The text of a signed year, a month and a day of at most two digits is read exactly
when they make a date, and as that date. -/
theorem parse_civil_exact :
    (∀ d : Date, parse d.text = .ok d) ∧
    (∀ a b : Date, a.text = b.text → a = b) ∧
    ∀ (year : Int32) (month day : Nat) (ys ms ns : List Char),
      IsSignedNumeral ys year.toInt → IsNumeral ms month → ms.length ≤ 2 → IsNumeral ns day →
      ns.length ≤ 2 → ∀ d, parse (String.ofList (ys ++ '-' :: ms ++ '-' :: ns)) = .ok d ↔
        ofCivil? year.toInt month day = some d := by
  refine ⟨parse_text, ?_, ?_⟩
  · intro a b htext
    have hb := parse_text b
    rw [← htext, parse_text] at hb
    exact Except.ok.inj hb
  · intro year month day ys ms ns hyear hmonth hms hday hns d
    have hrange : Int32.minValue.toInt ≤ year.toInt ∧ year.toInt ≤ Int32.maxValue.toInt :=
      ⟨year.minValue_le_toInt, year.toInt_le⟩
    have hread := read_of_readYear (fun _ => readYear_signed hyear hrange) hmonth hms hday hns
    rw [parse, String.toList_ofList, hread]
    cases ofCivil? year.toInt month day with
    | none => simp
    | some d' => simp

/-- Four years before the year zero there is a 29th of February, and three years before it there is
none. -/
theorem parse_civil_exact_leapDay :
    parse "-4-2-29" = .ok ⟨-4, 2, 29, by decide⟩ ∧ ∀ d, parse "-03-2-29" ≠ .ok d := by
  obtain ⟨-, -, hcivil⟩ := parse_civil_exact
  have hyear : IsSignedNumeral ['-', '4'] (-4 : Int32).toInt :=
    .minus ⟨List.cons_ne_nil _ _, by simp [AllDigits], rfl⟩
  have hyear' : IsSignedNumeral ['-', '0', '3'] (-3 : Int32).toInt :=
    .minus ⟨List.cons_ne_nil _ _, by simp [AllDigits], rfl⟩
  have hmonth : IsNumeral ['2'] 2 := ⟨List.cons_ne_nil _ _, by simp [AllDigits], rfl⟩
  have hday : IsNumeral ['2', '9'] 29 := ⟨List.cons_ne_nil _ _, by simp [AllDigits], rfl⟩
  constructor
  · exact (hcivil (-4) 2 29 _ _ _ hyear hmonth (by decide) hday (by decide) _).2 rfl
  · intro d h
    have hnone := (hcivil (-3) 2 29 _ _ _ hyear' hmonth (by decide) hday (by decide) d).1 h
    cases hnone

end Date

end DocQuery
