import DocQuery.Json.Numeral
import DocQuery.Proofs.Text.Digits

/-!
# Numerals read back

A numeral is written as its sign, whole part, fraction and exponent; the exponent always has a sign
of its own. In front of a text that does not go on with a digit, a point or an exponent mark, it is
read as the numeral that was written (`Numeral.read_write`). The text of an integer is that of a
numeral which denotes it.
-/

set_option autoImplicit false

namespace DocQuery.Json.Numeral

open Text

/-- No numeral goes on with the text. -/
def Ends (cs : List Char) : Prop :=
  ∀ c ∈ cs.head?, c.isDigit = false ∧ c ≠ '.' ∧ c ≠ 'e' ∧ c ≠ 'E'

/-- The parts are written with digits, at least one where a part stands, and the whole part has no
needless zero. -/
structure IsSpelled (n : Numeral) : Prop where
  whole_ne_nil : n.whole ≠ []
  whole_digits : AllDigits n.whole
  whole_zero : n.whole.head? = some '0' → n.whole = ['0']
  fraction_digits : ∀ ds ∈ n.fraction, ds ≠ [] ∧ AllDigits ds

/-- The text of a fraction. -/
def writeFraction : Option (List Char) → List Char
  | none => []
  | some ds => '.' :: ds

/-- The text of an exponent. -/
def writeExponent : Option Int → List Char
  | none => []
  | some e => 'e' :: (if e < 0 then '-' else '+') :: digits e.natAbs

/-- The text of a sign. -/
def writeSign (negative : Bool) : List Char := if negative then ['-'] else []

/-- The text of a numeral. -/
def write (n : Numeral) : List Char :=
  writeSign n.negative ++ (n.whole ++ (writeFraction n.fraction ++ writeExponent n.exponent))

/-! ## The parts, one after another -/

theorem Ends.noDigitAhead {cs : List Char} (h : Ends cs) : NoDigitAhead cs :=
  fun c hc => (h c hc).1

theorem readDigits_append {ds rest : List Char} (hne : ds ≠ []) (hds : AllDigits ds)
    (hrest : NoDigitAhead rest) : readDigits (ds ++ rest) = some (ds, rest) := by
  rw [readDigits, takeWhile_digits hds hrest, dropWhile_digits hds hrest, if_neg hne]

theorem readSign_writeSign (negative : Bool) {cs : List Char} (h : cs.head? ≠ some '-') :
    readSign (writeSign negative ++ cs) = (negative, cs) := by
  cases negative with
  | true => rfl
  | false =>
      cases cs with
      | nil => rfl
      | cons c cs => exact readSign.eq_2 (c :: cs) fun rest hc => h (by rw [hc]; rfl)

theorem readWhole_append {ds rest : List Char} (hne : ds ≠ []) (hds : AllDigits ds)
    (hzero : ds.head? = some '0' → ds = ['0']) (hrest : NoDigitAhead rest) :
    readWhole (ds ++ rest) = some (ds, rest) := by
  simp only [readWhole, readDigits_append hne hds hrest, Option.bind_eq_bind, Option.bind_some]
  -- a zero with digits behind it is refused
  split
  · exact absurd (hzero rfl) (by simp)
  · rfl

theorem readFraction_append {fraction : Option (List Char)} {rest : List Char}
    (hfraction : ∀ ds ∈ fraction, ds ≠ [] ∧ AllDigits ds) (hdigit : NoDigitAhead rest)
    (hpoint : rest.head? ≠ some '.') :
    readFraction (writeFraction fraction ++ rest) = some (fraction, rest) := by
  cases fraction with
  | none =>
      cases rest with
      | nil => rfl
      | cons c rest =>
          exact readFraction.eq_2 (c :: rest) fun cs hc => hpoint (by rw [hc]; rfl)
  | some ds =>
      obtain ⟨hne, hds⟩ := hfraction ds rfl
      rw [writeFraction, List.cons_append, readFraction, readDigits_append hne hds hdigit]
      rfl

theorem readExponent_append {exponent : Option Int} {rest : List Char} (hrest : Ends rest) :
    readExponent (writeExponent exponent ++ rest) = some (exponent, rest) := by
  cases exponent with
  | none =>
      cases rest with
      | nil => rfl
      | cons c rest =>
          obtain ⟨-, -, he, hE⟩ := hrest c rfl
          exact readExponent.eq_3 (c :: rest) (fun cs hc => he (List.cons.inj hc).1)
            fun cs hc => hE (List.cons.inj hc).1
  | some e =>
      have hdigits := readDigits_append (digits_ne_nil e.natAbs) (allDigits_digits e.natAbs)
        hrest.noDigitAhead
      by_cases he : e < 0
      · rw [writeExponent, if_pos he, List.cons_append, List.cons_append, readExponent, readPower,
          hdigits]
        show some (some (-(value (digits e.natAbs) : Int)), rest) = some (some e, rest)
        rw [value_digits]
        congr 3
        omega
      · rw [writeExponent, if_neg he, List.cons_append, List.cons_append, readExponent, readPower,
          hdigits]
        show some (some (value (digits e.natAbs) : Int), rest) = some (some e, rest)
        rw [value_digits]
        congr 3
        omega

/-- No digit and no point stands where the exponent may stand. -/
theorem writeExponent_append_ahead (exponent : Option Int) {rest : List Char} (hrest : Ends rest) :
    NoDigitAhead (writeExponent exponent ++ rest) ∧
      (writeExponent exponent ++ rest).head? ≠ some '.' := by
  cases exponent with
  | none =>
      refine ⟨hrest.noDigitAhead, fun hc => ?_⟩
      exact (hrest '.' hc).2.1 rfl
  | some e =>
      constructor
      · intro c hc
        cases hc
        rfl
      · intro hc
        cases hc

/-- No digit stands where the fraction may stand. -/
theorem writeFraction_append_ahead (fraction : Option (List Char)) {rest : List Char}
    (hrest : NoDigitAhead rest) : NoDigitAhead (writeFraction fraction ++ rest) := by
  cases fraction with
  | none => exact hrest
  | some ds =>
      intro c hc
      cases hc
      rfl

/-- **A written numeral is read back.** -/
theorem read_write {n : Numeral} (h : n.IsSpelled) {rest : List Char} (hrest : Ends rest) :
    read (n.write ++ rest) = some (n, rest) := by
  obtain ⟨hdigit, hpoint⟩ := writeExponent_append_ahead n.exponent hrest
  have hfraction := writeFraction_append_ahead n.fraction hdigit
  -- a whole part starts with a digit, so no sign is read where none is written
  have hsign : (n.whole ++ (writeFraction n.fraction ++ (writeExponent n.exponent ++ rest))).head? ≠
      some '-' := by
    rw [List.head?_append]
    cases hwhole : n.whole with
    | nil => exact absurd hwhole h.whole_ne_nil
    | cons c ds =>
        intro hc
        have hdigit := h.whole_digits c (by rw [hwhole]; exact List.mem_cons_self)
        cases hc
        cases hdigit
  rw [write, List.append_assoc, List.append_assoc, List.append_assoc, read,
    readSign_writeSign n.negative hsign]
  simp only [Option.bind_eq_bind, Option.bind_some,
    readWhole_append h.whole_ne_nil h.whole_digits h.whole_zero hfraction,
    readFraction_append h.fraction_digits hdigit hpoint, readExponent_append hrest]
  rfl

/-! ## Integers -/

/-- The numeral of an integer. -/
def ofInt (n : Int) : Numeral := ⟨decide (n < 0), digits n.natAbs, none, none⟩

theorem write_ofInt (n : Int) : (ofInt n).write = integer n := by
  rw [write, integer, ofInt]
  by_cases hn : n < 0
  · rw [if_pos hn, decide_eq_true hn]
    simp [writeSign, writeFraction, writeExponent]
  · rw [if_neg hn, decide_eq_false hn]
    simp [writeSign, writeFraction, writeExponent]

theorem isSpelled_digits {negative : Bool} {n : Nat} {fraction : Option (List Char)}
    {exponent : Option Int} (h : ∀ ds ∈ fraction, ds ≠ [] ∧ AllDigits ds) :
    IsSpelled ⟨negative, digits n, fraction, exponent⟩ where
  whole_ne_nil := digits_ne_nil n
  whole_digits := allDigits_digits n
  whole_zero := by
    intro hhead
    by_cases hn : n = 0
    · show digits n = ['0']
      rw [hn, digits]
      rfl
    · exact absurd hhead (head?_digits_ne_zero hn)
  fraction_digits := h

theorem toInt_ofInt (n : Int) : (ofInt n).toInt = n := by
  rw [toInt, ofInt, value_digits]
  by_cases hn : n < 0
  · rw [decide_eq_true hn, if_pos rfl]
    omega
  · rw [decide_eq_false hn, if_neg Bool.false_ne_true]
    omega

/-- The numeral of an integer that fits denotes it. -/
theorem toNumber?_ofInt {n : Int} (fits : FitsWord n) :
    (ofInt n).toNumber? = some (.integer n fits) := by
  have hinteger : (ofInt n).IsInteger := by
    refine ⟨⟨rfl, rfl⟩, by rwa [toInt_ofInt], ?_⟩
    -- zero has no sign
    rintro ⟨hnegative, hzero⟩
    rw [toInt_ofInt] at hzero
    have hlt : n < 0 := of_decide_eq_true hnegative
    omega
  rw [toNumber?, dif_pos hinteger]
  congr 2
  exact toInt_ofInt n

end DocQuery.Json.Numeral
