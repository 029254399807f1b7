import DocQuery.Calendar.Date
import DocQuery.Calendar.TextError
import DocQuery.Text.Blank
import DocQuery.Text.Decimal

/-!
# The text of a date

A date is written as year, month and day with two digits for month and day. A year of at most four
digits has four digits and no sign; any other year has a sign and at least four digits. Reading
takes fewer digits too, and blanks in front of each number.
-/

set_option autoImplicit false

namespace DocQuery

open Calendar

namespace Calendar

/-- The text of a year. -/
def writeYear (year : Int) : List Char :=
  if 0 ≤ year ∧ year ≤ 9999 then Text.padded 4 year.natAbs
  else (if year < 0 then '-' else '+') :: Text.padded 4 year.natAbs

/-- Read a number of at least one digit and at most `width` digits, if there is a width. It has to
fit in 64 bits with a sign. -/
def readNumber (width : Option Nat) (cs : List Char) : Except TextError (Nat × List Char) :=
  let ds := ((width.map cs.take).getD cs).takeWhile Char.isDigit
  if cs = [] then .error .tooShort
  else if ds = [] then .error .invalid
  else if Int64.maxValue.toInt < Text.value ds then .error .outOfRange
  else .ok (Text.value ds, cs.drop ds.length)

/-- Pass over leading blanks. -/
def skipBlanks (cs : List Char) : List Char := cs.dropWhile Text.isBlank

/-- Read a year. A signed year may have any number of digits, an unsigned one has at most four. -/
def readYear (cs : List Char) : Except TextError (Int × List Char) := do
  let (year, rest) ← match skipBlanks cs with
    | '-' :: ds => (readNumber none ds).map (fun r => (-(r.1 : Int), r.2))
    | '+' :: ds => (readNumber none ds).map (fun r => ((r.1 : Int), r.2))
    | ds => (readNumber (some 4) ds).map (fun r => ((r.1 : Int), r.2))
  if Int32.minValue.toInt ≤ year ∧ year ≤ Int32.maxValue.toInt then return (year, rest)
  else throw .outOfRange

/-- Read a number of at most two digits between one and `last`. -/
def readCount (last : Nat) (cs : List Char) : Except TextError (Nat × List Char) := do
  let (n, rest) ← readNumber (some 2) (skipBlanks cs)
  if 1 ≤ n ∧ n ≤ last then return (n, rest)
  else throw .outOfRange

end Calendar

namespace Date

/-- The text of a date. -/
def write (d : Date) : List Char :=
  writeYear d.year ++ '-' :: Text.padded 2 d.month ++ '-' :: Text.padded 2 d.day

/-- The text of a date, as a string. -/
def text (d : Date) : String := String.ofList d.write

/-- Read a date. -/
def read (cs : List Char) : Except TextError Date := do
  let (year, cs) ← readYear cs
  let cs ← expect (· == '-') cs
  let (month, cs) ← readCount 12 cs
  let cs ← expect (· == '-') cs
  let (day, cs) ← readCount 31 cs
  if cs ≠ [] then throw .tooLong
  match ofCivil? year month day with
  | some date => return date
  | none => throw .outOfRange

/-- Read a date from a string. -/
def parse (text : String) : Except TextError Date := read text.toList

end Date

end DocQuery
