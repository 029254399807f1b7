import DocQuery.Calendar.DateText
import DocQuery.Calendar.Timestamp

/-!
# The text of a timestamp

A timestamp is written as date, `T`, time and `Z`, with the fewest of 0, 3, 6 or 9 fraction digits
that are exact. Reading takes any offset from universal time and moves the instant there. A second
60 is a leap second and may stand in any minute.
-/

set_option autoImplicit false

namespace DocQuery

open Calendar

namespace Calendar

/-- The number of bytes of a text in UTF-8. -/
def byteLength (cs : List Char) : Nat := cs.foldr (fun c n => c.utf8Size + n) 0

/-- Read a number of exactly `width` digits. -/
def readFixed (width : Nat) (cs : List Char) : Except TextError (Nat × List Char) :=
  let ds := cs.take width
  if ds.length = width ∧ ds.all Char.isDigit then .ok (Text.value ds, cs.drop width)
  else .error .invalid

/-- Pass over one character of a class, where the end of the text is as wrong as any other. -/
def require (accepts : Char → Bool) : List Char → Except TextError (List Char)
  | [] => .error .invalid
  | c :: cs => if accepts c then .ok cs else .error .invalid

/-- Read three numbers of fixed width between two separators. -/
def readTriple (first : Nat) (separator : Char) (cs : List Char) :
    Except TextError ((Nat × Nat × Nat) × List Char) := do
  let (a, cs) ← readFixed first cs
  let cs ← require (· == separator) cs
  let (b, cs) ← readFixed 2 cs
  let cs ← require (· == separator) cs
  let (c, cs) ← readFixed 2 cs
  return ((a, b, c), cs)

/-- Read an optional fraction of a second, in nanoseconds. Digits after the ninth are passed over. -/
def readFraction : List Char → Except TextError (Nat × List Char)
  | '.' :: cs =>
      let ds := cs.takeWhile Char.isDigit
      if cs = [] then .error .tooShort
      else if ds = [] then .error .invalid
      else .ok (Text.value (ds.take 9) * Nat.pow 10 (9 - ds.length), cs.dropWhile Char.isDigit)
  | cs => .ok (0, cs)

/-- Read two digits where the text may end too early. -/
def readPair (cs : List Char) : Except TextError (Nat × List Char) :=
  if byteLength cs < 2 then .error .tooShort else readFixed 2 cs

/-- Read the hours and minutes of an offset after its sign, in minutes. -/
def readOffsetMinutes (cs : List Char) : Except TextError (Nat × List Char) := do
  let (hours, cs) ← readPair cs
  let cs ← expect (· == ':') cs
  let (minutes, cs) ← readPair cs
  if 60 ≤ minutes then throw .outOfRange
  return (60 * hours + minutes, cs)

/-- Read an offset: how many minutes local time is ahead of universal time. -/
def readOffset : List Char → Except TextError (Int × List Char)
  | [] => .error .tooShort
  | c :: cs =>
      if c = 'Z' ∨ c = 'z' then .ok (0, cs)
      else if c = '+' then (readOffsetMinutes cs).map (fun r => ((r.1 : Int), r.2))
      else if c = '-' ∨ c = '\u2212' then (readOffsetMinutes cs).map (fun r => (-(r.1 : Int), r.2))
      else .error .invalid

/-- The text of a fraction of a second. -/
def writeFraction (nanosecond : Nat) : List Char :=
  if nanosecond = 0 then []
  else if nanosecond % 1000000 = 0 then '.' :: Text.padded 3 (nanosecond / 1000000)
  else if nanosecond % 1000 = 0 then '.' :: Text.padded 6 (nanosecond / 1000)
  else '.' :: Text.padded 9 nanosecond

end Calendar

namespace Timestamp

/-- The text of a timestamp. -/
def write (t : Timestamp) : List Char :=
  t.date.write ++ 'T' :: Text.padded 2 (t.second / 3600) ++
    ':' :: Text.padded 2 (t.second / 60 % 60) ++
    ':' :: Text.padded 2 (t.second % 60 + t.nanosecond / 1000000000) ++
    writeFraction (t.nanosecond % 1000000000) ++ ['Z']

/-- The text of a timestamp, as a string. -/
def text (t : Timestamp) : String := String.ofList t.write

/-- Read a timestamp. -/
def read (cs : List Char) : Except TextError Timestamp := do
  if byteLength cs < 19 then throw .tooShort
  let ((year, month, day), cs) ← readTriple 4 '-' cs
  let some date := Date.ofCivil? year month day | throw .outOfRange
  let cs ← require (fun c => c == 'T' || c == 't' || c == ' ') cs
  let ((hour, minute, second), cs) ← readTriple 2 ':' cs
  let (nanosecond, cs) ← readFraction cs
  if 23 < hour ∨ 59 < minute ∨ 60 < second then throw .outOfRange
  let (ahead, cs) ← readOffset cs
  if cs ≠ [] then throw .tooLong
  if 1440 ≤ ahead.natAbs then throw .outOfRange
  let start := 3600 * hour + 60 * minute
  let instant :=
    if second = 60 then ofLocal? date (start + 59) (1000000000 + nanosecond) ahead
    else ofLocal? date (start + second) nanosecond ahead
  match instant with
  | some t => return t
  | none => throw .outOfRange

/-- Read a timestamp from a string. -/
def parse (text : String) : Except TextError Timestamp := read text.toList

end Timestamp

end DocQuery
