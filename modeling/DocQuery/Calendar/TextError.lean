/-!
# Faults in the text of a date or a time
-/

set_option autoImplicit false

namespace DocQuery.Calendar

/-- Why a text is not a date or a time. -/
inductive TextError where
  /-- The text ends where something is needed. -/
  | tooShort
  /-- A character is not the one needed. -/
  | invalid
  /-- A number names no month, day, hour, minute, second or offset. -/
  | outOfRange
  /-- The text goes on after its end. -/
  | tooLong
  deriving DecidableEq

/-- The wording of a fault. -/
def TextError.message : TextError → String
  | .tooShort => "premature end of input"
  | .invalid => "input contains invalid characters"
  | .outOfRange => "input is out of range"
  | .tooLong => "trailing input"

/-- Pass over one character of a class. -/
def expect (accepts : Char → Bool) : List Char → Except TextError (List Char)
  | [] => .error .tooShort
  | c :: cs => if accepts c then .ok cs else .error .invalid

end DocQuery.Calendar
