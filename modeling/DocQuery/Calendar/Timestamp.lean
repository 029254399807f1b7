import DocQuery.Calendar.Date

/-!
# Timestamps

An instant of universal time: a date, the second of the day and nanoseconds. A second billion of
nanoseconds stands for a leap second, which lies between the second and the next. It is read behind
the last second of a minute only, but a timestamp can have it behind any second.
-/

set_option autoImplicit false

namespace DocQuery

/-- The time of day that a second and nanoseconds name: the day has 86400 seconds, and each may have
a leap second behind it. -/
def Calendar.IsTime (second nanosecond : Nat) : Prop :=
  second < 86400 ∧ nanosecond < 2000000000

instance (second nanosecond : Nat) : Decidable (Calendar.IsTime second nanosecond) := by
  unfold Calendar.IsTime
  infer_instance

/-- An instant of universal time. -/
structure Timestamp where
  date : Date
  /-- The second of the day. -/
  second : Nat
  /-- Nanoseconds since that second. -/
  nanosecond : Nat
  /-- The day has that time. -/
  isTime : Calendar.IsTime second nanosecond
  deriving DecidableEq

namespace Timestamp

/-- A leap second of the timestamp ends a minute. -/
def LeapEndsMinute (t : Timestamp) : Prop := 1000000000 ≤ t.nanosecond → t.second % 60 = 59

instance (t : Timestamp) : Decidable t.LeapEndsMinute := inferInstanceAs (Decidable (_ → _))

/-- The instant of a date, a second of the day and nanoseconds, if there is one. -/
def ofParts? (date : Date) (second nanosecond : Nat) : Option Timestamp :=
  if h : Calendar.IsTime second nanosecond then some ⟨date, second, nanosecond, h⟩ else none

/-- The first of two instants is the earlier one. -/
def Before (a b : Timestamp) : Prop :=
  a.date.Before b.date ∨ a.date = b.date ∧
    (a.second < b.second ∨ a.second = b.second ∧ a.nanosecond < b.nanosecond)

instance (a b : Timestamp) : Decidable (Before a b) := by
  unfold Before
  infer_instance

/-- The instant whose local date and second of the day are given, where local time is ahead of
universal time by some minutes, less than a day. -/
def ofLocal? (date : Date) (second nanosecond : Nat) (ahead : Int) : Option Timestamp := do
  let total := (second : Int) - 60 * ahead
  if total < 0 then ofParts? (← date.previous?) (total + 86400).toNat nanosecond
  else if 86400 ≤ total then ofParts? (← date.next?) (total - 86400).toNat nanosecond
  else ofParts? date total.toNat nanosecond

end Timestamp

end DocQuery
