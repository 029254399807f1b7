import DocQuery.Text.Decimal

/-!
# Durations

A duration is a number of seconds and of nanoseconds within a second. It is shown in the largest of
four units that it reaches, with a fraction as long as it needs to be.
-/

set_option autoImplicit false

namespace DocQuery

/-- A span of time. -/
structure Duration where
  seconds : UInt64
  nanoseconds : Nat
  isFraction : nanoseconds < 1000000000
  deriving DecidableEq

namespace Duration

/-- The duration of a number of milliseconds. -/
def ofMilliseconds (ms : UInt64) : Duration where
  seconds := ms / 1000
  nanoseconds := ms.toNat % 1000 * 1000000
  isFraction := by omega

/-- A number of units and a fraction of a unit, whose digits fill a width. Zeros at the end of the
fraction are left out. -/
def inUnits (whole fraction width : Nat) (unit : String) : String :=
  let ds := ((Text.padded width fraction).reverse.dropWhile (· == '0')).reverse
  let point := if ds = [] then [] else '.' :: ds
  String.ofList (Text.digits whole ++ point) ++ unit

/-- The text of a duration. -/
def text (d : Duration) : String :=
  if 0 < d.seconds then inUnits d.seconds.toNat d.nanoseconds 9 "s"
  else if 1000000 ≤ d.nanoseconds then
    inUnits (d.nanoseconds / 1000000) (d.nanoseconds % 1000000) 6 "ms"
  else if 1000 ≤ d.nanoseconds then
    inUnits (d.nanoseconds / 1000) (d.nanoseconds % 1000) 3 "\u00b5s"
  else inUnits d.nanoseconds 0 0 "ns"

end Duration

end DocQuery
