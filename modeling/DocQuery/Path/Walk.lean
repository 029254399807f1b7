import DocQuery.FieldError

/-!
# Walking a path

A path is walked from a value segment by segment. The first segment that fails stops the walk, and
the failure names the whole path.
-/

set_option autoImplicit false

namespace DocQuery

/-- The value one step further. -/
def Segment.step : Segment → Value → Except FieldError Value
  | .key name, v =>
      match v.asObject? with
      | none => .error (.typeMismatch .object v.kind)
      | some members =>
          match members.find? name with
          | none => .error (.keyNotFound name)
          | some member => .ok member
  | .index position, v =>
      match v.asArray? with
      | none => .error (.typeMismatch .array v.kind)
      | some items =>
          match items[position]? with
          | none => .error (.indexNotFound position)
          | some item => .ok item

namespace Path

/-- The value that segments lead to, or the failure of the first one that fails. -/
def walk : Path → Value → Except FieldError Value
  | [], v => .ok v
  | segment :: path, v => do
      let next ← segment.step v
      walk path next

/-- The value that a path leads to. -/
def get (path : Path) (root : Value) : Except FieldError Value :=
  (path.walk root).mapError (.pathNotFound path)

end Path

end DocQuery
