import DocQuery.Dict
import DocQuery.Value.Basic

/-!
# Shapes of data

A shape describes a type of structured data: scalars, values as they are, optional data, lists,
dictionaries and records. `Shape.Data` is the type that a shape describes.
-/

set_option autoImplicit false

namespace DocQuery

mutual

/-- A description of a type of data. -/
inductive Shape where
  | string
  | boolean
  /-- Integers of 32 bits. -/
  | int32
  | long
  | double
  | ref
  | timestamp
  | date
  /-- Values as they are. -/
  | value
  /-- Sets whose query is an object, by its members. -/
  | set
  | option (content : Shape)
  | list (item : Shape)
  | map (member : Shape)
  | record (name : String) (fields : Fields)

/-- The fields of a record, each at its key. -/
inductive Fields where
  | nil
  | cons (key : String) (shape : Shape) (rest : Fields)

end

/-- Fields from a list of keys and shapes. -/
def Fields.ofList : List (String × Shape) → Fields
  | [] => .nil
  | (key, shape) :: rest => .cons key shape (ofList rest)

/-- The keys of fields, in order. -/
def Fields.keys : Fields → List String
  | .nil => []
  | .cons key _ rest => key :: rest.keys

mutual

/-- The data of a shape. -/
def Shape.Data : Shape → Type
  | .string => String
  | .boolean => Bool
  | .int32 => Int32
  | .long => Int64
  | .double => Binary64
  | .ref => Ref
  | .timestamp => Timestamp
  | .date => Date
  | .value => Value
  | .set => Dict Value
  | .option content => Option content.Data
  | .list item => List item.Data
  | .map member => Dict member.Data
  | .record _ fields => fields.Data

/-- The data of fields, one after another. -/
def Fields.Data : Fields → Type
  | .nil => Unit
  | .cons _ shape rest => shape.Data × rest.Data

end

/-- What stands for a member that is missing altogether. Only optional data may be missing. -/
def Shape.absent? : (shape : Shape) → Option shape.Data
  | .option _ => some none
  | .string | .boolean | .int32 | .long | .double | .ref | .timestamp | .date | .value | .set
  | .list _ | .map _ | .record _ _ => none

/-- The data is left out of a record: it is optional and there is none. -/
def Shape.isOmitted : (shape : Shape) → shape.Data → Bool
  | .option _, none => true
  | .option _, some _ => false
  | .string, _ | .boolean, _ | .int32, _ | .long, _ | .double, _ | .ref, _ | .timestamp, _
  | .date, _ | .value, _ | .set, _ | .list _, _ | .map _, _ | .record _ _, _ => false

end DocQuery
