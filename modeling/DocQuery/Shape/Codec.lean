import DocQuery.Codec
import DocQuery.Shape.Basic

/-!
# Decoding and encoding by shape

Data of a shape is read from values of the same structure. Decoding looks at every position and
reports all that do not fit; a record reports its members in the order of its fields. Optional data
is null on its own and left out as a member of a record.
-/

set_option autoImplicit false

namespace DocQuery

/-- What is said of an integer that does not fit in 32 bits. -/
def outOfRangeText (n : Int64) : String :=
  String.ofList (Text.integer n.toInt) ++ " is out of range for i32"

/-- Decode an integer of 32 bits. -/
def decodeInt32 (v : Value) : Except FieldError Int32 := do
  let n ← Codec.long.decode v
  if Int32.minValue.toInt ≤ n.toInt ∧ n.toInt ≤ Int32.maxValue.toInt then return n.toInt32
  else throw (.invalid (outOfRangeText n))

/-- Decode a set whose query is an object. -/
def decodeSet (v : Value) : Except FieldError (Dict Value) := do
  let query ← Codec.setQuery.decode v
  decodeObject .ok query

mutual

/-- Read data of a shape from a value. -/
def Shape.decode : (shape : Shape) → Value → Except FieldError shape.Data
  | .string, v => Codec.string.decode v
  | .boolean, v => Codec.boolean.decode v
  | .int32, v => decodeInt32 v
  | .long, v => Codec.long.decode v
  | .double, v => Codec.double.decode v
  | .ref, v => Codec.ref.decode v
  | .timestamp, v => Codec.timestamp.decode v
  | .date, v => Codec.date.decode v
  | .value, v => Codec.value.decode v
  | .set, v => decodeSet v
  | .option content, v =>
      if v.isNull then .ok none else (content.decode v).map some
  | .list item, v => decodeArray (fun position => [.index position]) item.decode v
  | .map member, v => decodeObject member.decode v
  | .record name fields, v => do
      let members ← Codec.object.decode v
      (fields.decode members).mapError (.record name)

/-- Read the data of fields from the members of an object. -/
def Fields.decode :
    (fields : Fields) → Dict Value → Except (List (String × FieldError)) fields.Data
  | .nil, _ => .ok ()
  | .cons key shape rest, members =>
      let member := match members.find? key with
        | some v => shape.decode v
        | none => match shape.absent? with
            | some absent => .ok absent
            | none => .error (.keyNotFound key)
      gather key Prod.mk member (rest.decode members)

end

/-- Encode data one by one, up to the first refusal. -/
def encodeItems {α : Type} (encode : α → Except EncodeError Value) :
    List α → Except EncodeError (List Value)
  | [] => .ok []
  | item :: items => do
      let v ← encode item
      let vs ← encodeItems encode items
      return v :: vs

/-- Encode the values of a dictionary in key order, up to the first refusal. -/
def encodeMembers {α : Type} (encode : α → Except EncodeError Value) :
    {bound : Option String} → Entries α bound → Except EncodeError (Entries Value bound)
  | _, .nil => .ok .nil
  | _, .cons key above member members => do
      let v ← encode member
      let vs ← encodeMembers encode members
      return .cons key above v vs

mutual

/-- Write data of a shape as a value. -/
def Shape.encode : (shape : Shape) → shape.Data → Except EncodeError Value
  | .string, x => Codec.string.encode x
  | .boolean, x => Codec.boolean.encode x
  | .int32, x => Codec.long.encode (Int32.toInt64 x)
  | .long, x => Codec.long.encode x
  | .double, x => Codec.double.encode x
  | .ref, x => Codec.ref.encode x
  | .timestamp, x => Codec.timestamp.encode x
  | .date, x => Codec.date.encode x
  | .value, x => Codec.value.encode x
  | .set, x => Codec.setQuery.encode (.object x)
  | .option _, none => .ok .null
  | .option content, some x => content.encode x
  | .list item, x => (encodeItems item.encode x).map .array
  | .map member, x => (encodeMembers member.encode x).map .object
  | .record _ fields, x => (fields.encode x).map Value.ofMembers

/-- Write the data of fields as members, without those that are left out. -/
def Fields.encode : (fields : Fields) → fields.Data → Except EncodeError (List (String × Value))
  | .nil, _ => .ok []
  | .cons key shape rest, (x, xs) =>
      if shape.isOmitted x then rest.encode xs
      else do
        let v ← shape.encode x
        let members ← rest.encode xs
        return (key, v) :: members

end

/-- The codec of a shape. -/
def Shape.codec (shape : Shape) : Codec shape.Data := ⟨shape.decode, shape.encode⟩

end DocQuery
