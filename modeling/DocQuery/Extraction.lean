import DocQuery.Field

/-!
# Extraction

To extract data is to read what lies at a path of a value and to write it again, so that the result
shows what was read. With a second path, an array lies at the first, and the second leads to the data
inside each of its elements.
-/

set_option autoImplicit false

namespace DocQuery

/-- What data is read as. -/
inductive Reading where
  | value
  | string
  | long
  | double
  | boolean
  | ref
  | timestamp
  | date
  | array
  | object
  deriving DecidableEq

namespace Reading

/-- Every reading. -/
def all : List Reading :=
  [value, string, long, double, boolean, ref, timestamp, date, array, object]

/-- The name of a reading. -/
def name : Reading → String
  | value => "value"
  | string => "string"
  | long => "long"
  | double => "double"
  | boolean => "boolean"
  | ref => "ref"
  | timestamp => "timestamp"
  | date => "date"
  | array => "array"
  | object => "object"

/-- The reading of a name. -/
def ofName? (name : String) : Option Reading := all.find? (fun reading => reading.name == name)

/-- The data that a reading gives. -/
def Data : Reading → Type
  | value => Value
  | string => String
  | long => Int64
  | double => Binary64
  | boolean => Bool
  | ref => Ref
  | timestamp => Timestamp
  | date => Date
  | array => List Value
  | object => Dict Value

/-- The codec of a reading. -/
def codec : (reading : Reading) → Codec reading.Data
  | value => Codec.value
  | string => Codec.string
  | long => Codec.long
  | double => Codec.double
  | boolean => Codec.boolean
  | ref => Codec.ref
  | timestamp => Codec.timestamp
  | date => Codec.date
  | array => Codec.array
  | object => Codec.object

end Reading

/-- Why nothing was extracted. -/
inductive ExtractionError where
  /-- The data is not there, or it is of another kind. -/
  | unread (cause : FieldError)
  /-- The data can not be written again. -/
  | unwritten (cause : EncodeError)

/-- Extract the data at a path. -/
def extractOne (reading : Reading) (path : Path) (root : Value) : Except ExtractionError Value := do
  let data ← (((Field.atPath path).withCodec reading.codec).get root).mapError .unread
  (reading.codec.encode data).mapError .unwritten

/-- Extract the data at a path inside each element of the array at another path. -/
def extractEach (reading : Reading) (path each : Path) (root : Value) :
    Except ExtractionError Value := do
  let elements := (Field.atPath path).collect ((Field.atPath each).withCodec reading.codec)
  let data ← (elements.get root).mapError .unread
  let items ← (encodeItems reading.codec.encode data).mapError .unwritten
  return .array items

/-- Extract the data at a path, or inside each element of the array there. -/
def extract (reading : Reading) (path : Path) (each : Option Path) (root : Value) :
    Except ExtractionError Value :=
  match each with
  | none => extractOne reading path root
  | some each => extractEach reading path each root

end DocQuery
