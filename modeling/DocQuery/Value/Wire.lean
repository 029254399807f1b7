import DocQuery.Json.Reader
import DocQuery.Value.Inspect

/-!
# The wire form of values

A value travels as a JSON document. Kinds that JSON lacks are objects with one member whose key
starts with `@`:

* `@ref`, `@ts` and `@date` hold a text, `@set` the query of a set;
* `@obj` holds an object whose keys are taken as they are; an object with a key that starts with `@`
  is written that way.

Infinities and numbers that are not numbers have no wire form. Reading has a depth limit, which
counts the tagged forms: converting a document and reading a text differ only in that the payload of
`@ref`, `@ts` and `@date` and the object inside `@obj` are not looked at as values of their own in a
document that has been read already.
-/

set_option autoImplicit false

namespace DocQuery

/-- The keys that mark the kinds JSON lacks. -/
inductive Tag where
  | ref
  | timestamp
  | date
  | set
  | object
  deriving DecidableEq

namespace Tag

/-- The spelling of a tag. -/
def key : Tag → String
  | ref => "@ref"
  | timestamp => "@ts"
  | date => "@date"
  | set => "@set"
  | object => "@obj"

/-- What a tag has to hold, in words. -/
def payload : Tag → String
  | ref => "a non-empty string"
  | timestamp => "a string"
  | date => "a string"
  | set => "a value"
  | object => "an object"

/-- The tag with a spelling. -/
def ofKey? (key : String) : Option Tag :=
  if key = Tag.ref.key then some ref
  else if key = Tag.timestamp.key then some timestamp
  else if key = Tag.date.key then some date
  else if key = Tag.set.key then some set
  else if key = Tag.object.key then some object
  else none

end Tag

/-- The key could be taken for a tag. -/
def isReserved (key : String) : Bool := key.toList.head? == some '@'

/-- Why a text or a document is not a value. -/
inductive ValueError where
  /-- The text is not JSON. The reader stopped where so many tokens are unread. -/
  | json (unread : Nat)
  /-- A tag holds something else than it has to. -/
  | malformedSpecial (tag : Tag)
  | invalidTimestamp (raw : String) (fault : Calendar.TextError)
  | invalidDate (raw : String) (fault : Calendar.TextError)
  /-- Values nest deeper than the limit. -/
  | tooDeep (limit : Nat)
  deriving DecidableEq

/-- The wording of a fault. What is wrong with a text that is not JSON is left open. -/
def ValueError.message : ValueError → String
  | .json _ => "Invalid JSON"
  | .malformedSpecial tag => "Invalid " ++ tag.key ++ " payload: expected " ++ tag.payload
  | .invalidTimestamp raw fault => "Invalid timestamp '" ++ raw ++ "': " ++ fault.message
  | .invalidDate raw fault => "Invalid date '" ++ raw ++ "': " ++ fault.message
  | .tooDeep limit =>
      "Value nested deeper than the limit of " ++ String.ofList (Text.digits limit) ++ " levels"

/-- Why a text that is read as a plain document first is not a value. -/
inductive DeserializeError where
  /-- The text is not exactly one document, or the document nests too deep. What is wrong with it is
  left open. -/
  | document
  /-- The document is no value. -/
  | value (fault : ValueError)
  deriving DecidableEq

/-- A double without a wire form. -/
structure NonFinite where
  double : Binary64
  deriving DecidableEq

/-- The wording of the refusal to write a double. -/
def NonFinite.message (e : NonFinite) : String :=
  "can not serialize non-finite double " ++ e.double.text .inspect

namespace Value

/-! ## Writing -/

/-- A document with one member, under a tag. -/
def tagged (tag : Tag) (payload : Json) : Json := .object (Dict.single tag.key payload)

mutual

/-- The document of a value; the first double without a wire form is refused. -/
def toJson : Value → Except NonFinite Json
  | null => .ok .null
  | boolean b => .ok (.bool b)
  | long n => .ok (.number (.ofInt64 n))
  | double d => if h : d.isFinite = true then .ok (.number (.double d h)) else .error ⟨d⟩
  | string s => .ok (.string s)
  | array items => (itemsToJson items).map .array
  | object members =>
      (membersToJson members).map (fun documents =>
        if members.keys.any isReserved then tagged .object (.object documents)
        else .object documents)
  | ref r => .ok (tagged .ref (.string r.id))
  | timestamp t => .ok (tagged .timestamp (.string t.text))
  | date d => .ok (tagged .date (.string d.text))
  | set query => (toJson query).map (tagged .set)

/-- The documents of the items of an array. -/
def itemsToJson : List Value → Except NonFinite (List Json)
  | [] => .ok []
  | item :: items => do
      let document ← toJson item
      let documents ← itemsToJson items
      return document :: documents

/-- The documents of the members of an object. -/
def membersToJson :
    {bound : Option String} → Entries Value bound → Except NonFinite (Entries Json bound)
  | _, .nil => .ok .nil
  | _, .cons key above member members => do
      let document ← toJson member
      let documents ← membersToJson members
      return .cons key above document documents

end

/-- The wire form of a value. -/
def serialize (v : Value) : Except NonFinite String := v.toJson.map Json.text

/-- The text of a value: its wire form, or if it has none the text that shows it. -/
def text (v : Value) : String :=
  match v.serialize with
  | .ok wire => wire
  | .error _ => v.inspect

/-! ## Reading -/

/-- The value of a number. An integer above the ones with a sign is rounded to a double. -/
def ofNumber : Json.Number → Value
  | .integer n _ => if n ≤ Int64.maxValue.toInt then long (Int64.ofInt n) else double (Binary64.ofInt n)
  | .double d _ => double d

/-- The string that a tag holds. -/
def expectString (tag : Tag) : Json → Except ValueError String
  | .string s => .ok s
  | _ => .error (.malformedSpecial tag)

/-- The reference of a payload. -/
def refOfJson (payload : Json) : Except ValueError Value := do
  let id ← expectString .ref payload
  match Ref.ofId? id with
  | some r => return ref r
  | none => throw (.malformedSpecial .ref)

/-- The timestamp of a payload. -/
def timestampOfJson (payload : Json) : Except ValueError Value := do
  let raw ← expectString .timestamp payload
  match Timestamp.parse raw with
  | .ok t => return timestamp t
  | .error fault => throw (.invalidTimestamp raw fault)

/-- The date of a payload. -/
def dateOfJson (payload : Json) : Except ValueError Value := do
  let raw ← expectString .date payload
  match Date.parse raw with
  | .ok d => return date d
  | .error fault => throw (.invalidDate raw fault)

mutual

/-- The value of a document at a depth, with the limit on depths. -/
def ofJson (limit depth : Nat) (json : Json) : Except ValueError Value :=
  if limit < depth then .error (.tooDeep limit)
  else match json with
    | .null => .ok null
    | .bool b => .ok (boolean b)
    | .number n => .ok (ofNumber n)
    | .string s => .ok (string s)
    | .array items => (itemsOfJson limit (depth + 1) items).map array
    | .object .nil => .ok (object .nil)
    | .object (.cons key above payload .nil) =>
        match Tag.ofKey? key with
        | some .ref => refOfJson payload
        | some .timestamp => timestampOfJson payload
        | some .date => dateOfJson payload
        | some .set => (ofJson limit (depth + 1) payload).map set
        | some .object =>
            match payload with
            | .object members => (membersOfJson limit (depth + 2) members).map object
            | _ => .error (.malformedSpecial .object)
        | none =>
            (ofJson limit (depth + 1) payload).map (fun v => object (.cons key above v .nil))
    | .object (.cons key above member (.cons key' above' member' members)) =>
        (membersOfJson limit (depth + 1)
          (.cons key above member (.cons key' above' member' members))).map object

/-- The values of items at a depth. -/
def itemsOfJson (limit depth : Nat) : List Json → Except ValueError (List Value)
  | [] => .ok []
  | item :: items => do
      let v ← ofJson limit depth item
      let vs ← itemsOfJson limit depth items
      return v :: vs

/-- The values of members at a depth. -/
def membersOfJson (limit depth : Nat) :
    {bound : Option String} → Entries Json bound → Except ValueError (Entries Value bound)
  | _, .nil => .ok .nil
  | _, .cons key above member members => do
      let v ← ofJson limit depth member
      let vs ← membersOfJson limit depth members
      return .cons key above v vs

end

/-- The depth limit where none is given. -/
def defaultLimit : Nat := 128

/-- The value of a document that has been read already. -/
def fromJson (limit : Nat) (json : Json) : Except ValueError Value := ofJson limit 0 json

/-- Read a value from its wire form. -/
def parseWith (limit : Nat) (text : String) : Except ValueError Value :=
  match Json.read (some limit) text with
  | .ok json => fromJson limit json
  | .error (.malformed unread) => .error (.json unread)
  | .error .tooDeep => .error (.tooDeep limit)

/-- Read a value from its wire form, with the default limit. -/
def parse (text : String) : Except ValueError Value := parseWith defaultLimit text

/-- How deep arrays and objects may nest in a text that is read as a plain document first. -/
def plainNesting : Nat := 127

/-- Read a value by reading a plain document first, whose nesting has a limit of its own. Only when
the document is a value is the text looked at behind its end, where nothing may follow. -/
def deserialize (text : String) : Except DeserializeError Value :=
  let tokens := Json.Token.scan text.toList
  match Json.firstOfTokens none tokens with
  | .error _ => .error .document
  | .ok (json, rest) =>
      if plainNesting < Json.nesting (tokens.take (tokens.length - rest.length)) then
        .error .document
      else do
        let v ← (fromJson defaultLimit json).mapError .value
        if rest = [] then return v else throw .document

end Value

end DocQuery
