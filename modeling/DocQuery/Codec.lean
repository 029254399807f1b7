import DocQuery.FieldError

/-!
# Codecs

A codec turns values into data of a type and back. Each kind of value has a codec for its payload;
the one for doubles also reads integers, and it writes finite doubles only.
-/

set_option autoImplicit false

namespace DocQuery

/-- A way to read data of a type from values and to write it as values. -/
structure Codec (α : Type) where
  decode : Value → Except FieldError α
  encode : α → Except EncodeError Value

namespace Codec

/-- Read the payload of a kind; a value of another kind is a mismatch. -/
def expect {α : Type} (kind : Kind) (payload? : Value → Option α) (v : Value) :
    Except FieldError α :=
  match payload? v with
  | some payload => .ok payload
  | none => .error (.typeMismatch kind v.kind)

/-- The codec of a kind whose payloads can all be written. -/
def ofKind {α : Type} (kind : Kind) (payload? : Value → Option α) (wrap : α → Value) : Codec α :=
  ⟨expect kind payload?, fun payload => .ok (wrap payload)⟩

/-- Values as they are. -/
def value : Codec Value := ⟨.ok, .ok⟩

def string : Codec String := ofKind .string Value.asString? .string

def boolean : Codec Bool := ofKind .boolean Value.asBoolean? .boolean

def long : Codec Int64 := ofKind .long Value.asLong? .long

/-- Doubles. An integer is read as the nearest double; only finite doubles are written. -/
def double : Codec Binary64 :=
  ⟨expect .double Value.asDouble?,
    fun d => if d.isFinite then .ok (.double d) else .error (.nonFinite d)⟩

/-- The items of an array, as they are. -/
def array : Codec (List Value) := ofKind .array Value.asArray? .array

/-- The members of an object, as they are. -/
def object : Codec (Dict Value) := ofKind .object Value.asObject? .object

def ref : Codec Ref := ofKind .ref Value.asRef? .ref

def timestamp : Codec Timestamp := ofKind .timestamp Value.asTimestamp? .timestamp

def date : Codec Date := ofKind .date Value.asDate? .date

/-- The query that describes a set. -/
def setQuery : Codec Value := ofKind .set Value.asSet? .set

end Codec

/-! ## Many at once -/

/-- Join a labelled result with the results after it: the data of all, or the failures of all that
fail, under their labels. -/
def gather {label ε α β γ : Type} (l : label) (combine : α → β → γ) :
    Except ε α → Except (List (label × ε)) β → Except (List (label × ε)) γ
  | .ok a, .ok b => .ok (combine a b)
  | .ok _, .error failures => .error failures
  | .error failure, .ok _ => .error [(l, failure)]
  | .error failure, .error failures => .error ((l, failure) :: failures)

/-- Decode items from a position on; each failure is labelled with a path that depends on the
position. -/
def decodeItems {α : Type} (label : Nat → Path) (decode : Value → Except FieldError α) :
    Nat → List Value → Except (List (Path × FieldError)) (List α)
  | _, [] => .ok []
  | position, item :: items =>
      gather (label position) List.cons (decode item)
        (decodeItems label decode (position + 1) items)

/-- Decode an array item by item. -/
def decodeArray {α : Type} (label : Nat → Path) (decode : Value → Except FieldError α)
    (v : Value) : Except FieldError (List α) := do
  let items ← Codec.array.decode v
  (decodeItems label decode 0 items).mapError .collect

/-- Decode members; each failure is labelled with its key. -/
def decodeMembers {α : Type} (decode : Value → Except FieldError α) :
    {bound : Option String} → Entries Value bound →
      Except (List (Path × FieldError)) (Entries α bound)
  | _, .nil => .ok .nil
  | _, .cons key above member members =>
      gather [.key key] (Entries.cons key above) (decode member) (decodeMembers decode members)

/-- Decode an object member by member. -/
def decodeObject {α : Type} (decode : Value → Except FieldError α) (v : Value) :
    Except FieldError (Dict α) := do
  let members ← Codec.object.decode v
  (decodeMembers decode members).mapError .collect

end DocQuery
