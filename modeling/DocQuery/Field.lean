import DocQuery.Path.Walk
import DocQuery.Shape.Codec
import DocQuery.Text.Inspected

/-!
# Fields

A field says where data lies inside a value and how it is read: a path and a codec. A field may
collect the elements of the array at its path, each read through another field; the failures of the
elements then carry paths from the root.

Fields are compared by their paths.
-/

set_option autoImplicit false

namespace DocQuery

/-- A place in a value and the way to read it. -/
structure Field (α : Type) where
  path : Path
  codec : Codec α

/-- Read the data of a field. A failure of its path comes before any of its codec. -/
def Field.get {α : Type} (field : Field α) (root : Value) : Except FieldError α := do
  let v ← field.path.get root
  field.codec.decode v

/-- Read the elements of an array through a field. The array is at the path `place`, and the failure
of an element is labelled with that path, the position and the path of the field. -/
def Codec.collection {α : Type} (place : Path) (element : Field α) : Codec (List α) :=
  ⟨decodeArray (fun position => place ++ [.index position] ++ element.path) element.get,
    fun _ => .error (.readOnly place)⟩

namespace Field

variable {α β : Type}

/-- The value at a path, as it is. -/
def atPath (path : Path) : Field Value := ⟨path, Codec.value⟩

/-- The whole value. -/
def root : Field Value := atPath []

/-- The value that keys lead to. -/
def keys (names : List String) : Field Value := atPath (Path.ofKeys names)

/-- The value that indexes lead to. -/
def indexes (positions : List Nat) : Field Value := atPath (Path.ofIndexes positions)

/-- The whole value, read by a codec. -/
def of (codec : Codec α) : Field α := ⟨[], codec⟩

/-- Walk on to another field; it is read as that field reads it. -/
def andThen (field : Field α) (other : Field β) : Field β := ⟨field.path ++ other.path, other.codec⟩

/-- The same place, read by another codec. -/
def withCodec (field : Field α) (codec : Codec β) : Field β := ⟨field.path, codec⟩

/-- The same place, read by shape. -/
def withShape (field : Field α) (shape : Shape) : Field shape.Data := field.withCodec shape.codec

/-- The elements of the array at this place, each read through another field. -/
def collect (field : Field α) (element : Field β) : Field (List β) :=
  ⟨field.path, Codec.collection field.path element⟩

instance : BEq (Field α) := ⟨fun a b => a.path == b.path⟩

/-- The text of a field is that of its path. -/
def text (field : Field α) : String := field.path.text

/-- The text that shows a field. -/
def inspect (field : Field α) : String :=
  "Field \x7b path: " ++ Text.inspect field.text ++ " \x7d"

end Field

end DocQuery
