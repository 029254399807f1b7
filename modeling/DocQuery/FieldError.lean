import DocQuery.Binary64.Layout
import DocQuery.Path.Basic
import DocQuery.Value.Basic

/-!
# Failures of extraction and encoding

Why a value is not what was asked for. A failure inside a path, a list or a record holds the failures
it comes from, each at its place.
-/

set_option autoImplicit false

namespace DocQuery

/-- Why something could not be extracted from a value. -/
inductive FieldError where
  /-- The value is of another kind. -/
  | typeMismatch (expected found : Kind)
  /-- An object lacks a key. -/
  | keyNotFound (key : String)
  /-- An array has no such position. -/
  | indexNotFound (position : Nat)
  /-- A path stopped at its first failing segment; the whole path is named. -/
  | pathNotFound (path : Path) (cause : FieldError)
  /-- Elements of a list or dictionary failed, each at its path. -/
  | collect (failures : List (Path × FieldError))
  /-- Members of a record failed, each at its key. -/
  | record (target : String) (failures : List (String × FieldError))
  /-- A codec of its own kind rejected the value, and says why. -/
  | invalid (text : String)

namespace FieldError

/-- A text between quotation marks, as it is. -/
def quote (s : String) : String := "\"" ++ s ++ "\""

mutual

/-- The wording of a failure. -/
def message : FieldError → String
  | typeMismatch expected found => "Expected " ++ expected.name ++ " but found " ++ found.name
  | keyNotFound key => "Object key " ++ quote key ++ " not found"
  | indexNotFound position =>
      "Array index " ++ quote (String.ofList (Text.digits position)) ++ " not found"
  | pathNotFound path cause => "Can not find path " ++ quote path.text ++ ". " ++ message cause
  | collect failures => "Failed to collect values: " ++ elementMessages failures
  | record target failures => "Failed to decode " ++ target ++ ": " ++ memberMessages failures
  | invalid text => text

/-- The wording of the failures of elements, with commas between them. -/
def elementMessages : List (Path × FieldError) → String
  | [] => ""
  | [(path, failure)] => quote path.text ++ " " ++ message failure
  | (path, failure) :: next :: failures =>
      quote path.text ++ " " ++ message failure ++ ", " ++ elementMessages (next :: failures)

/-- The wording of the failures of members, with commas between them. -/
def memberMessages : List (String × FieldError) → String
  | [] => ""
  | [(key, failure)] => quote key ++ " " ++ message failure
  | (key, failure) :: next :: failures =>
      quote key ++ " " ++ message failure ++ ", " ++ memberMessages (next :: failures)

end

end FieldError

/-- Why something has no value. -/
inductive EncodeError where
  /-- Infinities and numbers that are not numbers are not written. -/
  | nonFinite (d : Binary64)
  /-- A codec of its own kind has no value for the data, and says why. -/
  | invalid (text : String)
  /-- What collects the elements of the array at a path only reads. -/
  | readOnly (path : Path)

/-- The wording of a refusal to encode. -/
def EncodeError.message : EncodeError → String
  | nonFinite d => "Can not encode non-finite double " ++ d.text .inspect
  | invalid text => text
  | readOnly path => "encoding is not implemented for the collection codec of " ++ path.text

end DocQuery
