import DocQuery.Text.Decimal

/-!
# Paths

A path leads from a value to one inside it, by the keys of objects and the indexes of arrays. As a
text, its segments stand with slashes between them; reading a text back drops empty segments, and a
segment of digits that fits in 64 bits is an index.
-/

set_option autoImplicit false

namespace DocQuery

/-- One step of a path. -/
inductive Segment where
  /-- Look up a key in an object. -/
  | key (name : String)
  /-- Look up a position in an array. -/
  | index (position : Nat)
  deriving DecidableEq

/-- A way from a value to one inside it. The empty path stays where it is. -/
abbrev Path : Type := List Segment

/-- The text of a segment. -/
def Segment.write : Segment → List Char
  | key name => name.toList
  | index position => Text.digits position

/-- Every index is less than this. -/
def Segment.indexBound : Nat := UInt64.size

/-- The segment of a text. -/
def Segment.ofText (part : List Char) : Segment :=
  if part.all Char.isDigit && decide (Text.value part < indexBound) then .index (Text.value part)
  else .key (String.ofList part)

namespace Path

/-- The path of keys. -/
def ofKeys (keys : List String) : Path := keys.map .key

/-- The path of indexes. -/
def ofIndexes (indexes : List Nat) : Path := indexes.map .index

/-- The text of a path. -/
def write : Path → List Char
  | [] => []
  | [segment] => segment.write
  | segment :: next :: path => segment.write ++ '/' :: write (next :: path)

/-- The text of a path, as a string. -/
def text (path : Path) : String := String.ofList (write path)

/-- The parts of a text between slashes. -/
def parts : List Char → List (List Char)
  | [] => [[]]
  | c :: cs =>
      if c = '/' then [] :: parts cs
      else match parts cs with
        | [] => [[c]]
        | part :: rest => (c :: part) :: rest

/-- The path of a text. -/
def read (cs : List Char) : Path :=
  ((parts cs).filter (fun part => !part.isEmpty)).map Segment.ofText

/-- The path of a string. -/
def parse (text : String) : Path := read text.toList

end Path

end DocQuery
