/-!
# Resource references

A reference names a resource by a path of names, such as `classes/spells/1`. It is never empty.
-/

set_option autoImplicit false

namespace DocQuery

/-- A reference to a resource. -/
structure Ref where
  /-- The path of names, joined by slashes. -/
  id : String
  nonempty : id ≠ ""
  deriving DecidableEq

namespace Ref

/-- The reference with an identifier; the empty string is none. -/
def ofId? (id : String) : Option Ref :=
  if h : id = "" then none else some ⟨id, h⟩

theorem append_slash_ne_empty (a b : String) : a ++ "/" ++ b ≠ "" := by
  intro h
  have := congrArg String.length h
  simp at this

/-- The reference to `name` inside the collection of that name. -/
def inside (collection name : String) : Ref :=
  ⟨collection ++ "/" ++ name, append_slash_ne_empty collection name⟩

/-- The class of a name. -/
def ofClass (name : String) : Ref := inside "classes" name

/-- The index of a name. -/
def ofIndex (name : String) : Ref := inside "indexes" name

/-- The database of a name. -/
def ofDatabase (name : String) : Ref := inside "databases" name

/-- The access key of an identifier. -/
def ofKey (name : String) : Ref := inside "keys" name

/-- The reference one level below. -/
def child (r : Ref) (segment : String) : Ref := inside r.id segment

/-- The order of references is that of their identifiers. -/
def Before (a b : Ref) : Prop := a.id < b.id

instance (a b : Ref) : Decidable (Before a b) := by
  unfold Before
  infer_instance

end Ref

end DocQuery
