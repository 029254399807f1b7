import DocQuery.Query.Expr

/-!
# Pages of a set

The call `paginate` with its options. Only options that were chosen are written; the flags are
written when they are on. A page starts before or after a cursor, so choosing one of the two drops
the other.
-/

set_option autoImplicit false

namespace DocQuery

/-- Where a page starts. -/
inductive Cursor where
  | before (position : Expr)
  | after (position : Expr)
  deriving DecidableEq

/-- The name under which a cursor is written. -/
def Cursor.name : Cursor → String
  | before _ => "before"
  | after _ => "after"

/-- The position of a cursor. -/
def Cursor.position : Cursor → Expr
  | before position => position
  | after position => position

/-- A page of a set and its options. -/
structure Paginate where
  set : Expr
  cursor : Option Cursor
  /-- The time as of which the set is read. -/
  ts : Option Expr
  /-- The greatest number of elements. -/
  size : Option Expr
  /-- Events instead of members. -/
  events : Bool
  /-- With the sets that each member comes from. -/
  sources : Bool
  deriving DecidableEq

namespace Paginate

/-- The first page of a set, without options. -/
def ofSet (set : Expr) : Paginate := ⟨set, none, none, none, false, false⟩

/-- The choice of one option. -/
inductive Choice where
  | before (position : Expr)
  | after (position : Expr)
  | ts (time : Expr)
  | size (count : Expr)
  | events (on : Bool)
  | sources (on : Bool)

/-- Choose an option, in place of what was chosen for it before. -/
def choose (page : Paginate) : Choice → Paginate
  | .before position => { page with cursor := some (.before position) }
  | .after position => { page with cursor := some (.after position) }
  | .ts time => { page with ts := some time }
  | .size count => { page with size := some count }
  | .events on => { page with events := on }
  | .sources on => { page with sources := on }

/-- A member that is written when there is a value for it. -/
def optional (name : String) : Option Expr → List (String × Expr)
  | none => []
  | some e => [(name, e)]

/-- A flag that is written when it is on. -/
def flag (name : String) (on : Bool) : List (String × Expr) :=
  if on then [(name, Expr.ofBool true)] else []

/-- The members of the call. -/
def arguments (page : Paginate) : List (String × Expr) :=
  [("paginate", page.set)] ++
    (match page.cursor with
      | none => []
      | some cursor => [(cursor.name, cursor.position)]) ++
    optional "ts" page.ts ++ optional "size" page.size ++
    flag "events" page.events ++ flag "sources" page.sources

/-- The call. -/
def build (page : Paginate) : Expr := Expr.members page.arguments

end Paginate

end DocQuery
