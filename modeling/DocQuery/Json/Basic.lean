import DocQuery.Dict
import DocQuery.Json.Number

/-!
# JSON documents

The tree that a JSON text denotes. Members stand in key order, and of a repeated key the last member
stays.
-/

set_option autoImplicit false

namespace DocQuery

/-- A JSON document. -/
inductive Json where
  | null
  | bool (b : Bool)
  | number (n : Json.Number)
  | string (s : String)
  | array (items : List Json)
  | object (members : Entries Json none)

end DocQuery
