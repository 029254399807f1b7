import DocQuery.Shape.Codec

/-!
# Responses

The records that a server sends: pages of a set, documents, the definitions of classes, indexes,
databases and access keys, events of a history, sets, and the errors of a refused request. Members
that a record does not list are passed over. Timestamps of writes are microseconds.
-/

set_option autoImplicit false

namespace DocQuery.Response

/-- One page of a set, with the places where the pages before and after it start. -/
def page : Shape :=
  .record "Page" (.ofList [("data", .list .value), ("before", .option .value),
    ("after", .option .value)])

/-- A document of a class. -/
def document : Shape :=
  .record "Instance" (.ofList [("ref", .ref), ("class", .ref), ("ts", .long),
    ("data", .map .value)])

/-- The definition of a class. -/
def classDefinition : Shape :=
  .record "Class" (.ofList [("ref", .ref), ("name", .string), ("ts", .long),
    ("history_days", .option .long)])

/-- The definition of an index. -/
def indexDefinition : Shape :=
  .record "Index" (.ofList [("ref", .ref), ("name", .string), ("source", .value), ("ts", .long),
    ("active", .option .boolean), ("unique", .option .boolean), ("terms", .option (.list .value)),
    ("values", .option (.list .value)), ("partitions", .option .long)])

/-- The definition of a database. -/
def databaseDefinition : Shape :=
  .record "Database" (.ofList [("ref", .ref), ("name", .string), ("ts", .long)])

/-- The definition of an access key. The secret comes with the response that made the key. -/
def keyDefinition : Shape :=
  .record "Key" (.ofList [("ref", .ref), ("database", .ref), ("role", .string), ("ts", .long),
    ("secret", .option .string), ("hashed_secret", .option .string)])

/-- One entry of the history of a resource or a set. -/
def event : Shape :=
  .record "Event" (.ofList [("resource", .ref), ("action", .string), ("ts", .long)])

/-- The parameters of the query that describes a set. -/
def set : Shape := .set

/-- One error of a refused request. -/
def apiError : Shape :=
  .record "ApiError" (.ofList [("code", .string), ("description", .string),
    ("position", .option (.list .value))])

/-! ## Errors of a request -/

/-- One error of a refused request, and where in the request it arose. -/
abbrev ApiError : Type := apiError.Data

namespace ApiError

def code (e : ApiError) : String := e.1

def description (e : ApiError) : String := e.2.1

def position? (e : ApiError) : Option (List Value) := e.2.2.1

/-- The wording of an error. -/
def message (e : ApiError) : String := e.code ++ ": " ++ e.description

end ApiError

end DocQuery.Response
