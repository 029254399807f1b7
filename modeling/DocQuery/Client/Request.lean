/-!
# Requests

What a client asks of a server: a method, a path, query pairs and optionally a body.
-/

set_option autoImplicit false

namespace DocQuery

/-- The methods of requests. -/
inductive Method where
  | get
  | post
  | put
  | patch
  deriving DecidableEq

/-- The name of a method. -/
def Method.name : Method → String
  | get => "GET"
  | post => "POST"
  | put => "PUT"
  | patch => "PATCH"

/-- A request, before it is addressed to a server. -/
structure Request where
  method : Method
  path : String
  query : List (String × String)
  body : Option String
  deriving DecidableEq

namespace Request

def get (path : String) (query : List (String × String)) : Request := ⟨.get, path, query, none⟩

def post (path body : String) : Request := ⟨.post, path, [], some body⟩

def put (path body : String) : Request := ⟨.put, path, [], some body⟩

def patch (path body : String) : Request := ⟨.patch, path, [], some body⟩

end Request

end DocQuery
