import DocQuery.Client.Reply
import DocQuery.Client.Request
import DocQuery.Field
import DocQuery.Query.Expr
import DocQuery.Response
import DocQuery.Value.Wire

/-!
# Queries

A query sends an expression and takes the result out of the reply: the member `resource` of a
successful reply, or the errors that a refusal lists. A query that can not be written is not sent;
any other is sent once.
-/

set_option autoImplicit false

namespace DocQuery

/-- Why a query has no result. -/
inductive ClientError where
  /-- There is no reply. -/
  | transport (cause : TransportError)
  /-- The expression has no wire form. -/
  | encode (cause : NonFinite)
  /-- The body of the reply is not a value. -/
  | body (cause : ValueError)
  /-- The reply is not shaped like a reply to a query. -/
  | shape (cause : FieldError)
  /-- The server refused the query. -/
  | refused (status : Nat) (errors : List Response.ApiError)

/-- Texts with a separator between them. -/
def joinTexts (separator : String) : List String → String
  | [] => ""
  | [text] => text
  | text :: next :: texts => text ++ separator ++ joinTexts separator (next :: texts)

/-- The wording of a failed query. -/
def ClientError.message : ClientError → String
  | .transport cause => cause.message
  | .encode cause => "Failed to encode query: " ++ cause.message
  | .body cause => "Malformed response body: " ++ cause.message
  | .shape cause => "Unexpected response shape: " ++ cause.message
  | .refused status errors =>
      "Request failed with status " ++ String.ofList (Text.digits status) ++ ": " ++
        joinTexts "; " (errors.map Response.ApiError.message)

namespace Client

/-- The result in the body of a successful reply. -/
def resource : Field Value := Field.keys ["resource"]

/-- The errors in the body of a refusal. -/
def errors : Field (List Response.ApiError) :=
  (Field.keys ["errors"]).collect (Field.root.withShape Response.apiError)

/-- What a reply says about a query. -/
def interpret (reply : Reply) : Except ClientError Value := do
  let tree ← (Value.parse reply.body).mapError .body
  if reply.isSuccess then (resource.get tree).mapError .shape
  else
    let refusals ← (errors.get tree).mapError .shape
    throw (.refused reply.status refusals)

/-- Evaluate an expression on a server that is reached by a transport: the requests that are sent,
and the result. -/
def query (transport : Request → Except TransportError Reply) (expr : Expr) :
    List Request × Except ClientError Value :=
  match expr.value.serialize with
  | .error refusal => ([], .error (.encode refusal))
  | .ok wire =>
      let request := Request.post "/" wire
      match transport request with
      | .error failure => ([request], .error (.transport failure))
      | .ok reply => ([request], interpret reply)

end Client

end DocQuery
