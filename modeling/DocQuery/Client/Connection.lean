import DocQuery.Client.Duration
import DocQuery.Client.Reply
import DocQuery.Client.Request
import DocQuery.Text.Bytes
import DocQuery.Text.Inspected

/-!
# Connections

A connection addresses requests to the endpoint of a server and signs them with a secret. It is made
from settings, of which only the secret has to be given; an endpoint never ends in a slash. The
network itself is a parameter, whatever answers a request that is ready to go out, and so is the way
in which addresses are written.
-/

set_option autoImplicit false

namespace DocQuery

/-- The settings of a connection. -/
structure ConnectionSettings where
  endpoint : String := "https://rest.faunadb.com"
  secret : Option String := none
  connectTimeout : Duration := .ofMilliseconds 10000
  requestTimeout : Duration := .ofMilliseconds 60000
  poolIdleTimeout : Duration := .ofMilliseconds 4750

/-- A change of one setting. -/
inductive Setting where
  | endpoint (url : String)
  | secret (secret : String)
  | connectTimeout (timeout : Duration)
  | requestTimeout (timeout : Duration)
  | poolIdleTimeout (timeout : Duration)

/-- A connection to a server. -/
structure Connection where
  endpoint : String
  secret : String
  deriving DecidableEq

/-- A text without the slashes at its end. -/
def trimSlashes (text : String) : String :=
  String.ofList (text.toList.reverse.dropWhile (· == '/')).reverse

namespace ConnectionSettings

/-- Change a setting. Slashes at the end of an endpoint are dropped. -/
def change (settings : ConnectionSettings) : Setting → ConnectionSettings
  | .endpoint url => { settings with endpoint := trimSlashes url }
  | .secret secret => { settings with secret := some secret }
  | .connectTimeout timeout => { settings with connectTimeout := timeout }
  | .requestTimeout timeout => { settings with requestTimeout := timeout }
  | .poolIdleTimeout timeout => { settings with poolIdleTimeout := timeout }

/-- Change settings one after another. -/
def changeAll (settings : ConnectionSettings) (changes : List Setting) : ConnectionSettings :=
  changes.foldl change settings

/-- The connection of settings. -/
def connect (settings : ConnectionSettings) : Except TransportError Connection :=
  match settings.secret with
  | some secret => .ok ⟨settings.endpoint, secret⟩
  | none => .error .missingSecret

/-- The text that shows settings. -/
def inspect (settings : ConnectionSettings) : String :=
  "ConnectionBuilder \x7b endpoint: " ++ Text.inspect settings.endpoint ++
    ", secret: " ++ (match settings.secret with
      | some secret => "Some(" ++ Text.inspect secret ++ ")"
      | none => "None") ++
    ", connect_timeout: " ++ settings.connectTimeout.text ++
    ", request_timeout: " ++ settings.requestTimeout.text ++
    ", pool_idle_timeout: " ++ settings.poolIdleTimeout.text ++ " \x7d"

end ConnectionSettings

/-- A request that is ready to go out. -/
structure SignedRequest where
  method : Method
  url : String
  authorization : String
  /-- The kind of the body, if there is a body. -/
  contentType : Option String
  body : String

/-- What comes back from a server. -/
structure Received where
  status : Nat
  headers : List Header
  body : String

/-- What answers requests, if anything does. -/
abbrev Network : Type := SignedRequest → Option Received

/-- How query pairs go into an address, which is escaped where it has to be. -/
abbrev Addressing : Type := String → List (String × String) → String

/-- A network in which nothing answers. -/
def Network.unreachable : Network := fun _ => none

namespace Connection

/-- The text that shows a connection; the secret stays secret. -/
def inspect (connection : Connection) : String :=
  "Connection \x7b endpoint: " ++ Text.inspect connection.endpoint ++
    ", secret: \"<redacted>\" \x7d"

/-- The connection to the same server with another secret. -/
def withSecret (connection : Connection) (secret : String) : Connection :=
  { connection with secret := secret }

/-- The address of a path: endpoint and path with one slash between them. -/
def url (connection : Connection) (path : String) : String :=
  connection.endpoint ++ "/" ++ String.ofList (path.toList.dropWhile (· == '/'))

/-- Address and sign a request. The secret is the name of a user without a password. -/
def sign (addressing : Addressing) (connection : Connection) (request : Request) :
    SignedRequest where
  method := request.method
  url := addressing (connection.url request.path) request.query
  authorization := "Basic " ++ String.ofList (Text.base64 (Text.bytes (connection.secret ++ ":")))
  contentType := request.body.map (fun _ => "application/json; charset=utf-8")
  body := request.body.getD ""

/-- Send a request through a network. -/
def send (addressing : Addressing) (network : Network) (connection : Connection)
    (request : Request) : Except TransportError Reply :=
  match network (connection.sign addressing request) with
  | some received => .ok ⟨received.status, Header.collect received.headers, received.body⟩
  | none => .error .noReply

end Connection

end DocQuery
