import DocQuery.Client.Connection
import DocQuery.Json.Scan

/-!
# Configuration

The configuration of a client: a JSON file, overridden by two variables of the environment. The file
is an object with some of four members, each at most once, or an array of the first of them in
order; a member that is null counts as absent. It has no room for nested data, so it is read from its
tokens.
-/

set_option autoImplicit false

namespace DocQuery

/-- The configuration of a client. Times are milliseconds. -/
structure ClientConfig where
  endpoint : Option String := none
  secret : Option String := none
  connectTimeout : Option UInt64 := none
  requestTimeout : Option UInt64 := none
  deriving DecidableEq

/-- The members of a configuration. -/
inductive ConfigKey where
  | endpoint
  | secret
  | connectTimeout
  | requestTimeout
  deriving DecidableEq

namespace ConfigKey

/-- The members in the order in which an array lists them. -/
def all : List ConfigKey := [endpoint, secret, connectTimeout, requestTimeout]

/-- The name of a member in a file. -/
def name : ConfigKey → String
  | endpoint => "endpoint"
  | secret => "secret"
  | connectTimeout => "connect_timeout_ms"
  | requestTimeout => "request_timeout_ms"

/-- The member of a name. -/
def ofName? (name : String) : Option ConfigKey := all.find? (fun key => key.name == name)

end ConfigKey

/-- Why a configuration was not loaded. -/
inductive ConfigError where
  /-- The file can not be read. -/
  | unreadable (file reason : String)
  /-- The file is not a configuration. -/
  | malformed (file : String)
  deriving DecidableEq

/-- The wording of a fault. What is wrong in a malformed file is left open. -/
def ConfigError.message : ConfigError → String
  | .unreadable file reason => "Failed to read config file " ++ file ++ ": " ++ reason
  | .malformed file => "Invalid config file " ++ file

namespace ClientConfig

/-! ## Files -/

/-- The members of an object without nested data, after its opening brace. -/
def readMembers : List Json.Token → Option (List (String × Json.Token))
  | [.string key, .colon, token, .closeObject] => some [(key, token)]
  | .string key :: .colon :: token :: .comma :: rest =>
      (readMembers rest).map ((key, token) :: ·)
  | _ => none

/-- The items of an array without nested data, after its opening bracket. -/
def readItems : List Json.Token → Option (List Json.Token)
  | [token, .closeArray] => some [token]
  | token :: .comma :: rest => (readItems rest).map (token :: ·)
  | _ => none

/-- The members that a file lists, in order. -/
def entries? : List Json.Token → Option (List (ConfigKey × Json.Token))
  | [.openObject, .closeObject] => some []
  | .openObject :: rest => do
      let members ← readMembers rest
      members.mapM (fun member => (ConfigKey.ofName? member.1).map (fun key => (key, member.2)))
  | [.openArray, .closeArray] => some []
  | .openArray :: rest => do
      let items ← readItems rest
      if items.length ≤ ConfigKey.all.length then return ConfigKey.all.zip items else none
  | _ => none

/-- A text, or nothing for null. -/
def textOf? : Json.Token → Option (Option String)
  | .string s => some (some s)
  | .null => some none
  | _ => none

/-- A number of milliseconds, or nothing for null. -/
def millisecondsOf? : Json.Token → Option (Option UInt64)
  | .number (.integer n _) => if 0 ≤ n then some (some (.ofNat n.toNat)) else none
  | .null => some none
  | _ => none

/-- Set a member. -/
def set? (config : ClientConfig) (key : ConfigKey) (token : Json.Token) : Option ClientConfig :=
  match key with
  | .endpoint => (textOf? token).map (fun text => { config with endpoint := text })
  | .secret => (textOf? token).map (fun text => { config with secret := text })
  | .connectTimeout =>
      (millisecondsOf? token).map (fun ms => { config with connectTimeout := ms })
  | .requestTimeout =>
      (millisecondsOf? token).map (fun ms => { config with requestTimeout := ms })

/-- Read a configuration from the text of a file. -/
def parse? (text : String) : Option ClientConfig := do
  let entries ← entries? (Json.Token.scan text.toList)
  if (entries.map Prod.fst).Nodup then
    entries.foldlM (fun config entry => config.set? entry.1 entry.2) {}
  else none

/-- Load a configuration from a file, given its contents or the reason why there are none. -/
def load (file : String) (contents : Except String String) : Except ConfigError ClientConfig :=
  match contents with
  | .error reason => .error (.unreadable file reason)
  | .ok text =>
      match parse? text with
      | some config => .ok config
      | none => .error (.malformed file)

/-! ## Variables -/

/-- The variable that overrides the endpoint. -/
def endpointVariable : String := "FAUNA_ENDPOINT"

/-- The variable that overrides the secret. -/
def secretVariable : String := "FAUNA_SECRET"

/-- Override what variables give. -/
def override (config : ClientConfig) (lookup : String → Option String) : ClientConfig :=
  { config with
    endpoint := lookup endpointVariable <|> config.endpoint
    secret := lookup secretVariable <|> config.secret }

/-! ## Settings -/

/-- The settings that a configuration changes. -/
def changes (config : ClientConfig) : List Setting :=
  (config.endpoint.map Setting.endpoint).toList ++ (config.secret.map Setting.secret).toList ++
    (config.connectTimeout.map fun ms => Setting.connectTimeout (.ofMilliseconds ms)).toList ++
    (config.requestTimeout.map fun ms => Setting.requestTimeout (.ofMilliseconds ms)).toList

/-- The settings of a configuration. -/
def settings (config : ClientConfig) : ConnectionSettings :=
  ConnectionSettings.changeAll {} config.changes

end ClientConfig

end DocQuery
