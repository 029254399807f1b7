import DocQuery.Client.Query
import DocQuery.Command.Basic

/-!
# Running commands

A command reads from one source at most and has a value as its result. When it fails, it reports the
failure and the chain of its causes: each cause has its own text in the chain, also where the text of
the failure it belongs to contains it already. A chain ends at a cause whose wording is left open.
-/

set_option autoImplicit false

namespace DocQuery

/-- What a command reads from. -/
inductive Source where
  | nothing
  | standardInput
  | file (name : String)

/-- The source of a command. -/
def Command.source : Command → Source
  | .extract ⟨_, _, _, none⟩ => .standardInput
  | .extract ⟨_, _, _, some file⟩ => .file file
  | .query ⟨none, _, _, _⟩ => .nothing
  | .query ⟨some file, _, _, _⟩ => .file file

/-- Why a command failed. -/
inductive Failure where
  /-- The document can not be read from its source. -/
  | unreadable (file : Option String) (reason : String)
  /-- The document is not a value. -/
  | document (cause : ValueError)
  | extraction (cause : ExtractionError)
  | config (cause : ConfigError)
  /-- The expression is not a value. -/
  | expression (cause : ValueError)
  | connection (cause : TransportError)
  | client (cause : ClientError)

/-! ## Reports -/

/-- A fault of a text and its causes. -/
def ValueError.causes (e : ValueError) : List String :=
  match e with
  | .invalidTimestamp _ fault | .invalidDate _ fault => [e.message, fault.message]
  | .json _ | .malformedSpecial _ | .tooDeep _ => [e.message]

/-- A failure to read data from a value and its causes. -/
def FieldError.causes : FieldError → List String
  | .pathNotFound path cause => (pathNotFound path cause).message :: causes cause
  | failure => [failure.message]

/-- A fault of a configuration and its causes. -/
def ConfigError.causes (e : ConfigError) : List String :=
  match e with
  | .unreadable _ reason => [e.message, reason]
  | .malformed _ => [e.message]

/-- A failed query and its causes. A fault of transport stands for itself. -/
def ClientError.causes (e : ClientError) : List String :=
  match e with
  | .transport cause => [cause.message]
  | .encode cause => [e.message, cause.message]
  | .body (.json _) => [e.message]
  | .body cause => e.message :: cause.causes
  | .shape cause => e.message :: cause.causes
  | .refused _ _ => [e.message]

/-- A failure of extraction and its causes. -/
def ExtractionError.causes : ExtractionError → List String
  | .unread cause => cause.causes
  | .unwritten cause => [cause.message]

namespace Failure

/-- A failure and its causes. -/
def causes : Failure → List String
  | unreadable (some file) reason => ["failed to read " ++ file, reason]
  | unreadable none reason => ["failed to read standard input", reason]
  | document cause => "input is not a valid response document" :: cause.causes
  | extraction cause => cause.causes
  | config cause => cause.causes
  | expression cause => "expression is not valid JSON" :: cause.causes
  | connection cause => [cause.message]
  | client cause => cause.causes

/-- The report of a failure. -/
def report (failure : Failure) : String := "error: " ++ joinTexts ": " failure.causes

end Failure

/-! ## Results -/

/-- Extract from a document, given its text or the reason why there is none. -/
def ExtractCommand.run (command : ExtractCommand) (contents : Except String String) :
    Except Failure Value := do
  let text ← contents.mapError (.unreadable command.file)
  let root ← (Value.parse text).mapError .document
  (extract command.reading command.path command.each root).mapError .extraction

/-- The configuration of a query, given the contents of its file. -/
def QueryCommand.configuration (command : QueryCommand) (contents : Except String String) :
    Except ConfigError ClientConfig := do
  let config ← match command.config with
    | none => .ok {}
    | some file => ClientConfig.load file contents
  return { config with
    endpoint := command.endpoint <|> config.endpoint
    secret := command.secret <|> config.secret }

/-- Send a query, given the contents of the file of its configuration. -/
def QueryCommand.run (addressing : Addressing) (network : Network) (command : QueryCommand)
    (contents : Except String String) : Except Failure Value := do
  let config ← (command.configuration contents).mapError .config
  let v ← (Value.parse command.expr).mapError .expression
  let connection ← config.settings.connect.mapError .connection
  (Client.query (connection.send addressing network) ⟨v⟩).2.mapError .client

/-- The result of a command, given the contents of its source. -/
def Command.run (addressing : Addressing) (network : Network)
    (contents : Except String String) : Command → Except Failure Value
  | .extract command => command.run contents
  | .query command => command.run addressing network contents

end DocQuery
