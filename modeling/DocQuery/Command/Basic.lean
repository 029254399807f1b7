import DocQuery.Client.Config
import DocQuery.Command.Argument
import DocQuery.Extraction

/-!
# Commands

The two commands: `extract` takes data out of a document, and `query` sends an expression to a
server. A command line names one of them, with its options before or after its operand; the option
for the format of the log may also stand before the name. Variables of the environment stand in for
the endpoint and the secret of a query.
-/

set_option autoImplicit false

namespace DocQuery

/-- The formats of a log. -/
inductive LogFormat where
  | text
  | json
  deriving DecidableEq

/-- The format of a name. -/
def LogFormat.ofName? (name : String) : Option LogFormat :=
  if name = "text" then some text else if name = "json" then some json else none

/-- What to extract, and from which file; without a file, from the standard input. -/
structure ExtractCommand where
  path : Path
  reading : Reading
  each : Option Path
  file : Option String

/-- What to send, and to which server: a file of configuration, and what overrides it. -/
structure QueryCommand where
  config : Option String
  endpoint : Option String
  secret : Option String
  expr : String

/-- A command. -/
inductive Command where
  | extract (command : ExtractCommand)
  | query (command : QueryCommand)

/-- A command and the format of its log. -/
structure Invocation where
  logFormat : LogFormat
  command : Command

/-- The option for the format of the log, which every command has. -/
def logFormatOption : String := "log-format"

/-- The names of commands. -/
inductive CommandName where
  | extract
  | query
  deriving DecidableEq

/-- The command that a word names. -/
def CommandName.ofWord? (word : String) : Option CommandName :=
  if word = "extract" then some .extract else if word = "query" then some .query else none

/-- The options of a command, besides the one for the format of the log. -/
def CommandName.options : CommandName → List String
  | .extract => ["path", "as", "each"]
  | .query => ["config", "endpoint", "secret"]

/-- The name of a file: any word but the empty one. -/
def fileName? (word : String) : Option String := if word = "" then none else some word

/-- The format of the log among options. -/
def logFormat? (options : List (String × String)) : Option (Option LogFormat) :=
  (options.lookup logFormatOption).mapM LogFormat.ofName?

/-- The command `extract` of its options and operands. -/
def ExtractCommand.ofArguments? (options : List (String × String)) (words : List String) :
    Option ExtractCommand := do
  let reading ← (options.lookup "as").mapM Reading.ofName?
  let file ← match words with
    | [] => some none
    | [word] => (fileName? word).map some
    | _ => none
  return {
    path := ((options.lookup "path").map Path.parse).getD []
    reading := reading.getD .value
    each := (options.lookup "each").map Path.parse
    file := file }

/-- The command `query` of its options, its operands and the variables of the environment. -/
def QueryCommand.ofArguments? (environment : String → Option String)
    (options : List (String × String)) (words : List String) : Option QueryCommand := do
  let config ← (options.lookup "config").mapM fileName?
  match words with
  | [expr] => return {
      config := config
      endpoint := options.lookup "endpoint" <|> environment ClientConfig.endpointVariable
      secret := options.lookup "secret" <|> environment ClientConfig.secretVariable
      expr := expr }
  | _ => none

/-- The command of a name, its options and its operands. -/
def Command.ofArguments? (environment : String → Option String)
    (options : List (String × String)) (words : List String) : CommandName → Option Command
  | .extract => (ExtractCommand.ofArguments? options words).map .extract
  | .query => (QueryCommand.ofArguments? environment options words).map .query

/-- What a command line asks for, if it asks for something. The format of the log that is given for
the command comes before the one that is given in front of its name. -/
def Invocation.ofWords? (environment : String → Option String) (words : List String) :
    Option Invocation := do
  let arguments ← Argument.scan words
  let (before, after) := arguments.span Argument.isOption
  match after with
  | .operand word :: arguments =>
      let name ← CommandName.ofWord? word
      let outer ← (Argument.options? [logFormatOption] before).bind logFormat?
      let options ← Argument.options? (logFormatOption :: name.options) arguments
      let inner ← logFormat? options
      let command ← Command.ofArguments? environment options (Argument.words arguments) name
      return ⟨(inner <|> outer).getD .text, command⟩
  | _ => none

end DocQuery
