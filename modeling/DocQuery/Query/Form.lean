import DocQuery.Query.Paginate

/-!
# The query language

The forms of the query language and the expression of each. A form is a call: an object that has the
name of the function as one of its keys and the further arguments under keys of their own; lists are
the one form that is no call. Functions of the same form of arguments are grouped. Nothing is
checked here: what a name refers to is the server's business.
-/

set_option autoImplicit false

namespace DocQuery

/-- The events of a history that are written and deleted one by one. -/
inductive Action where
  | create
  | delete
  deriving DecidableEq

/-- The name of an action. -/
def Action.name : Action → String
  | create => "create"
  | delete => "delete"

/-- The units of time since the epoch. -/
inductive TimeUnit where
  | second
  | millisecond
  | microsecond
  | nanosecond
  deriving DecidableEq

/-- The name of a unit. -/
def TimeUnit.name : TimeUnit → String
  | second => "second"
  | millisecond => "millisecond"
  | microsecond => "microsecond"
  | nanosecond => "nanosecond"

/-! ## Groups of functions -/

/-- The functions of one argument. -/
inductive UnaryFunction where
  | get
  | existence
  | count
  | delete
  /-- All members of an index that has no terms. -/
  | matchIndex
  | distinct
  | casefold
  | time
  | date
  | not
  deriving DecidableEq

/-- The name of a function of one argument. -/
def UnaryFunction.name : UnaryFunction → String
  | get => "get"
  | existence => "exists"
  | count => "count"
  | delete => "delete"
  | matchIndex => "match"
  | distinct => "distinct"
  | casefold => "casefold"
  | time => "time"
  | date => "date"
  | not => "not"

/-- The functions of any number of arguments. -/
inductive ListFunction where
  | sequence
  | union
  | intersection
  | difference
  | concat
  | equals
  | add
  | multiply
  | subtract
  | divide
  | modulo
  | and
  | or
  | lt
  | lte
  | gt
  | gte
  deriving DecidableEq

/-- The name of a function of any number of arguments. -/
def ListFunction.name : ListFunction → String
  | sequence => "do"
  | union => "union"
  | intersection => "intersection"
  | difference => "difference"
  | concat => "concat"
  | equals => "equals"
  | add => "add"
  | multiply => "multiply"
  | subtract => "subtract"
  | divide => "divide"
  | modulo => "modulo"
  | and => "and"
  | or => "or"
  | lt => "lt"
  | lte => "lte"
  | gt => "gt"
  | gte => "gte"

/-- The functions of a collection and one more argument. -/
inductive CollectionFunction where
  | map
  | foreach
  | filter
  | take
  | drop
  | prepend
  | append
  deriving DecidableEq

/-- The name of a function of a collection. -/
def CollectionFunction.name : CollectionFunction → String
  | map => "map"
  | foreach => "foreach"
  | filter => "filter"
  | take => "take"
  | drop => "drop"
  | prepend => "prepend"
  | append => "append"

/-- The functions of a target and parameters. -/
inductive ParamsFunction where
  | create
  | update
  | replace
  | login
  deriving DecidableEq

/-- The name of a function of a target and parameters. -/
def ParamsFunction.name : ParamsFunction → String
  | create => "create"
  | update => "update"
  | replace => "replace"
  | login => "login"

/-! ## Forms -/

/-- A form of the query language. -/
inductive Form where
  /-- Bind names, then evaluate the body. -/
  | binding (bindings : List (String × Expr)) (body : Expr)
  /-- Refer to a bound name. -/
  | var (name : String)
  | choice (condition whenTrue whenFalse : Expr)
  | lambda (parameter : String) (body : Expr)
  /-- A function that takes its argument apart into parameters. -/
  | lambdaPattern (parameters : List String) (body : Expr)
  /-- An object whose members are expressions. -/
  | object (members : List (String × Expr))
  /-- A list whose items are expressions. -/
  | array (items : List Expr)
  | unary (function : UnaryFunction) (argument : Expr)
  | variadic (function : ListFunction) (arguments : List Expr)
  | onCollection (function : CollectionFunction) (argument collection : Expr)
  | withParams (function : ParamsFunction) (target params : Expr)
  | getAt (resource ts : Expr)
  | existsAt (resource ts : Expr)
  /-- Count the events of a set instead of its members. -/
  | countEvents (set : Expr)
  | insert (resource ts : Expr) (action : Action) (params : Expr)
  | remove (resource ts : Expr) (action : Action)
  /-- The members of an index that match terms. -/
  | matchTerms (terms index : Expr)
  | join (source target : Expr)
  | logout (allTokens : Bool)
  | identify (resource password : Expr)
  | concatWith (strings : List Expr) (separator : Expr)
  | epoch (offset : Expr) (unit : TimeUnit)
  | nextId
  | contains (path value : Expr)
  | select (path source : Expr)
  /-- Select, with a value for the case that there is none. -/
  | selectOr (path source default : Expr)
  | paginate (page : Paginate)

namespace Form

/-- The members of a call; a list has none. -/
def arguments : Form → List (String × Expr)
  | binding bindings body => [("let", Expr.members bindings), ("in", body)]
  | var name => [("var", Expr.ofString name)]
  | choice condition whenTrue whenFalse =>
      [("if", condition), ("then", whenTrue), ("else", whenFalse)]
  | lambda parameter body => [("lambda", Expr.ofString parameter), ("expr", body)]
  | lambdaPattern parameters body =>
      [("lambda", Expr.list (parameters.map Expr.ofString)), ("expr", body)]
  | object members => [("object", Expr.members members)]
  | array _ => []
  | unary function argument => [(function.name, argument)]
  | variadic function arguments => [(function.name, Expr.list arguments)]
  | onCollection function argument collection =>
      [(function.name, argument), ("collection", collection)]
  | withParams function target params => [(function.name, target), ("params", params)]
  | getAt resource ts => [("get", resource), ("ts", ts)]
  | existsAt resource ts => [("exists", resource), ("ts", ts)]
  | countEvents set => [("count", set), ("events", Expr.ofBool true)]
  | insert resource ts action params =>
      [("insert", resource), ("ts", ts), ("action", Expr.ofString action.name),
        ("params", params)]
  | remove resource ts action =>
      [("remove", resource), ("ts", ts), ("action", Expr.ofString action.name)]
  | matchTerms terms index => [("match", terms), ("index", index)]
  | join source target => [("join", source), ("with", target)]
  | logout allTokens => [("logout", Expr.ofBool allTokens)]
  | identify resource password => [("identify", resource), ("password", password)]
  | concatWith strings separator => [("concat", Expr.list strings), ("separator", separator)]
  | epoch offset unit => [("epoch", offset), ("unit", Expr.ofString unit.name)]
  | nextId => [("next_id", Expr.null)]
  | contains path value => [("contains", path), ("in", value)]
  | select path source => [("select", path), ("from", source)]
  | selectOr path source default => [("select", path), ("from", source), ("default", default)]
  | paginate page => page.arguments

/-- The expression of a form. -/
def expr : Form → Expr
  | array items => Expr.list items
  | form => Expr.members form.arguments

end Form

end DocQuery
