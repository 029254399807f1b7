import DocQuery.Path.Basic
import DocQuery.Value.Basic

/-!
# Expressions

An expression of the query language is a value in which every object is a call: its members name a
function and its arguments. Data that holds objects is therefore quoted before it becomes part of an
expression: each object is wrapped as the only argument of the call `object`.
-/

set_option autoImplicit false

namespace DocQuery

/-- An expression, as the value that is sent. -/
structure Expr where
  value : Value
  deriving DecidableEq

namespace Expr

mutual

/-- Data as part of an expression. -/
def quote : Value → Value
  | .object members => .object (Dict.single "object" (.object (quoteMembers members)))
  | .array items => .array (quoteItems items)
  | .null => .null
  | .boolean b => .boolean b
  | .long n => .long n
  | .double d => .double d
  | .string s => .string s
  | .ref r => .ref r
  | .timestamp t => .timestamp t
  | .date d => .date d
  | .set query => .set query

/-- Items as parts of an expression. -/
def quoteItems : List Value → List Value
  | [] => []
  | item :: items => quote item :: quoteItems items

/-- Members as parts of an expression. -/
def quoteMembers : {bound : Option String} → Entries Value bound → Entries Value bound
  | _, .nil => .nil
  | _, .cons key above member members => .cons key above (quote member) (quoteMembers members)

end

/-- The expression that denotes a datum. -/
def ofValue (v : Value) : Expr := ⟨quote v⟩

/-- The null literal. -/
def null : Expr := ⟨.null⟩

/-- A literal string. -/
def ofString (s : String) : Expr := ⟨.string s⟩

/-- A literal truth value. -/
def ofBool (b : Bool) : Expr := ⟨.boolean b⟩

/-- A literal integer. -/
def ofLong (n : Int64) : Expr := ⟨.long n⟩

/-- A literal integer of 32 bits. -/
def ofInt32 (n : Int32) : Expr := ⟨.ofInt32 n⟩

/-- A literal double. -/
def ofDouble (d : Binary64) : Expr := ⟨.double d⟩

/-- A literal reference. -/
def ofRef (r : Ref) : Expr := ⟨.ref r⟩

/-- A literal timestamp. -/
def ofTimestamp (t : Timestamp) : Expr := ⟨.timestamp t⟩

/-- A literal date. -/
def ofDate (d : Date) : Expr := ⟨.date d⟩

/-- A list of expressions. -/
def list (items : List Expr) : Expr := ⟨.array (items.map Expr.value)⟩

/-- An object whose members are expressions; of a repeated name the last member stays. -/
def members (entries : List (String × Expr)) : Expr :=
  ⟨Value.ofMembers (entries.map (fun e => (e.1, e.2.value)))⟩

/-- A step of a path, as a literal. An index is written as a 64-bit integer with a sign. -/
def ofSegment : Segment → Expr
  | .key name => ofString name
  | .index position => ⟨.long (Int64.ofNat position)⟩

/-- A path, as the list of its steps. -/
def ofPath (path : Path) : Expr := list (path.map ofSegment)

end Expr

end DocQuery
