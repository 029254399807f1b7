import DocQuery.Proofs.Dict.Lookup
import DocQuery.Query.Form
import Mathlib.Data.List.Nodup

/-!
# Expressions of the query language are unambiguous

Every call has one member that names its function, and the names of functions are not used for the
further members (`name_not_mem_furtherNames`). So the function of an expression is known, and its
arguments can be read back from its members (`read_head`). Two forms with the same expression are the
same, and only objects and arrays look like data (`expr_unambiguous`).
-/

set_option autoImplicit false

namespace DocQuery

/-! ## Members of an expression -/

namespace Expr

/-- The member of a call with a name. -/
def find? (e : Expr) (name : String) : Option Expr :=
  match e.value with
  | .object members => (Entries.find? name members).map Expr.mk
  | _ => none

theorem find?_members (entries : List (String × Expr)) (name : String) :
    (members entries).find? name = entries.reverse.lookup name := by
  rw [find?, members, Value.ofMembers]
  simp only
  rw [Dict.find?_ofList, ← List.map_reverse, Dict.lookup_map, Option.map_map]
  exact Option.map_id'

/-- Expressions with members are the same when every name has the same last member in both. -/
theorem members_eq_iff {a b : List (String × Expr)} :
    members a = members b ↔ ∀ name, a.reverse.lookup name = b.reverse.lookup name := by
  constructor
  · intro h name
    rw [← find?_members, ← find?_members, h]
  · intro h
    rw [members, members, Value.ofMembers, Value.ofMembers]
    congr 2
    rw [Dict.ofList_eq_iff]
    intro name
    rw [← List.map_reverse, ← List.map_reverse, Dict.lookup_map, Dict.lookup_map, h name]

/-- The members of an expression, each name once. -/
def entries (e : Expr) : List (String × Expr) :=
  match e.value with
  | .object members => (Entries.toList members).map fun entry => (entry.1, ⟨entry.2⟩)
  | _ => []

theorem members_entries (members : List (String × Expr)) :
    Expr.members (Expr.members members).entries = Expr.members members := by
  have hmap (dict : Dict Value) :
      ((Entries.toList dict).map fun entry => (entry.1, (⟨entry.2⟩ : Expr))).map
        (fun e => (e.1, e.2.value)) = Entries.toList dict := by
    rw [List.map_map]
    exact List.map_id' _
  rw [Expr.members, entries, Expr.members]
  simp only [Value.ofMembers]
  rw [hmap, Dict.ofList_toList]

end Expr

/-! ## The function of a form -/

namespace Form

/-- What a call is called by. Several forms share a function. -/
inductive Head where
  | binding
  | var
  | choice
  | lambda
  | object
  | unary (function : UnaryFunction)
  | variadic (function : ListFunction)
  | onCollection (function : CollectionFunction)
  | withParams (function : ParamsFunction)
  | insert
  | remove
  | join
  | logout
  | identify
  | epoch
  | nextId
  | contains
  | select
  | paginate
  deriving DecidableEq

/-- The name of the member that tells the function. -/
def Head.name : Head → String
  | binding => "let"
  | var => "var"
  | choice => "if"
  | lambda => "lambda"
  | object => "object"
  | unary function => function.name
  | variadic function => function.name
  | onCollection function => function.name
  | withParams function => function.name
  | insert => "insert"
  | remove => "remove"
  | join => "join"
  | logout => "logout"
  | identify => "identify"
  | epoch => "epoch"
  | nextId => "next_id"
  | contains => "contains"
  | select => "select"
  | paginate => "paginate"

/-- All functions. -/
def Head.all : List Head :=
  [binding, var, choice, lambda, object] ++
    ([.get, .existence, .count, .delete, .matchIndex, .distinct, .casefold, .time, .date,
      .not].map unary) ++
    ([.sequence, .union, .intersection, .difference, .concat, .equals, .add, .multiply, .subtract,
      .divide, .modulo, .and, .or, .lt, .lte, .gt, .gte].map variadic) ++
    ([.map, .foreach, .filter, .take, .drop, .prepend, .append].map onCollection) ++
    ([.create, .update, .replace, .login].map withParams) ++
    [insert, remove, join, logout, identify, epoch, nextId, contains, select, paginate]

/-- The names of the further members of calls. -/
def furtherNames : List String :=
  ["in", "then", "else", "expr", "collection", "params", "ts", "events", "action", "index", "with",
    "password", "separator", "unit", "from", "default", "before", "after", "size", "sources"]

theorem Head.mem_all (head : Head) : head ∈ all := by
  cases head with
  | unary function => cases function <;> decide
  | variadic function => cases function <;> decide
  | onCollection function => cases function <;> decide
  | withParams function => cases function <;> decide
  | _ => decide

/-- No two functions have the same name. -/
theorem Head.name_injective {a b : Head} (h : a.name = b.name) : a = b := by
  have hnodup : (all.map name).Nodup := by decide +kernel
  exact List.inj_on_of_nodup_map hnodup a.mem_all b.mem_all h

/-- No further member has the name of a function. -/
theorem Head.name_not_mem_furtherNames (head : Head) : head.name ∉ furtherNames := by
  have hall : ∀ h ∈ all, h.name ∉ furtherNames := by decide +kernel
  exact hall head head.mem_all

/-- The function of a form; a list has none. -/
def head? : Form → Option Head
  | binding _ _ => some .binding
  | var _ => some .var
  | choice _ _ _ => some .choice
  | lambda _ _ => some .lambda
  | lambdaPattern _ _ => some .lambda
  | object _ => some .object
  | array _ => none
  | unary function _ => some (.unary function)
  | variadic function _ => some (.variadic function)
  | onCollection function _ _ => some (.onCollection function)
  | withParams function _ _ => some (.withParams function)
  | getAt _ _ => some (.unary .get)
  | existsAt _ _ => some (.unary .existence)
  | countEvents _ => some (.unary .count)
  | insert _ _ _ _ => some .insert
  | remove _ _ _ => some .remove
  | matchTerms _ _ => some (.unary .matchIndex)
  | join _ _ => some .join
  | logout _ => some .logout
  | identify _ _ => some .identify
  | concatWith _ _ => some (.variadic .concat)
  | epoch _ _ => some .epoch
  | nextId => some .nextId
  | contains _ _ => some .contains
  | select _ _ => some .select
  | selectOr _ _ _ => some .select
  | paginate _ => some .paginate

end Form

/-! ## The options of a page -/

namespace Paginate

/-- The member of a cursor. -/
def cursorMember : Option Cursor → List (String × Expr)
  | none => []
  | some cursor => [(cursor.name, cursor.position)]

/-- The members of the chosen options. -/
def options (page : Paginate) : List (String × Expr) :=
  cursorMember page.cursor ++ (optional "ts" page.ts ++ (optional "size" page.size ++
    (flag "events" page.events ++ flag "sources" page.sources)))

theorem arguments_eq (page : Paginate) :
    page.arguments = ("paginate", page.set) :: page.options := by
  rw [arguments, options]
  simp only [List.append_assoc, List.singleton_append]
  cases page.cursor <;> rfl

theorem name_of_mem_cursorMember {cursor : Option Cursor} {entry : String × Expr}
    (h : entry ∈ cursorMember cursor) : entry.1 = "before" ∨ entry.1 = "after" := by
  cases cursor with
  | none => cases h
  | some cursor =>
      obtain rfl := List.mem_singleton.1 h
      cases cursor with
      | before position => exact .inl rfl
      | after position => exact .inr rfl

theorem name_of_mem_optional {name : String} {e : Option Expr} {entry : String × Expr}
    (h : entry ∈ optional name e) : entry.1 = name := by
  cases e with
  | none => cases h
  | some e =>
      obtain rfl := List.mem_singleton.1 h
      rfl

theorem name_of_mem_flag {name : String} {on : Bool} {entry : String × Expr}
    (h : entry ∈ flag name on) : entry.1 = name := by
  cases on with
  | false => cases h
  | true =>
      obtain rfl := List.mem_singleton.1 h
      rfl

theorem mem_furtherNames_of_mem_options {page : Paginate} {entry : String × Expr}
    (h : entry ∈ page.options) : entry.1 ∈ Form.furtherNames := by
  rw [options] at h
  simp only [List.mem_append] at h
  rcases h with h | h | h | h | h
  · rcases name_of_mem_cursorMember h with hname | hname <;> simp [hname, Form.furtherNames]
  · simp [name_of_mem_optional h, Form.furtherNames]
  · simp [name_of_mem_optional h, Form.furtherNames]
  · simp [name_of_mem_flag h, Form.furtherNames]
  · simp [name_of_mem_flag h, Form.furtherNames]

end Paginate

namespace Form

/-- A call starts with the member of its function, and the further members have further names. -/
theorem arguments_eq_cons {form : Form} {head : Head} (h : form.head? = some head) :
    ∃ argument rest, form.arguments = (head.name, argument) :: rest ∧
      ∀ entry ∈ rest, entry.1 ∈ furtherNames := by
  cases form with
  | array items => cases h
  | paginate page =>
      cases h
      exact ⟨page.set, page.options, page.arguments_eq,
        fun _ => Paginate.mem_furtherNames_of_mem_options⟩
  | _ =>
      cases h
      exact ⟨_, _, rfl, by simp [furtherNames]⟩

theorem expr_of_head {form : Form} {head : Head} (h : form.head? = some head) :
    form.expr = Expr.members form.arguments := by
  cases form with
  | array items => cases h
  | _ => rfl

/-- An expression has the member of its function, and no member of another one. -/
theorem eq_head_of_find? {form : Form} {head other : Head} (h : form.head? = some head)
    {argument : Expr} (hfind : form.expr.find? other.name = some argument) : other = head := by
  obtain ⟨first, rest, harguments, hrest⟩ := arguments_eq_cons h
  rw [expr_of_head h, Expr.find?_members, harguments] at hfind
  -- the member that was found has a name of the call
  have hmem : other.name ∈ ((head.name, first) :: rest).reverse.map Prod.fst := by
    by_contra hnone
    rw [Dict.lookup_eq_none hnone] at hfind
    cases hfind
  rw [List.mem_map] at hmem
  obtain ⟨entry, hentry, hname⟩ := hmem
  rcases List.mem_cons.1 (List.mem_reverse.1 hentry) with rfl | hentry
  · exact Head.name_injective hname.symm
  · exact absurd (hname ▸ hrest entry hentry) other.name_not_mem_furtherNames

theorem exists_find?_head {form : Form} {head : Head} (h : form.head? = some head) :
    ∃ argument, form.expr.find? head.name = some argument := by
  obtain ⟨first, rest, harguments, hrest⟩ := arguments_eq_cons h
  rw [expr_of_head h, Expr.find?_members, harguments]
  cases hlookup : ((head.name, first) :: rest).reverse.lookup head.name with
  | some argument => exact ⟨argument, rfl⟩
  | none =>
      have hne := List.lookup_eq_none_iff.1 hlookup (head.name, first)
        (List.mem_reverse.2 List.mem_cons_self)
      simp at hne

/-! ## Reading a form back -/

/-- The literal string of an expression. -/
def string? (e : Expr) : Option String := e.value.asString?

/-- The items of a list. -/
def items? (e : Expr) : Option (List Expr) := e.value.asArray?.map fun items => items.map Expr.mk

/-- The action with a name. -/
def action? (e : Expr) : Option Action :=
  (string? e).bind fun name => [Action.create, .delete].find? (·.name == name)

/-- The unit with a name. -/
def unit? (e : Expr) : Option TimeUnit :=
  (string? e).bind fun name =>
    [TimeUnit.second, .millisecond, .microsecond, .nanosecond].find? (·.name == name)

/-- The form of a call whose function is known, from its members. Further members tell the forms of
one function apart. -/
def read (find : String → Option Expr) : Head → Option Form
  | .binding => do return binding (← find "let").entries (← find "in")
  | .var => do return var (← string? (← find "var"))
  | .choice => do return choice (← find "if") (← find "then") (← find "else")
  | .lambda => do
      let parameter ← find "lambda"
      let body ← find "expr"
      match items? parameter with
      | some parameters => return lambdaPattern (parameters.filterMap string?) body
      | none => return lambda (← string? parameter) body
  | .object => do return object (← find "object").entries
  | .unary .get => do
      let resource ← find "get"
      match find "ts" with
      | some ts => return getAt resource ts
      | none => return unary .get resource
  | .unary .existence => do
      let resource ← find "exists"
      match find "ts" with
      | some ts => return existsAt resource ts
      | none => return unary .existence resource
  | .unary .count => do
      let set ← find "count"
      match find "events" with
      | some _ => return countEvents set
      | none => return unary .count set
  | .unary .matchIndex => do
      let terms ← find "match"
      match find "index" with
      | some index => return matchTerms terms index
      | none => return unary .matchIndex terms
  | .unary function => do return unary function (← find function.name)
  | .variadic .concat => do
      let strings ← items? (← find "concat")
      match find "separator" with
      | some separator => return concatWith strings separator
      | none => return variadic .concat strings
  | .variadic function => do return variadic function (← items? (← find function.name))
  | .onCollection function => do
      return onCollection function (← find function.name) (← find "collection")
  | .withParams function => do return withParams function (← find function.name) (← find "params")
  | .insert => do
      return insert (← find "insert") (← find "ts") (← action? (← find "action")) (← find "params")
  | .remove => do return remove (← find "remove") (← find "ts") (← action? (← find "action"))
  | .join => do return join (← find "join") (← find "with")
  | .logout => do return logout (← (← find "logout").value.asBoolean?)
  | .identify => do return identify (← find "identify") (← find "password")
  | .epoch => do return epoch (← find "epoch") (← unit? (← find "unit"))
  | .nextId => some nextId
  | .contains => do return contains (← find "contains") (← find "in")
  | .select => do
      let path ← find "select"
      let source ← find "from"
      match find "default" with
      | some default => return selectOr path source default
      | none => return select path source
  | .paginate => do
      return paginate {
        set := ← find "paginate"
        cursor := ((find "before").map .before).or ((find "after").map .after)
        ts := find "ts"
        size := find "size"
        events := (find "events").isSome
        sources := (find "sources").isSome }

/-- A form with every name of bindings and members once. -/
def canonical : Form → Form
  | binding bindings body => binding (Expr.members bindings).entries body
  | object members => object (Expr.members members).entries
  | form => form

theorem items?_list (items : List Expr) : items? (Expr.list items) = some items := by
  rw [items?, Expr.list, Value.asArray?, Option.map_some, List.map_map]
  exact congrArg some (List.map_id' items)

theorem filterMap_string? (names : List String) :
    (names.map Expr.ofString).filterMap string? = names := by
  rw [List.filterMap_map]
  exact List.filterMap_some

end Form

namespace Paginate

theorem lookup_cursorMember (cursor : Option Cursor) (name : String) :
    (cursorMember cursor).reverse.lookup name =
      cursor.bind fun c => if name = c.name then some c.position else none := by
  cases cursor with
  | none => rfl
  | some cursor =>
      rw [cursorMember, List.reverse_singleton, List.lookup_cons, Option.bind_some]
      by_cases h : name = cursor.name
      · rw [if_pos h, h, BEq.rfl]
      · rw [if_neg h, beq_false_of_ne h]
        rfl

theorem lookup_optional (key name : String) (e : Option Expr) :
    (optional key e).reverse.lookup name = if name = key then e else none := by
  cases e with
  | none => exact (ite_self none).symm
  | some e =>
      rw [optional, List.reverse_singleton, List.lookup_cons]
      by_cases h : name = key
      · rw [if_pos h, h, BEq.rfl]
      · rw [if_neg h, beq_false_of_ne h]
        rfl

theorem lookup_flag (key name : String) (on : Bool) :
    (flag key on).reverse.lookup name =
      if name = key then (if on then some (Expr.ofBool true) else none) else none := by
  have hflag : flag key on = optional key (if on then some (Expr.ofBool true) else none) := by
    cases on <;> rfl
  rw [hflag, lookup_optional]

/-- The member of a page with a name. -/
theorem lookup_arguments (page : Paginate) (name : String) :
    page.arguments.reverse.lookup name =
      ((((((flag "sources" page.sources).reverse.lookup name).or
        ((flag "events" page.events).reverse.lookup name)).or
          ((optional "size" page.size).reverse.lookup name)).or
            ((optional "ts" page.ts).reverse.lookup name)).or
              ((cursorMember page.cursor).reverse.lookup name)).or
                (if name = "paginate" then some page.set else none) := by
  have hset : [("paginate", page.set)].lookup name =
      if name = "paginate" then some page.set else none :=
    lookup_optional "paginate" name (some page.set)
  rw [arguments_eq, options, List.reverse_cons, List.lookup_append, hset]
  simp only [List.reverse_append, List.lookup_append]

end Paginate

namespace Form

/-- **A form is read back from its members.** -/
theorem read_head {form : Form} {head : Head} (h : form.head? = some head) :
    read (fun name => form.arguments.reverse.lookup name) head = some form.canonical := by
  cases form with
  | array items => cases h
  | paginate page =>
      -- the options are looked up one by one, and the names keep them apart
      cases h
      have hflag (on : Bool) :
          (if on = true then some (Expr.ofBool true) else none).isSome = on := by
        cases on <;> rfl
      rcases page with ⟨set, cursor, ts, size, events, sources⟩
      simp only [read, arguments, Paginate.lookup_arguments, Paginate.lookup_cursorMember,
        Paginate.lookup_optional, Paginate.lookup_flag]
      rcases cursor with _ | position | position <;>
        simp [Cursor.name, Cursor.position, canonical, hflag]
  | unary function argument =>
      cases h
      cases function <;> rfl
  | variadic function items =>
      -- the arguments are read back from their list
      cases h
      have hitems (make : List Expr → Form) :
          ((items? (Expr.list items)).bind fun strings => some (make strings)) =
            some (make items) := by
        rw [items?_list]
        rfl
      cases function <;> exact hitems _
  | onCollection function argument collection =>
      cases h
      cases function <;> rfl
  | withParams function target params =>
      cases h
      cases function <;> rfl
  | binding bindings body =>
      cases h
      rfl
  | lambdaPattern parameters body =>
      cases h
      have hparameters : (items? (Expr.list (parameters.map Expr.ofString))).map
          (fun items => lambdaPattern (items.filterMap string?) body) =
            some (lambdaPattern parameters body) := by
        rw [items?_list, Option.map_some, filterMap_string?]
      exact hparameters
  | insert resource ts action params =>
      cases h
      cases action <;> rfl
  | remove resource ts action =>
      cases h
      cases action <;> rfl
  | concatWith strings separator =>
      cases h
      have hstrings : ((items? (Expr.list strings)).bind fun items =>
          some (concatWith items separator)) = some (concatWith strings separator) := by
        rw [items?_list]
        rfl
      exact hstrings
  | epoch offset unit =>
      cases h
      cases unit <;> rfl
  | _ =>
      cases h
      rfl

/-! ## Forms with the same expression -/

/-- Two forms are the same up to how often and in which order names are bound: bindings, and members
of an object, are compared by the last one of each name. -/
inductive Same : Form → Form → Prop where
  | refl (form : Form) : Same form form
  | binding {a b : List (String × Expr)} (body : Expr)
      (last : ∀ name, a.reverse.lookup name = b.reverse.lookup name) :
      Same (binding a body) (binding b body)
  | object {a b : List (String × Expr)}
      (last : ∀ name, a.reverse.lookup name = b.reverse.lookup name) : Same (object a) (object b)

theorem Same.symm {f g : Form} (h : Same f g) : Same g f := by
  cases h with
  | refl => exact .refl _
  | binding body last => exact .binding body fun name => (last name).symm
  | object last => exact .object fun name => (last name).symm

theorem Same.trans {f g k : Form} (hfg : Same f g) (hgk : Same g k) : Same f k := by
  cases hfg with
  | refl => exact hgk
  | binding body last =>
      cases hgk with
      | refl => exact .binding body last
      | binding _ last' => exact .binding body fun name => (last name).trans (last' name)
  | object last =>
      cases hgk with
      | refl => exact .object last
      | object last' => exact .object fun name => (last name).trans (last' name)

theorem same_canonical (form : Form) : Same form form.canonical := by
  cases form with
  | binding bindings body =>
      exact .binding body (Expr.members_eq_iff.1 (Expr.members_entries bindings).symm)
  | object members => exact .object (Expr.members_eq_iff.1 (Expr.members_entries members).symm)
  | _ => exact .refl _

theorem Same.expr_eq {f g : Form} (h : Same f g) : f.expr = g.expr := by
  cases h with
  | refl => rfl
  | binding body last =>
      rw [expr, expr, arguments, arguments, Expr.members_eq_iff.2 last]
      · rintro items ⟨⟩
      · rintro items ⟨⟩
  | object last =>
      rw [expr, expr, arguments, arguments, Expr.members_eq_iff.2 last]
      · rintro items ⟨⟩
      · rintro items ⟨⟩

theorem find?_expr {form : Form} {head : Head} (h : form.head? = some head) :
    form.expr.find? = fun name => form.arguments.reverse.lookup name := by
  funext name
  rw [expr_of_head h, Expr.find?_members]

/-- A list has no members, and a form without members is a list. -/
theorem eq_array_of_head? {form : Form} (h : form.head? = none) : ∃ items, form = array items := by
  cases form with
  | array items => exact ⟨items, rfl⟩
  | _ => cases h

/-- No call is a list. -/
theorem expr_ne_list {form : Form} {head : Head} (h : form.head? = some head) (items : List Expr) :
    form.expr ≠ Expr.list items := by
  intro he
  obtain ⟨argument, hfind⟩ := exists_find?_head h
  rw [he] at hfind
  cases hfind

/-- Forms with the same expression are the same. -/
theorem same_of_expr_eq {f g : Form} (h : f.expr = g.expr) : Same f g := by
  cases hf : f.head? with
  | none =>
      obtain ⟨items, rfl⟩ := eq_array_of_head? hf
      cases hg : g.head? with
      | none =>
          obtain ⟨items', rfl⟩ := eq_array_of_head? hg
          have hitems : items? (Expr.list items) = items? (Expr.list items') := congrArg items? h
          rw [items?_list, items?_list] at hitems
          rw [Option.some.inj hitems]
          exact .refl _
      | some head => exact absurd h.symm (expr_ne_list hg items)
  | some head =>
      cases hg : g.head? with
      | none =>
          obtain ⟨items', rfl⟩ := eq_array_of_head? hg
          exact absurd h (expr_ne_list hf items')
      | some head' =>
          -- the function is the same, so the members are read in the same way
          obtain ⟨argument, hfind⟩ := exists_find?_head hg
          obtain rfl := eq_head_of_find? hf (h ▸ hfind)
          have hread := read_head hf
          rw [← find?_expr hf, h, find?_expr hg, read_head hg] at hread
          have hcanonical := Option.some.inj hread
          exact (same_canonical f).trans (hcanonical ▸ (same_canonical g).symm)

/-- Of the calls, only the ones of objects look like data. -/
theorem head_of_expr_eq_ofValue {form : Form} {head : Head} (h : form.head? = some head) {v : Value}
    (hv : form.expr = Expr.ofValue v) : head = .object := by
  obtain ⟨argument, hfind⟩ := exists_find?_head h
  rw [hv, Expr.ofValue, Expr.find?] at hfind
  cases v with
  | object members =>
      have hfind' : (if head.name = "object" then some (Value.object (Expr.quoteMembers members))
          else none).map Expr.mk = some argument := hfind
      split at hfind'
      · rename_i hname
        exact Head.name_injective hname
      · cases hfind'
  | _ => cases hfind

/-- **The query language is unambiguous and not confused with data.** Two forms have the same
expression exactly when they are the same, and a form whose expression is that of a datum is an
object or a list. -/
theorem expr_unambiguous :
    (∀ f g : Form, f.expr = g.expr ↔ Same f g) ∧
      ∀ (f : Form) (v : Value), f.expr = Expr.ofValue v →
        (∃ members, f = object members) ∨ ∃ items, f = array items := by
  refine ⟨fun f g => ⟨same_of_expr_eq, Same.expr_eq⟩, ?_⟩
  intro f v hv
  cases hf : f.head? with
  | none => exact .inr (eq_array_of_head? hf)
  | some head =>
      -- only the function of objects is left
      obtain rfl := head_of_expr_eq_ofValue hf hv
      cases f with
      | object members => exact .inl ⟨members, rfl⟩
      | _ => cases hf

theorem expr_unambiguous_object :
    (object [("name", Expr.ofString "Fire")]).expr =
        Expr.ofValue (.object (Dict.single "name" (.string "Fire"))) ∧
      ((∃ members, object [("name", Expr.ofString "Fire")] = object members) ∨
        ∃ items, object [("name", Expr.ofString "Fire")] = array items) :=
  have hv : (object [("name", Expr.ofString "Fire")]).expr =
      Expr.ofValue (.object (Dict.single "name" (.string "Fire"))) := rfl
  ⟨hv, expr_unambiguous.2 _ _ hv⟩

end Form

end DocQuery
