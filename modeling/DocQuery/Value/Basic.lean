import DocQuery.Binary64.Rounding
import DocQuery.Calendar.Timestamp
import DocQuery.Dict
import DocQuery.Ref

/-!
# Values

The data that documents and queries are made of: the types of JSON, with integers and doubles apart,
and references, timestamps, dates and sets. Equality is structural; doubles are equal when their bits
are (`Value.beq_iff`).
-/

set_option autoImplicit false

namespace DocQuery

/-- A datum. -/
inductive Value where
  | null
  | boolean (b : Bool)
  | long (n : Int64)
  | double (d : Binary64)
  | string (s : String)
  | array (items : List Value)
  | object (members : Entries Value none)
  | ref (r : Ref)
  | timestamp (t : Timestamp)
  | date (d : Date)
  /-- A set, given by the query that describes it. -/
  | set (query : Value)

/-- The kinds of values. -/
inductive Kind where
  | null
  | boolean
  | long
  | double
  | string
  | array
  | object
  | ref
  | timestamp
  | date
  | set
  deriving DecidableEq

/-- The name of a kind. -/
def Kind.name : Kind → String
  | .null => "null"
  | .boolean => "boolean"
  | .long => "long"
  | .double => "double"
  | .string => "string"
  | .array => "array"
  | .object => "object"
  | .ref => "ref"
  | .timestamp => "timestamp"
  | .date => "date"
  | .set => "set"

namespace Value

/-- The kind of a value. -/
def kind : Value → Kind
  | null => .null
  | boolean _ => .boolean
  | long _ => .long
  | double _ => .double
  | string _ => .string
  | array _ => .array
  | object _ => .object
  | ref _ => .ref
  | timestamp _ => .timestamp
  | date _ => .date
  | set _ => .set

/-- The object of a list of members; of a repeated key the last member stays. -/
def ofMembers (members : List (String × Value)) : Value := object (Dict.ofList members)

/-- The value of a 32-bit integer. -/
def ofInt32 (n : Int32) : Value := long n.toInt64

/-- The value of a 32-bit natural. -/
def ofUInt32 (n : UInt32) : Value := long (Int64.ofNat n.toNat)

/-- The value of optional data: null where there is none. -/
def ofOption {α : Type} (wrap : α → Value) : Option α → Value
  | none => null
  | some x => wrap x

/-! ## Payloads -/

/-- The value is null. -/
def isNull : Value → Bool
  | null => true
  | _ => false

def asBoolean? : Value → Option Bool
  | boolean b => some b
  | _ => none

def asLong? : Value → Option Int64
  | long n => some n
  | _ => none

/-- The number as a double; an integer is rounded to the nearest one. -/
def asDouble? : Value → Option Binary64
  | double d => some d
  | long n => some (Binary64.ofInt n.toInt)
  | _ => none

def asString? : Value → Option String
  | string s => some s
  | _ => none

def asArray? : Value → Option (List Value)
  | array items => some items
  | _ => none

def asObject? : Value → Option (Dict Value)
  | object members => some members
  | _ => none

def asRef? : Value → Option Ref
  | ref r => some r
  | _ => none

def asTimestamp? : Value → Option Timestamp
  | timestamp t => some t
  | _ => none

def asDate? : Value → Option Date
  | date d => some d
  | _ => none

/-- The query that describes a set. -/
def asSet? : Value → Option Value
  | set query => some query
  | _ => none

/-! ## Equality -/

mutual

/-- Two values are the same. -/
def beq : Value → Value → Bool
  | null, null => true
  | boolean a, boolean b => a == b
  | long a, long b => a == b
  | double a, double b => a == b
  | string a, string b => a == b
  | array a, array b => beqItems a b
  | object a, object b => beqMembers a b
  | ref a, ref b => a == b
  | timestamp a, timestamp b => a == b
  | date a, date b => a == b
  | set a, set b => beq a b
  | _, _ => false

/-- Two lists of values are the same. -/
def beqItems : List Value → List Value → Bool
  | [], [] => true
  | a :: as, b :: bs => beq a b && beqItems as bs
  | _, _ => false

/-- Two lists of members are the same. -/
def beqMembers : {x y : Option String} → Entries Value x → Entries Value y → Bool
  | _, _, .nil, .nil => true
  | _, _, .cons k _ a as, .cons l _ b bs => k == l && beq a b && beqMembers as bs
  | _, _, _, _ => false

end

mutual

theorem beq_iff : (a b : Value) → (beq a b = true ↔ a = b)
  | null, b => by cases b <;> simp [beq]
  | boolean _, b => by cases b <;> simp [beq]
  | long _, b => by cases b <;> simp [beq]
  | double _, b => by cases b <;> simp [beq]
  | string _, b => by cases b <;> simp [beq]
  | array items, b => by cases b <;> simp [beq, beqItems_iff items]
  | object members, b => by
      cases b <;> simp only [beq, Bool.false_eq_true, reduceCtorEq]
      rw [beqMembers_iff members, object.injEq]
      exact ⟨Entries.toList_injective _ _, fun h => h ▸ rfl⟩
  | ref _, b => by cases b <;> simp [beq]
  | timestamp _, b => by cases b <;> simp [beq]
  | date _, b => by cases b <;> simp [beq]
  | set query, b => by cases b <;> simp [beq, beq_iff query]

theorem beqItems_iff : (a b : List Value) → (beqItems a b = true ↔ a = b)
  | [], [] => by simp [beqItems]
  | [], _ :: _ => by simp [beqItems]
  | _ :: _, [] => by simp [beqItems]
  | a :: as, b :: bs => by simp [beqItems, beq_iff a, beqItems_iff as]

theorem beqMembers_iff : {x y : Option String} → (a : Entries Value x) → (b : Entries Value y) →
    (beqMembers a b = true ↔ a.toList = b.toList)
  | _, _, .nil, .nil => by simp [beqMembers, Entries.toList]
  | _, _, .nil, .cons _ _ _ _ => by simp [beqMembers, Entries.toList]
  | _, _, .cons _ _ _ _, .nil => by simp [beqMembers, Entries.toList]
  | _, _, .cons k _ a as, .cons l _ b bs => by
      simp [beqMembers, Entries.toList, beq_iff a, beqMembers_iff as]

end

instance : DecidableEq Value := fun a b => decidable_of_iff _ (beq_iff a b)

end Value

end DocQuery
