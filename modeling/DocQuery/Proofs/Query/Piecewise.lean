import DocQuery.Proofs.Query.Quoting
import DocQuery.Query.Form

/-!
# Literals built piece by piece

An expression is built from a datum from the leaves up: a scalar is a literal, a list is made of the
expressions of its items, and an object is made of the expressions of its members, listed in any
order. A key can be listed more than once; its last entry is the one that counts (`Expr.Built`). What
is built is the expression that quotes the whole datum, and nothing else (`Expr.built_iff`).
-/

set_option autoImplicit false

namespace DocQuery.Expr

/-- The expression is built from the datum. An object is listed with the keys that it has; the
expression in the last entry of a key is built from the member at that key, and earlier entries of
the key do not matter. -/
inductive Built : Value → Expr → Prop where
  | null : Built .null null
  | boolean (b : Bool) : Built (.boolean b) (ofBool b)
  | long (n : Int64) : Built (.long n) (ofLong n)
  | int32 (n : Int32) : Built (.ofInt32 n) (ofInt32 n)
  | double (d : Binary64) : Built (.double d) (ofDouble d)
  | string (s : String) : Built (.string s) (ofString s)
  | ref (r : Ref) : Built (.ref r) (ofRef r)
  | timestamp (t : Timestamp) : Built (.timestamp t) (ofTimestamp t)
  | date (d : Date) : Built (.date d) (ofDate d)
  /-- What has no items and no members is quoted as it is. -/
  | whole {v : Value} (noArray : v.kind ≠ .array) (noObject : v.kind ≠ .object) :
      Built v (ofValue v)
  | list {items : List Value} {exprs : List Expr} (length : exprs.length = items.length)
      (parts : ∀ (position : Nat) v e, items[position]? = some v → exprs[position]? = some e →
        Built v e) : Built (.array items) (list exprs)
  | array {items : List Value} {exprs : List Expr} (length : exprs.length = items.length)
      (parts : ∀ (position : Nat) v e, items[position]? = some v → exprs[position]? = some e →
        Built v e) : Built (.array items) (Form.array exprs).expr
  | object {members : Dict Value} {listing : List (String × Expr)}
      (keys : ∀ key, (listing.reverse.lookup key).isSome = (members.find? key).isSome)
      (parts : ∀ key v e, members.find? key = some v → listing.reverse.lookup key = some e →
        Built v e) : Built (.object members) (Form.object listing).expr

/-! ## Quoting, item by item and member by member -/

theorem quoteItems_eq_map (items : List Value) : quoteItems items = items.map quote := by
  induction items with
  | nil => rfl
  | cons item items ih => rw [quoteItems, ih, List.map_cons]

theorem quoteMembers_eq_map {bound : Option String} (members : Entries Value bound) :
    quoteMembers members = members.map quote := by
  induction members with
  | nil => rfl
  | cons key above member members ih => rw [quoteMembers, ih, Entries.map]

theorem ofValue_array (items : List Value) :
    ofValue (.array items) = list (items.map ofValue) := by
  rw [ofValue, quote, quoteItems_eq_map, list, List.map_map]
  rfl

/-- A form that lists the quoted members of an object, in whatever order, quotes the object. -/
theorem expr_object_eq_ofValue {members : Dict Value} {listing : List (String × Expr)}
    (h : ∀ key, listing.reverse.lookup key = (members.find? key).map ofValue) :
    (Form.object listing).expr = ofValue (.object members) := by
  have hmembers : Dict.ofList (listing.map fun entry => (entry.1, entry.2.value)) =
      quoteMembers members := by
    apply Dict.eq_of_find?
    intro key
    rw [Dict.find?_ofList, ← List.map_reverse, Dict.lookup_map, h key, quoteMembers_eq_map,
      Entries.find?_map, Option.map_map]
    rfl
  rw [ofValue, quote, ← hmembers]
  rfl

/-! ## What is built -/

theorem list_eq_ofValue {items : List Value} {exprs : List Expr}
    (length : exprs.length = items.length)
    (parts : ∀ (position : Nat) v e, items[position]? = some v → exprs[position]? = some e →
      e = ofValue v) : list exprs = ofValue (.array items) := by
  have hexprs : exprs = items.map ofValue := by
    apply List.ext_getElem
    · rw [length, List.length_map]
    · intro position hexpr hitem
      rw [List.length_map] at hitem
      rw [List.getElem_map]
      exact parts position _ _ (List.getElem?_eq_getElem hitem) (List.getElem?_eq_getElem hexpr)
  rw [ofValue_array, hexprs]

/-- What is built from a datum is its quoted form. -/
theorem Built.eq_ofValue {v : Value} {e : Expr} (h : Built v e) : e = ofValue v := by
  induction h with
  | null | boolean | long | int32 | double | string | ref | timestamp | date | whole => rfl
  | list length _ ih => exact list_eq_ofValue length ih
  | array length _ ih => exact list_eq_ofValue length ih
  | @object members listing keys _ ih =>
      apply expr_object_eq_ofValue
      intro key
      have hkey := keys key
      cases hmember : members.find? key with
      | none =>
          -- a key that the object lacks is not listed
          rw [hmember] at hkey
          exact Option.isNone_iff_eq_none.1 (by simpa using hkey)
      | some v =>
          rw [hmember] at hkey
          obtain ⟨e, hentry⟩ := Option.isSome_iff_exists.1 hkey
          rw [hentry, ih key v e hmember hentry]
          rfl

/-- Every datum can be built: the items in order, and the members in the order of their keys. -/
theorem built_ofValue (v : Value) : Built v (ofValue v) := by
  induction v using Value.rec' with
  | scalar v noArray noObject => exact .whole noArray noObject
  | array items ih =>
      rw [ofValue_array]
      apply Built.list
      · exact List.length_map _
      · intro position v e hitem hexpr
        rw [List.getElem?_map, hitem] at hexpr
        obtain rfl := Option.some.inj hexpr
        exact ih v (List.mem_of_getElem? hitem)
  | object members ih =>
      -- the members are listed as they stand in the object
      let listing := (Entries.toList members).map fun entry => (entry.1, ofValue entry.2)
      have hlookup (key : String) :
          listing.reverse.lookup key = (members.find? key).map ofValue := by
        rw [← List.map_reverse, Dict.lookup_map, ← Dict.find?_ofList, Dict.ofList_toList]
      rw [← expr_object_eq_ofValue hlookup]
      apply Built.object
      · intro key
        rw [hlookup key, Option.isSome_map]
      · intro key v e hmember hentry
        rw [hlookup key, hmember] at hentry
        obtain rfl := Option.some.inj hentry
        exact ih (key, v) ((Entries.mem_toList_iff members).2 hmember)

/-- **Building and quoting agree.** From every datum something can be built, piece by piece, and
whatever is built from it is the expression that quotes it. -/
theorem built_iff (v : Value) (e : Expr) : Built v e ↔ e = ofValue v := by
  constructor
  · exact Built.eq_ofValue
  · rintro rfl
    exact built_ofValue v

/-- The members stand in another order than their keys, and one is listed twice. -/
example :
    (Form.object [("b", ofLong 1), ("a", (Form.object []).expr), ("b", list [null])]).expr =
      ofValue (.ofMembers [("a", .ofMembers []), ("b", .array [.null])]) := by
  decide

end DocQuery.Expr
