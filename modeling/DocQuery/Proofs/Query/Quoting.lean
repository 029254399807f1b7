import DocQuery.Proofs.Value.RoundTrip
import DocQuery.Query.Expr

/-!
# Quoted data is read back

An expression is read as data when each object in it is quoted, which is to say that it stands as the
only argument of the call `object`; any other object is a call (`Expr.unquote?`, `Expr.HasCall`).
The expressions that are read as a datum are the one that quotes it and no other
(`Expr.unquote?_eq_some_iff`), whatever the keys of its objects are, and this survives being written
and read where doubles and timestamps do (`Expr.quote_exact`, `Expr.not_quote_wire`).
-/

set_option autoImplicit false

namespace DocQuery.Expr

open Value (Part)

mutual

/-- The datum that an expression denotes, if no object in it is a call. The query of a set is left as
it is. -/
def unquote? : Value → Option Value
  | .object (.cons key _ (.object members) .nil) =>
      if key = "object" then (unquoteMembers? members).map .object else none
  | .object _ => none
  | .array items => (unquoteItems? items).map .array
  | v => some v

/-- The data that the items of a list denote. -/
def unquoteItems? : List Value → Option (List Value)
  | [] => some []
  | item :: items => do
      let v ← unquote? item
      let vs ← unquoteItems? items
      return v :: vs

/-- The data that members denote. -/
def unquoteMembers? : {bound : Option String} → Entries Value bound → Option (Entries Value bound)
  | _, .nil => some .nil
  | _, .cons key above member members => do
      let v ← unquote? member
      let vs ← unquoteMembers? members
      return .cons key above v vs

end

/-- The object that quotes members. -/
def quoted (members : Dict Value) : Value := .object (Dict.single "object" (.object members))

/-- The expression holds a call: an object that does not quote members, among the items of lists and
the quoted members. -/
inductive HasCall : Value → Prop where
  | call {members : Dict Value} (ne : ∀ inner, .object members ≠ quoted inner) :
      HasCall (.object members)
  | item {items : List Value} {v : Value} (mem : v ∈ items) (part : HasCall v) :
      HasCall (.array items)
  | member {members : Dict Value} {entry : String × Value} (mem : entry ∈ Entries.toList members)
      (part : HasCall entry.2) : HasCall (quoted members)

/-! ## Objects -/

theorem unquote?_quoted (members : Dict Value) :
    unquote? (quoted members) = (unquoteMembers? members).map .object :=
  rfl

/-- Any other object is a call. -/
theorem unquote?_of_ne_quoted :
    {members : Dict Value} → (∀ inner, .object members ≠ quoted inner) →
      unquote? (.object members) = none
  | .nil, _ => rfl
  | .cons _ _ payload (.cons _ _ _ _), _ => by cases payload <;> rfl
  | .cons key above payload .nil, h => by
      cases payload with
      | object inner =>
          refine if_neg ?_
          rintro rfl
          exact h inner rfl
      | _ => rfl

/-- An object quotes members or is a call. -/
theorem quoted_or_ne (members : Dict Value) :
    (∃ inner, .object members = quoted inner) ∨ ∀ inner, .object members ≠ quoted inner := by
  by_cases h : ∃ inner, .object members = quoted inner
  · exact .inl h
  · exact .inr fun inner heq => h ⟨inner, heq⟩

/-! ## The quoted data of an expression -/

mutual

/-- What is quoted is read back. -/
theorem unquote?_quote : (v : Value) → unquote? (quote v) = some v
  | .object members => by
      rw [quote]
      show unquote? (quoted _) = _
      rw [unquote?_quoted, unquoteMembers?_quoteMembers members]
      rfl
  | .array items => by
      rw [quote, unquote?, unquoteItems?_quoteItems items]
      rfl
  | .null | .boolean _ | .long _ | .double _ | .string _ | .ref _ | .timestamp _ | .date _
  | .set _ => rfl

theorem unquoteItems?_quoteItems : (items : List Value) →
    unquoteItems? (quoteItems items) = some items
  | [] => rfl
  | item :: items => by
      rw [quoteItems, unquoteItems?, unquote?_quote item, unquoteItems?_quoteItems items]
      rfl

theorem unquoteMembers?_quoteMembers : {bound : Option String} → (members : Entries Value bound) →
    unquoteMembers? (quoteMembers members) = some members
  | _, .nil => rfl
  | _, .cons key above member members => by
      rw [quoteMembers, unquoteMembers?, unquote?_quote member,
        unquoteMembers?_quoteMembers members]
      rfl

end

mutual

/-- An expression that is read as a datum quotes it. -/
theorem eq_quote_of_unquote? : (e : Value) → {v : Value} → unquote? e = some v → e = quote v
  | .object members, v, h => by
      rcases quoted_or_ne members with ⟨inner, heq⟩ | hne
      · rw [heq, unquote?_quoted] at h
        obtain ⟨inner', hinner, rfl⟩ := Option.map_eq_some_iff.1 h
        cases heq
        rw [quote, ← eq_quoteMembers_of_unquoteMembers? inner hinner]
      · rw [unquote?_of_ne_quoted hne] at h
        cases h
  | .array items, v, h => by
      obtain ⟨items', hitems, rfl⟩ := Option.map_eq_some_iff.1 h
      rw [quote, ← eq_quoteItems_of_unquoteItems? items hitems]
  | .null, _, rfl | .boolean _, _, rfl | .long _, _, rfl | .double _, _, rfl | .string _, _, rfl
  | .ref _, _, rfl | .timestamp _, _, rfl | .date _, _, rfl | .set _, _, rfl => rfl

theorem eq_quoteItems_of_unquoteItems? : (items : List Value) → {vs : List Value} →
    unquoteItems? items = some vs → items = quoteItems vs
  | [], _, rfl => rfl
  | item :: items, vs, h => by
      rw [unquoteItems?] at h
      obtain ⟨v, hv, h⟩ := Option.bind_eq_some_iff.1 h
      obtain ⟨vs', hvs, h⟩ := Option.bind_eq_some_iff.1 h
      cases h
      rw [quoteItems, ← eq_quote_of_unquote? item hv, ← eq_quoteItems_of_unquoteItems? items hvs]

theorem eq_quoteMembers_of_unquoteMembers? : {bound : Option String} →
    (members : Entries Value bound) → {vs : Entries Value bound} →
    unquoteMembers? members = some vs → members = quoteMembers vs
  | _, .nil, _, h => by
      cases h
      rfl
  | _, .cons key above member members, vs, h => by
      rw [unquoteMembers?] at h
      obtain ⟨v, hv, h⟩ := Option.bind_eq_some_iff.1 h
      obtain ⟨vs', hvs, h⟩ := Option.bind_eq_some_iff.1 h
      cases h
      rw [quoteMembers, ← eq_quote_of_unquote? member hv,
        ← eq_quoteMembers_of_unquoteMembers? members hvs]

end

/-- The expression that is read as a datum is the one that quotes it. -/
theorem unquote?_eq_some_iff {e v : Value} : unquote? e = some v ↔ e = quote v := by
  constructor
  · exact eq_quote_of_unquote? e
  · rintro rfl
    exact unquote?_quote v

/-! ## Calls -/

/-- Items denote data when each of them does. -/
theorem unquoteItems?_cons_eq_none_iff {item : Value} {items : List Value} :
    unquoteItems? (item :: items) = none ↔ unquote? item = none ∨ unquoteItems? items = none := by
  rw [unquoteItems?]
  cases unquote? item <;> cases unquoteItems? items <;> simp

theorem unquoteMembers?_cons_eq_none_iff {bound : Option String} {key : String}
    {above : Above bound key} {member : Value} {members : Entries Value (some key)} :
    unquoteMembers? (.cons key above member members) = none ↔
      unquote? member = none ∨ unquoteMembers? members = none := by
  rw [unquoteMembers?]
  cases unquote? member <;> cases unquoteMembers? members <;> simp

theorem unquoteItems?_eq_none_of_mem {items : List Value} {item : Value} (hmem : item ∈ items)
    (h : unquote? item = none) : unquoteItems? items = none := by
  induction items with
  | nil => cases hmem
  | cons first items ih =>
      rw [unquoteItems?_cons_eq_none_iff]
      rcases List.mem_cons.1 hmem with rfl | htail
      · exact .inl h
      · exact .inr (ih htail)

theorem unquoteMembers?_eq_none_of_mem : {bound : Option String} →
    (members : Entries Value bound) → {entry : String × Value} → entry ∈ members.toList →
    unquote? entry.2 = none → unquoteMembers? members = none
  | _, .nil, _, hmem, _ => absurd hmem List.not_mem_nil
  | _, .cons key above member members, entry, hmem, h => by
      rw [unquoteMembers?_cons_eq_none_iff]
      rw [Entries.toList] at hmem
      rcases List.mem_cons.1 hmem with rfl | htail
      · exact .inl h
      · exact .inr (unquoteMembers?_eq_none_of_mem members htail h)

/-- An expression with a call denotes no datum. -/
theorem HasCall.unquote?_eq_none {e : Value} (h : HasCall e) : unquote? e = none := by
  induction h with
  | call ne => exact unquote?_of_ne_quoted ne
  | item mem _ ih =>
      rw [unquote?, unquoteItems?_eq_none_of_mem mem ih]
      rfl
  | member mem _ ih =>
      rw [unquote?_quoted, unquoteMembers?_eq_none_of_mem _ mem ih]
      rfl

theorem sizeOf_lt_of_eq_quoted {members inner : Dict Value}
    (h : .object members = quoted inner) : sizeOf inner < sizeOf (Value.object members) := by
  rw [h, quoted, Dict.single, Value.object.sizeOf_spec, Entries.cons.sizeOf_spec,
    Value.object.sizeOf_spec]
  omega

mutual

/-- An expression that denotes no datum holds a call. -/
theorem hasCall_of_unquote? : (e : Value) → unquote? e = none → HasCall e
  | .object members, h => by
      rcases quoted_or_ne members with ⟨inner, heq⟩ | hne
      · rw [heq, unquote?_quoted] at h
        obtain ⟨entry, hmem, hcall⟩ := exists_member_hasCall inner (Option.map_eq_none_iff.1 h)
        rw [heq]
        exact .member hmem hcall
      · exact .call hne
  | .array items, h => by
      rw [unquote?] at h
      obtain ⟨item, hmem, hcall⟩ := exists_item_hasCall items (Option.map_eq_none_iff.1 h)
      exact .item hmem hcall
  | .null, h | .boolean _, h | .long _, h | .double _, h | .string _, h | .ref _, h
  | .timestamp _, h | .date _, h | .set _, h => nomatch h
  termination_by e => sizeOf e
  decreasing_by
    · exact sizeOf_lt_of_eq_quoted heq
    · decreasing_tactic

theorem exists_item_hasCall : (items : List Value) → unquoteItems? items = none →
    ∃ item ∈ items, HasCall item
  | [], h => nomatch h
  | item :: items, h => by
      rcases unquoteItems?_cons_eq_none_iff.1 h with hitem | hitems
      · exact ⟨item, List.mem_cons_self, hasCall_of_unquote? item hitem⟩
      · obtain ⟨i, hmem, hcall⟩ := exists_item_hasCall items hitems
        exact ⟨i, List.mem_cons_of_mem item hmem, hcall⟩
  termination_by items => sizeOf items

theorem exists_member_hasCall : {bound : Option String} → (members : Entries Value bound) →
    unquoteMembers? members = none → ∃ entry ∈ members.toList, HasCall entry.2
  | _, .nil, h => nomatch h
  | _, .cons key above member members, h => by
      rw [Entries.toList]
      rcases unquoteMembers?_cons_eq_none_iff.1 h with hmember | hmembers
      · exact ⟨(key, member), List.mem_cons_self, hasCall_of_unquote? member hmember⟩
      · obtain ⟨entry, hmem, hcall⟩ := exists_member_hasCall members hmembers
        exact ⟨entry, List.mem_cons_of_mem _ hmem, hcall⟩
  termination_by _ members => sizeOf members

end

/-- Just the expressions that hold a call denote no datum. -/
theorem unquote?_eq_none_iff {e : Value} : unquote? e = none ↔ HasCall e :=
  ⟨hasCall_of_unquote? e, HasCall.unquote?_eq_none⟩

/-! ## Quoted data on the wire -/

mutual

/-- Quoting adds objects only: whatever else is part of quoted data is part of the data. -/
theorem part_of_part_quote {p : Value} (hobject : ∀ members, p ≠ .object members)
    (harray : ∀ items, p ≠ .array items) : (v : Value) → Part p (quote v) → Part p v
  | .object members, h => by
      rw [quote] at h
      cases h with
      | whole => exact absurd rfl (hobject _)
      | member mem part =>
          obtain rfl := List.mem_singleton.1 mem
          cases part with
          | whole => exact absurd rfl (hobject _)
          | member mem part =>
              obtain ⟨entry, hmem, hpart⟩ := part_of_mem_quoteMembers hobject harray members mem part
              exact .member hmem hpart
  | .array items, h => by
      rw [quote] at h
      cases h with
      | whole => exact absurd rfl (harray _)
      | item mem part =>
          obtain ⟨item, hmem, hpart⟩ := part_of_mem_quoteItems hobject harray items mem part
          exact .item hmem hpart
  | .null, h | .boolean _, h | .long _, h | .double _, h | .string _, h | .ref _, h
  | .timestamp _, h | .date _, h | .set _, h => h

theorem part_of_mem_quoteItems {p : Value} (hobject : ∀ members, p ≠ .object members)
    (harray : ∀ items, p ≠ .array items) : (items : List Value) → {x : Value} →
    x ∈ quoteItems items → Part p x → ∃ item ∈ items, Part p item
  | item :: items, x, hmem, part => by
      rw [quoteItems] at hmem
      rcases List.mem_cons.1 hmem with rfl | htail
      · exact ⟨item, List.mem_cons_self, part_of_part_quote hobject harray item part⟩
      · obtain ⟨i, hi, hpart⟩ := part_of_mem_quoteItems hobject harray items htail part
        exact ⟨i, List.mem_cons_of_mem item hi, hpart⟩

theorem part_of_mem_quoteMembers {p : Value} (hobject : ∀ members, p ≠ .object members)
    (harray : ∀ items, p ≠ .array items) : {bound : Option String} →
    (members : Entries Value bound) → {entry : String × Value} →
    entry ∈ (quoteMembers members).toList → Part p entry.2 →
    ∃ entry ∈ members.toList, Part p entry.2
  | _, .cons key above member members, entry, hmem, part => by
      rw [quoteMembers, Entries.toList] at hmem
      rw [Entries.toList]
      rcases List.mem_cons.1 hmem with rfl | htail
      · exact ⟨(key, member), List.mem_cons_self, part_of_part_quote hobject harray member part⟩
      · obtain ⟨e, he, hpart⟩ := part_of_mem_quoteMembers hobject harray members htail part
        exact ⟨e, List.mem_cons_of_mem _ he, hpart⟩

end

theorem part_double_of_quote {d : Binary64} {v : Value} (part : Part (.double d) (quote v)) :
    Part (.double d) v :=
  part_of_part_quote (fun _ => Value.noConfusion) (fun _ => Value.noConfusion) v part

theorem part_timestamp_of_quote {t : Timestamp} {v : Value}
    (part : Part (.timestamp t) (quote v)) : Part (.timestamp t) v :=
  part_of_part_quote (fun _ => Value.noConfusion) (fun _ => Value.noConfusion) v part

/-- Quoted data with a wire form is read back as it was, under every limit that leaves room for it,
where its doubles and timestamps are read back. -/
theorem parseWith_quote {v : Value} (hfinite : v.AllFinite) (hback : v.DoublesReadBack)
    (htimes : v.TimestampsReadBack) {limit : Nat} (hlimit : (quote v).wireDepth ≤ limit) :
    Value.parseWith limit (quote v).text = .ok (quote v) := by
  have hfinite' : (quote v).AllFinite := fun d part => hfinite d (part_double_of_quote part)
  have hback' : (quote v).DoublesReadBack := fun d part => hback d (part_double_of_quote part)
  have htimes' : (quote v).TimestampsReadBack := fun t part =>
    htimes t (part_timestamp_of_quote part)
  rw [Value.parseWith_text hfinite' hback' htimes', if_pos hlimit]

/-- **Data survives quoting.** The expression of a datum is read as that datum and holds no call, and
no other expression is read so; data with the same expression are the same; and when the datum has a
wire form whose doubles and timestamps are read back, the text of its expression is read, under every
limit that leaves room for it, as an expression that denotes the datum. -/
theorem quote_exact :
    (∀ v, unquote? (ofValue v).value = some v ∧ ¬ HasCall (ofValue v).value) ∧
      (∀ e v, unquote? e = some v ↔ e = (ofValue v).value) ∧
      (∀ e, unquote? e = none ↔ HasCall e) ∧
      Function.Injective ofValue ∧
      ∀ v : Value, v.AllFinite → v.InFourDigitYears → v.LeapsEndMinutes → v.DoublesReadBack →
        ∀ limit, (ofValue v).value.wireDepth ≤ limit →
          ∃ e, Value.parseWith limit (ofValue v).value.text = .ok e ∧ unquote? e = some v := by
  refine ⟨fun v => ⟨unquote?_quote v, fun hcall => ?_⟩, fun e v => unquote?_eq_some_iff,
    fun e => unquote?_eq_none_iff, fun v w h => ?_, ?_⟩
  · have hnone := hcall.unquote?_eq_none
    rw [ofValue, unquote?_quote] at hnone
    cases hnone
  · have hread : unquote? (ofValue v).value = some w := by
      rw [h]
      exact unquote?_quote w
    rw [ofValue, unquote?_quote] at hread
    exact Option.some.inj hread
  · intro v hfinite hyears hleaps hback limit hlimit
    have htimes := Value.timestampsReadBack_iff.2 ⟨hyears, hleaps⟩
    exact ⟨quote v, parseWith_quote hfinite hback htimes hlimit, unquote?_quote v⟩

/-- Data that looks like the quoted form of a call, with a set whose query looks like a timestamp, and
with a leap second and a double. -/
def masquerade : Value :=
  .object (Dict.single "object" (.object (Dict.single "get" (.array
    [.set (.object (Dict.single "@ts" .null)), .timestamp Value.leapSecond,
      .double Binary64.half]))))

theorem part_masquerade {p : Value} (part : Part p masquerade) :
    (∀ d, p = .double d → d = Binary64.half) ∧ ∀ t, p = .timestamp t → t = Value.leapSecond := by
  cases part with
  | whole => exact ⟨by rintro d ⟨⟩, by rintro t ⟨⟩⟩
  | member mem part =>
      obtain rfl := List.mem_singleton.1 mem
      cases part with
      | whole => exact ⟨by rintro d ⟨⟩, by rintro t ⟨⟩⟩
      | member mem part =>
          obtain rfl := List.mem_singleton.1 mem
          cases part with
          | whole => exact ⟨by rintro d ⟨⟩, by rintro t ⟨⟩⟩
          | item mem part =>
              rcases List.mem_cons.1 mem with rfl | mem
              · -- nothing in the query of the set is a double or a timestamp
                cases part with
                | whole => exact ⟨by rintro d ⟨⟩, by rintro t ⟨⟩⟩
                | query part =>
                    cases part with
                    | whole => exact ⟨by rintro d ⟨⟩, by rintro t ⟨⟩⟩
                    | member mem part =>
                        obtain rfl := List.mem_singleton.1 mem
                        cases part
                        exact ⟨by rintro d ⟨⟩, by rintro t ⟨⟩⟩
              · rcases List.mem_pair.1 mem with rfl | rfl
                · cases part
                  exact ⟨by rintro d ⟨⟩, by rintro t ⟨⟩; rfl⟩
                · cases part
                  exact ⟨by rintro d ⟨⟩; rfl, by rintro t ⟨⟩⟩

theorem quote_exact_masquerade :
    masquerade.AllFinite ∧ masquerade.InFourDigitYears ∧ masquerade.LeapsEndMinutes ∧
      masquerade.DoublesReadBack ∧ (ofValue masquerade).value.wireDepth ≤ 8 ∧
      ∃ e, Value.parseWith 8 (ofValue masquerade).value.text = .ok e ∧
        unquote? e = some masquerade := by
  have hfinite : masquerade.AllFinite := by
    intro d part
    rw [(part_masquerade part).1 d rfl]
    decide
  have hyears : masquerade.InFourDigitYears := by
    intro t part
    rw [(part_masquerade part).2 t rfl]
    decide
  have hleaps : masquerade.LeapsEndMinutes := by
    intro t part
    rw [(part_masquerade part).2 t rfl]
    decide
  have hback : masquerade.DoublesReadBack := by
    intro d part
    rw [(part_masquerade part).1 d rfl]
    exact Binary64.readsBack_half
  have hdepth : (ofValue masquerade).value.wireDepth ≤ 8 := by decide
  refine ⟨hfinite, hyears, hleaps, hback, hdepth, ?_⟩
  exact quote_exact.2.2.2.2 masquerade hfinite hyears hleaps hback 8 hdepth

/-- A leap second within a minute and a double that is not read back do not survive being written
inside an expression either. -/
theorem not_quote_wire :
    (¬ ∀ v : Value, v.AllFinite → v.InFourDigitYears → v.DoublesReadBack →
      ∀ limit, (ofValue v).value.wireDepth ≤ limit →
        ∃ e, Value.parseWith limit (ofValue v).value.text = .ok e ∧ unquote? e = some v) ∧
    ¬ ∀ v : Value, v.AllFinite → v.InFourDigitYears → v.LeapsEndMinutes →
      ∀ limit, (ofValue v).value.wireDepth ≤ limit →
        ∃ e, Value.parseWith limit (ofValue v).value.text = .ok e ∧ unquote? e = some v := by
  constructor
  · intro hall
    have hyears : (Value.timestamp Value.earlyLeap).InFourDigitYears := by
      rintro t ⟨⟩
      decide
    -- a timestamp is quoted as it is
    obtain ⟨e, he, hunquote⟩ := hall (.timestamp Value.earlyLeap) (by rintro d ⟨⟩) hyears
      (by rintro d ⟨⟩) 1 (Nat.le_refl 1)
    rw [unquote?_eq_some_iff] at hunquote
    rw [hunquote] at he
    exact Value.parseWith_earlyLeap_ne 1 he
  · intro hall
    have hfinite : (Value.double Binary64.misread).AllFinite := by
      rintro d ⟨⟩
      decide
    obtain ⟨e, he, hunquote⟩ := hall (.double Binary64.misread) hfinite (by rintro t ⟨⟩)
      (by rintro t ⟨⟩) 0 (Nat.le_refl 0)
    rw [unquote?_eq_some_iff] at hunquote
    rw [hunquote] at he
    have hread := Value.parseWith_misread 0
    cases hread.symm.trans he

end DocQuery.Expr
