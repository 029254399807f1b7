import DocQuery.Proofs.Shape.Matching
import DocQuery.Response
import Mathlib.Data.List.Forall2

/-!
# Decoding by shape is exact

Values agree for a shape when they differ only where the shape does not look: in the members of an
object that no field of a record names, and inside a value of a kind that is a mismatch anyway
(`Shape.Agrees`). Decoding cannot tell such values apart (`Shape.decode_eq_of_agrees`). With that,
decoding is described completely (`Shape.decode_exact`): what it accepts, what it reports otherwise,
and what it passes over.
-/

set_option autoImplicit false

namespace DocQuery

/-- The values are of one kind, which is not among those that are read. -/
def Unread (reads : Kind → Prop) (v w : Value) : Prop :=
  v.kind = w.kind ∧ ¬ reads v.kind

mutual

/-- The values differ only where a shape does not look. -/
def Shape.Agrees : Shape → Value → Value → Prop
  | .string, v, w => v = w ∨ Unread (· = .string) v w
  | .boolean, v, w => v = w ∨ Unread (· = .boolean) v w
  | .int32, v, w => v = w ∨ Unread (· = .long) v w
  | .long, v, w => v = w ∨ Unread (· = .long) v w
  | .double, v, w => v = w ∨ Unread (fun kind => kind = .double ∨ kind = .long) v w
  | .ref, v, w => v = w ∨ Unread (· = .ref) v w
  | .timestamp, v, w => v = w ∨ Unread (· = .timestamp) v w
  | .date, v, w => v = w ∨ Unread (· = .date) v w
  | .value, v, w => v = w
  | .set, v, w => v = w ∨ Unread (· = .set) v w
  | .option content, v, w => content.Agrees v w
  | .list item, v, w =>
      Unread (· = .array) v w ∨
        ∃ a b, v = .array a ∧ w = .array b ∧ List.Forall₂ item.Agrees a b
  | .map member, v, w =>
      Unread (· = .object) v w ∨
        ∃ a b : Dict Value, v = .object a ∧ w = .object b ∧
          ∀ key, Option.Rel member.Agrees (a.find? key) (b.find? key)
  | .record _ fields, v, w =>
      Unread (· = .object) v w ∨
        ∃ a b : Dict Value, v = .object a ∧ w = .object b ∧ fields.Agree a b

/-- The members of two objects agree under the keys of the fields. -/
def Fields.Agree : Fields → Dict Value → Dict Value → Prop
  | .nil, _, _ => True
  | .cons key shape rest, a, b =>
      Option.Rel shape.Agrees (a.find? key) (b.find? key) ∧ rest.Agree a b

end

/-! ## Differences that do not count -/

/-- A value agrees with itself, or is not read at all. -/
theorem unread_or_wrap {α : Type} {kind : Kind} {wrap : α → Value} {r : α → α → Prop}
    (hkind : ∀ v, v.kind = kind ↔ ∃ x, v = wrap x) (hr : ∀ x, r x x) (v : Value) :
    Unread (· = kind) v v ∨ ∃ a b, v = wrap a ∧ v = wrap b ∧ r a b := by
  by_cases hv : v.kind = kind
  · obtain ⟨x, hx⟩ := (hkind v).1 hv
    exact .inr ⟨x, x, hx, hx, hr x⟩
  · exact .inl ⟨rfl, hv⟩

theorem rel_refl {r : Value → Value → Prop} (hr : ∀ x, r x x) :
    (x : Option Value) → Option.Rel r x x
  | some x => .some (hr x)
  | none => .none

mutual

theorem Shape.agrees_refl : (shape : Shape) → (v : Value) → shape.Agrees v v
  | .string, _ | .boolean, _ | .int32, _ | .long, _ | .double, _ | .ref, _ | .timestamp, _
  | .date, _ | .set, _ => .inl rfl
  | .value, _ => rfl
  | .option content, v => Shape.agrees_refl content v
  | .list item, v =>
      unread_or_wrap kind_eq_array_iff (fun items => by
        rw [List.forall₂_same]
        exact fun x _ => Shape.agrees_refl item x) v
  | .map member, v =>
      unread_or_wrap kind_eq_object_iff
        (fun members key => rel_refl (Shape.agrees_refl member) (members.find? key)) v
  | .record _ fields, v => unread_or_wrap kind_eq_object_iff (Fields.agree_refl fields) v

theorem Fields.agree_refl : (fields : Fields) → (members : Dict Value) →
    fields.Agree members members
  | .nil, _ => trivial
  | .cons key shape rest, members =>
      ⟨rel_refl (Shape.agrees_refl shape) (members.find? key), Fields.agree_refl rest members⟩

end

/-- Members under keys that no field has may be added, removed and changed. -/
theorem Fields.agree_of_find?_eq (fields : Fields) {a b : Dict Value}
    (h : ∀ key ∈ fields.keys, a.find? key = b.find? key) : fields.Agree a b := by
  match fields with
  | .nil => exact trivial
  | .cons key shape rest =>
      have hkey : a.find? key = b.find? key := h key List.mem_cons_self
      refine ⟨?_, Fields.agree_of_find?_eq rest fun k hk => h k (List.mem_cons_of_mem _ hk)⟩
      rw [hkey]
      exact rel_refl (Shape.agrees_refl shape) (b.find? key)

/-- Agreeing values are of one kind. -/
theorem Shape.Agrees.kind_eq : (shape : Shape) → {v w : Value} → shape.Agrees v w →
    v.kind = w.kind
  | .string, _, _, h | .boolean, _, _, h | .int32, _, _, h | .long, _, _, h | .double, _, _, h
  | .ref, _, _, h | .timestamp, _, _, h | .date, _, _, h | .set, _, _, h =>
      h.elim (congrArg Value.kind) And.left
  | .value, _, _, h => congrArg Value.kind h
  | .option content, _, _, h => Shape.Agrees.kind_eq content h
  | .list _, _, _, h | .map _, _, _, h | .record _ _, _, _, h => by
      rcases h with h | ⟨a, b, rfl, rfl, -⟩
      · exact h.1
      · rfl

/-! ## Decoding does not look there -/

/-- What is read of a value of one of its kinds is the same for the same value, and a value of
another kind is only named by its kind. -/
theorem expect_congr {α : Type} {kind : Kind} {payload? : Value → Option α} {reads : Kind → Prop}
    (hreads : ∀ v, (∃ x, payload? v = some x) → reads v.kind) {v w : Value}
    (h : v = w ∨ Unread reads v w) :
    Codec.expect kind payload? v = Codec.expect kind payload? w := by
  rcases h with rfl | ⟨hkind, hv⟩
  · rfl
  · -- neither value has a payload, and the mismatch names the kind that they share
    have hnone (u : Value) (hu : ¬ reads u.kind) : payload? u = none := by
      refine Option.eq_none_iff_forall_ne_some.2 fun x hx => ?_
      exact hu (hreads u ⟨x, hx⟩)
    rw [hkind] at hv
    rw [Codec.expect, Codec.expect, hnone v (hkind ▸ hv), hnone w hv, hkind]

/-- A container is decoded from its parts only. -/
theorem bind_congr_of_agrees {α β : Type} {kind : Kind} {payload? : Value → Option α}
    {wrap : α → Value} {decode : α → Except FieldError β} {r : α → α → Prop}
    (hkind : ∀ v, v.kind = kind ↔ ∃ x, v = wrap x)
    (hpayload : ∀ v x, payload? v = some x ↔ v = wrap x)
    (hdecode : ∀ {a b}, r a b → decode a = decode b) {v w : Value}
    (h : Unread (· = kind) v w ∨ ∃ a b, v = wrap a ∧ w = wrap b ∧ r a b) :
    Codec.expect kind payload? v >>= decode = Codec.expect kind payload? w >>= decode := by
  rcases h with h | ⟨a, b, rfl, rfl, hab⟩
  · -- no container at all, on both sides
    have hreads (u : Value) : (∃ x, payload? u = some x) → u.kind = kind := by
      rintro ⟨x, hx⟩
      exact (hkind u).2 ⟨x, (hpayload u x).1 hx⟩
    rw [expect_congr hreads (.inr h)]
  · have hexpect (x : α) : Codec.expect kind payload? (wrap x) = .ok x := by
      rw [Codec.expect, (hpayload (wrap x) x).2 rfl]
    rw [hexpect, hexpect]
    exact hdecode hab

theorem decodeItems_congr {α : Type} (label : Nat → Path) {decode : Value → Except FieldError α}
    {a b : List Value} (h : List.Forall₂ (fun x y => decode x = decode y) a b) (position : Nat) :
    decodeItems label decode position a = decodeItems label decode position b := by
  induction h generalizing position with
  | nil => rfl
  | cons hx _ ih => rw [decodeItems, decodeItems, hx, ih]

/-- Decoded members, joined. -/
def joinMembers {α : Type} : {bound : Option String} → Entries (Except FieldError α) bound →
    Except (List (Path × FieldError)) (Entries α bound)
  | _, .nil => .ok .nil
  | _, .cons key above result results =>
      gather [.key key] (Entries.cons key above) result (joinMembers results)

theorem decodeMembers_eq_join {α : Type} (decode : Value → Except FieldError α) :
    {bound : Option String} → (members : Entries Value bound) →
      decodeMembers decode members = joinMembers (members.map decode)
  | _, .nil => rfl
  | _, .cons key above v members => by
      rw [decodeMembers, Entries.map, joinMembers, decodeMembers_eq_join decode members]

theorem map_eq_of_rel {α : Type} {f : Value → α} {x y : Option Value}
    (h : Option.Rel (fun v w => f v = f w) x y) : x.map f = y.map f := by
  cases h with
  | some hvw => exact congrArg some hvw
  | none => rfl

theorem decodeMembers_congr {α : Type} {decode : Value → Except FieldError α} {a b : Dict Value}
    (h : ∀ key, Option.Rel (fun x y => decode x = decode y) (a.find? key) (b.find? key)) :
    decodeMembers decode a = decodeMembers decode b := by
  -- the decoded members are the same dictionary, and only they are joined
  have hmap : a.map decode = b.map decode := by
    refine Entries.eq_of_find? _ _ fun key => ?_
    rw [Entries.find?_map, Entries.find?_map]
    exact map_eq_of_rel (h key)
  rw [decodeMembers_eq_join, decodeMembers_eq_join, hmap]

theorem rel_imp {r s : Value → Value → Prop} (h : ∀ {v w}, r v w → s v w) {x y : Option Value} :
    Option.Rel r x y → Option.Rel s x y
  | .some hvw => .some (h hvw)
  | .none => .none

/-- A member is decoded when there is one. -/
theorem member_congr {shape : Shape} (missing : Except FieldError shape.Data)
    {x y : Option Value} :
    Option.Rel (fun v w => shape.decode v = shape.decode w) x y →
      (match x with
        | some v => shape.decode v
        | none => missing) =
      (match y with
        | some w => shape.decode w
        | none => missing)
  | .some hvw => hvw
  | .none => rfl

theorem isNull_iff_kind (v : Value) : v.isNull = true ↔ v.kind = .null := by
  cases v <;> simp [Value.isNull, Value.kind]

mutual

/-- Values that differ only where a shape does not look are decoded alike. -/
theorem Shape.decode_eq_of_agrees : (shape : Shape) → {v w : Value} → shape.Agrees v w →
    shape.decode v = shape.decode w
  | .string, _, _, h => expect_congr (fun v => (exists_asString?_iff v).1) h
  | .boolean, _, _, h => expect_congr (fun v => (exists_asBoolean?_iff v).1) h
  | .int32, v, w, h => by
      have hlong : Codec.long.decode v = Codec.long.decode w :=
        expect_congr (fun v => (exists_asLong?_iff v).1) h
      rw [Shape.decode, Shape.decode, decodeInt32, decodeInt32, hlong]
  | .long, _, _, h => expect_congr (fun v => (exists_asLong?_iff v).1) h
  | .double, _, _, h => expect_congr (fun v => (exists_asDouble?_iff v).1) h
  | .ref, _, _, h => expect_congr (fun v => (exists_asRef?_iff v).1) h
  | .timestamp, _, _, h => expect_congr (fun v => (exists_asTimestamp?_iff v).1) h
  | .date, _, _, h => expect_congr (fun v => (exists_asDate?_iff v).1) h
  | .value, _, _, h => congrArg Except.ok h
  | .set, v, w, h => by
      have hreads (u : Value) : (∃ query, u.asSet? = some query) → u.kind = .set := by
        rintro ⟨query, hquery⟩
        exact (kind_eq_set_iff u).2 ⟨query, (asSet?_eq_some_iff u query).1 hquery⟩
      have hquery : Codec.setQuery.decode v = Codec.setQuery.decode w := expect_congr hreads h
      rw [Shape.decode, Shape.decode, decodeSet, decodeSet, hquery]
  | .option content, v, w, h => by
      have hcontent := Shape.decode_eq_of_agrees content h
      -- null is told by the kind alone
      have hnull : v.isNull = true ↔ w.isNull = true := by
        rw [isNull_iff_kind, isNull_iff_kind, Shape.Agrees.kind_eq content h]
      rw [Shape.decode, Shape.decode, hcontent]
      exact if_congr hnull rfl rfl
  | .list item, _, _, h => by
      refine bind_congr_of_agrees kind_eq_array_iff asArray?_eq_some_iff (fun hitems => ?_) h
      have hitems' := hitems.imp fun _ _ => Shape.decode_eq_of_agrees item
      rw [decodeItems_congr _ hitems']
  | .map member, _, _, h => by
      refine bind_congr_of_agrees kind_eq_object_iff asObject?_eq_some_iff (fun hmembers => ?_) h
      have hmembers' (key : String) := rel_imp (Shape.decode_eq_of_agrees member) (hmembers key)
      rw [decodeMembers_congr hmembers']
  | .record _ fields, _, _, h => by
      refine bind_congr_of_agrees kind_eq_object_iff asObject?_eq_some_iff (fun hmembers => ?_) h
      rw [Fields.decode_eq_of_agree fields hmembers]

theorem Fields.decode_eq_of_agree : (fields : Fields) → {a b : Dict Value} → fields.Agree a b →
    fields.decode a = fields.decode b
  | .nil, _, _, _ => rfl
  | .cons key shape rest, a, b, h => by
      have hmember := rel_imp (Shape.decode_eq_of_agrees shape) h.1
      exact congrArg₂ (gather key Prod.mk) (member_congr _ hmember)
        (Fields.decode_eq_of_agree rest h.2)

end

/-! ## The whole of decoding -/

/-- **Decoding by shape is exact.** It has data exactly for the values that match at every position;
otherwise it reports the failure that explains every position that does not match, and no other;
and members that no record names play no part in either. -/
theorem Shape.decode_exact (shape : Shape) (hkeys : shape.DistinctKeys) (v : Value) :
    ((∃ x, shape.decode v = .ok x) ↔ shape.Matches v) ∧
      (∀ e, shape.decode v = .error e ↔ shape.Explains v e) ∧
        ∀ w, shape.Agrees v w → shape.decode w = shape.decode v := by
  obtain ⟨hok, herror⟩ := Shape.decides_decode shape hkeys v
  refine ⟨hok, herror, fun w hw => ?_⟩
  exact (Shape.decode_eq_of_agrees shape hw).symm

/-- Of three errors, the first lacks its code and the last is a string; a member that errors do not
have changes nothing. -/
theorem Shape.decode_exact_errors :
    let shape := Shape.list Response.apiError
    let complete := Value.ofMembers [("code", .string "c"), ("description", .string "d")]
    let bare := Value.ofMembers [("description", .string "d")]
    let hinted := Value.ofMembers [("description", .string "d"), ("hint", .null)]
    shape.Explains (.array [bare, complete, .string "d"])
        (.collect [([.index 0], .record "ApiError" [("code", .keyNotFound "code")]),
          ([.index 2], .typeMismatch .object .string)]) ∧
      shape.decode (.array [hinted, complete, .string "d"]) =
        shape.decode (.array [bare, complete, .string "d"]) := by
  intro shape complete bare hinted
  have hkeys : shape.DistinctKeys := ⟨by decide, trivial, trivial, trivial, trivial⟩
  obtain ⟨-, hexplains, hagrees⟩ :=
    Shape.decode_exact shape hkeys (.array [bare, complete, .string "d"])
  refine ⟨(hexplains _).1 rfl, hagrees (.array [hinted, complete, .string "d"]) (.inr ?_)⟩
  refine ⟨_, _, rfl, rfl, .cons ?_ (.cons ?_ (.cons ?_ .nil))⟩
  · exact .inr ⟨_, _, rfl, rfl, Fields.agree_of_find?_eq _ (by decide)⟩
  · exact Shape.agrees_refl Response.apiError complete
  · exact Shape.agrees_refl Response.apiError (.string "d")

end DocQuery
