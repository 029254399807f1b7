import DocQuery.Proofs.Shape.Collecting
import DocQuery.Shape.Codec

/-!
# What encoding by shape refuses

Data of a shape has doubles at some of its positions, and they are gone through in the order of the
items of a list, the keys of a dictionary and the fields of a record (`Shape.doubles`). Encoding
refuses exactly the first of them that is infinite or not a number, and nothing else
(`Shape.failure?_encode`).
-/

set_option autoImplicit false

namespace DocQuery

mutual

/-- The doubles of the data, in the order in which they are written. A double inside a value that is
taken as it is does not count. -/
def Shape.doubles : (shape : Shape) → shape.Data → List Binary64
  | .double, d => [d]
  | .option _, none => []
  | .option content, some x => content.doubles x
  | .list item, items => List.flatMap item.doubles items
  | .map member, members => (Entries.toList members).flatMap fun entry => member.doubles entry.2
  | .record _ fields, x => fields.doubles x
  | .string, _ | .boolean, _ | .int32, _ | .long, _ | .ref, _ | .timestamp, _ | .date, _
  | .value, _ | .set, _ => []

/-- The doubles of the data of fields, field by field. -/
def Fields.doubles : (fields : Fields) → fields.Data → List Binary64
  | .nil, _ => []
  | .cons _ shape rest, (x, xs) => shape.doubles x ++ rest.doubles xs

end

/-- The first double that is infinite or not a number. -/
def firstNonFinite? (doubles : List Binary64) : Option Binary64 :=
  doubles.find? fun d => !d.isFinite

theorem firstNonFinite?_append (first second : List Binary64) :
    firstNonFinite? (first ++ second) = (firstNonFinite? first).or (firstNonFinite? second) :=
  List.find?_append

theorem firstNonFinite?_flatMap {α : Type} (doubles : α → List Binary64) (items : List α) :
    firstNonFinite? (items.flatMap doubles) =
      items.findSome? fun x => firstNonFinite? (doubles x) :=
  List.find?_flatMap

theorem firstNonFinite?_isSome_iff {doubles : List Binary64} :
    (∃ d, firstNonFinite? doubles = some d) ↔ ∃ d ∈ doubles, d.isFinite = false := by
  rw [← Option.isSome_iff_exists, firstNonFinite?, List.find?_isSome]
  simp

/-! ## One after another -/

section

variable {ε α β γ : Type}

theorem failure?_map (f : α → β) (result : Except ε α) :
    failure? (result.map f) = failure? result := by
  cases result <;> rfl

/-- The failure of two steps is that of the first one that fails. -/
theorem failure?_bind_bind (first : Except ε α) (second : Except ε β) (combine : α → β → γ) :
    failure? (do
      let a ← first
      let b ← second
      return combine a b) = (failure? first).or (failure? second) := by
  cases first <;> cases second <;> rfl

theorem failure?_encodeItems (encode : α → Except EncodeError Value) (items : List α) :
    failure? (encodeItems encode items) = items.findSome? fun x => failure? (encode x) := by
  induction items with
  | nil => rfl
  | cons item items ih =>
      rw [encodeItems, failure?_bind_bind, ih, List.findSome?_cons]
      cases failure? (encode item) <;> rfl

/-- Items are encoded one by one and in order. -/
theorem encodeItems_eq_ok_iff {encode : α → Except EncodeError Value} {items : List α}
    {vs : List Value} :
    encodeItems encode items = .ok vs ↔ List.Forall₂ (fun x v => encode x = .ok v) items vs := by
  induction items generalizing vs with
  | nil =>
      rw [encodeItems, List.forall₂_nil_left_iff, Except.ok.injEq]
      exact eq_comm
  | cons item items ih =>
      rw [encodeItems, List.forall₂_cons_left_iff]
      constructor
      · intro h
        obtain ⟨w, hw, h⟩ := exists_of_bind_eq_ok h
        obtain ⟨ws, hws, h⟩ := exists_of_bind_eq_ok h
        exact ⟨w, ws, hw, ih.1 hws, (Except.ok.inj h).symm⟩
      · rintro ⟨w, ws, hw, hws, rfl⟩
        rw [hw, ih.2 hws]
        rfl

/-- The refusal is that of the first item that is refused. -/
theorem encodeItems_eq_error_iff {encode : α → Except EncodeError Value} {items : List α}
    {cause : EncodeError} :
    encodeItems encode items = .error cause ↔
      ∃ (position : Nat) (x : α), items[position]? = some x ∧ encode x = .error cause ∧
        ∀ before < position, ∀ y, items[before]? = some y → ∃ v, encode y = .ok v := by
  rw [← failure?_eq_some_iff, failure?_encodeItems, List.findSome?_eq_some_iff]
  constructor
  · rintro ⟨first, x, last, rfl, hx, hfirst⟩
    refine ⟨first.length, x, by simp, failure?_eq_some_iff.1 hx, ?_⟩
    intro before hbefore y hy
    rw [List.getElem?_append_left hbefore] at hy
    have hnone := hfirst y (List.mem_of_getElem? hy)
    exact failure?_eq_none_iff.1 hnone
  · rintro ⟨position, x, hx, hcause, hbefore⟩
    obtain ⟨hlt, hget⟩ := List.getElem?_eq_some_iff.1 hx
    refine ⟨items.take position, x, items.drop (position + 1), ?_, failure?_eq_some_iff.2 hcause,
      ?_⟩
    · rw [← hget, ← List.drop_eq_getElem_cons hlt, List.take_append_drop]
    · intro y hy
      obtain ⟨before, hlt', rfl⟩ := List.mem_take_iff_getElem.1 hy
      apply failure?_eq_none_iff.2
      exact hbefore before (by omega) _ (List.getElem?_eq_getElem _)

theorem failure?_encodeMembers (encode : α → Except EncodeError Value) :
    {bound : Option String} → (members : Entries α bound) →
    failure? (encodeMembers encode members) =
      members.toList.findSome? fun entry => failure? (encode entry.2)
  | _, .nil => rfl
  | _, .cons key above member members => by
      rw [encodeMembers, failure?_bind_bind, failure?_encodeMembers encode members, Entries.toList,
        List.findSome?_cons]
      cases failure? (encode member) <;> rfl

end

/-! ## Shapes -/

theorem failure?_encode_double (d : Binary64) :
    failure? (Codec.double.encode d) = (firstNonFinite? [d]).map .nonFinite := by
  rw [firstNonFinite?, List.find?_singleton]
  simp only [Codec.double]
  cases d.isFinite <;> rfl

section

variable {α : Type} {encode : α → Except EncodeError Value} {doubles : α → List Binary64}
  (h : ∀ x, failure? (encode x) = (firstNonFinite? (doubles x)).map .nonFinite)

include h

theorem failure?_encode_list (items : List α) :
    failure? ((encodeItems encode items).map Value.array) =
      (firstNonFinite? (items.flatMap doubles)).map .nonFinite := by
  rw [failure?_map, failure?_encodeItems, firstNonFinite?_flatMap, List.map_findSome?]
  exact congrArg (List.findSome? · items) (funext h)

theorem failure?_encode_members (members : Dict α) :
    failure? ((encodeMembers encode members).map Value.object) =
      (firstNonFinite? (members.toList.flatMap fun entry => doubles entry.2)).map .nonFinite := by
  rw [failure?_map, failure?_encodeMembers, firstNonFinite?_flatMap, List.map_findSome?]
  exact congrArg (List.findSome? · members.toList) (funext fun entry => h entry.2)

end

/-- Data that is left out has no doubles. -/
theorem Shape.doubles_of_isOmitted {shape : Shape} {x : shape.Data} (h : shape.isOmitted x = true) :
    shape.doubles x = [] := by
  cases shape with
  | option content =>
      cases x with
      | none => rfl
      | some y => cases h
  | _ => cases h

mutual

/-- **Encoding refuses the first double without a wire form, and nothing else.** -/
theorem Shape.failure?_encode : (shape : Shape) → (x : shape.Data) →
    failure? (shape.encode x) = (firstNonFinite? (shape.doubles x)).map .nonFinite
  | .double, d => failure?_encode_double d
  | .option _, none => rfl
  | .option content, some x => Shape.failure?_encode content x
  | .list item, items => failure?_encode_list (Shape.failure?_encode item) items
  | .map member, members => failure?_encode_members (Shape.failure?_encode member) members
  | .record _ fields, x => (failure?_map _ _).trans (Fields.failure?_encode fields x)
  | .string, _ | .boolean, _ | .int32, _ | .long, _ | .ref, _ | .timestamp, _ | .date, _
  | .value, _ | .set, _ => rfl

theorem Fields.failure?_encode : (fields : Fields) → (x : fields.Data) →
    failure? (fields.encode x) = (firstNonFinite? (fields.doubles x)).map .nonFinite
  | .nil, _ => rfl
  | .cons key shape rest, (x, xs) => by
      rw [Fields.encode, Fields.doubles]
      split
      · rename_i homitted
        rw [Shape.doubles_of_isOmitted homitted, List.nil_append]
        exact Fields.failure?_encode rest xs
      · rw [failure?_bind_bind, Shape.failure?_encode shape x, Fields.failure?_encode rest xs,
          firstNonFinite?_append, Option.map_or]

end

/-- The data can be written exactly when its doubles are all finite. -/
theorem Shape.encode_isOk_iff {shape : Shape} {x : shape.Data} :
    (∃ v, shape.encode x = .ok v) ↔ ∀ d ∈ shape.doubles x, d.isFinite = true := by
  rw [← failure?_eq_none_iff, Shape.failure?_encode, Option.map_eq_none_iff, firstNonFinite?,
    List.find?_eq_none]
  simp

/-- What is refused is the first double that is infinite or not a number. -/
theorem Shape.encode_eq_error_iff {shape : Shape} {x : shape.Data} {e : EncodeError} :
    shape.encode x = .error e ↔
      ∃ d, firstNonFinite? (shape.doubles x) = some d ∧ e = .nonFinite d := by
  rw [← failure?_eq_some_iff, Shape.failure?_encode, Option.map_eq_some_iff]
  exact exists_congr fun d => and_congr_right fun _ => eq_comm

end DocQuery
