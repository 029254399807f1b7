import DocQuery.Proofs.Dict.Related
import DocQuery.Proofs.Shape.Matching
import DocQuery.Proofs.Value.Parts

/-!
# What data is decoded from

Data of a container is decoded exactly from the values of its kind whose parts are decoded to the
parts of the data: an array one by one (`decodeArray_eq_ok_iff`), an object key by key
(`decodeObject_eq_ok_iff`), and a record field by field from the members at its keys
(`decode_record_eq_ok_iff`, `Fields.decode_cons_eq_ok_iff`). Optional data is decoded from null or
from what it holds (`decode_option_eq_ok_iff`).
-/

set_option autoImplicit false

namespace DocQuery

/-- The payload of a kind is what the value has. -/
theorem expect_eq_ok_iff {α : Type} {kind : Kind} {payload? : Value → Option α} {v : Value} {x : α} :
    Codec.expect kind payload? v = .ok x ↔ payload? v = some x := by
  rw [Codec.expect]
  cases payload? v with
  | some payload => simp
  | none => simp

/-- Data of a container is decoded from what a value of its kind holds. -/
theorem container_eq_ok_iff {α β : Type} {kind : Kind} {payload? : Value → Option α}
    {wrap : α → Value} (hpayload : ∀ v a, payload? v = some a ↔ v = wrap a)
    {decode : α → Except FieldError β} {v : Value} {x : β} :
    (Codec.expect kind payload? v >>= decode) = .ok x ↔ ∃ a, v = wrap a ∧ decode a = .ok x := by
  constructor
  · intro h
    obtain ⟨a, ha, hx⟩ := exists_of_bind_eq_ok h
    exact ⟨a, (hpayload v a).1 (expect_eq_ok_iff.1 ha), hx⟩
  · rintro ⟨a, rfl, hx⟩
    rw [expect_eq_ok_iff.2 ((hpayload (wrap a) a).2 rfl)]
    exact hx

section

variable {α : Type} {decode : Value → Except FieldError α} {v : Value}

theorem decodeArray_eq_ok_iff {label : Nat → Path} {data : List α} :
    decodeArray label decode v = .ok data ↔
      ∃ items, v = .array items ∧ List.Forall₂ (fun item x => decode item = .ok x) items data := by
  refine (container_eq_ok_iff asArray?_eq_some_iff).trans (exists_congr fun items => ?_)
  rw [mapError_eq_ok_iff, decodeItems_eq_ok_iff]

theorem decodeMembers_eq_ok_iff : {bound : Option String} → {members : Entries Value bound} →
    {data : Entries α bound} → (decodeMembers decode members = .ok data ↔
      Entries.Forall₂ (fun member x => decode member = .ok x) members data)
  | _, .nil, data => by
      constructor
      · intro h
        rw [← Except.ok.inj h]
        exact .nil
      · rintro ⟨⟩
        rfl
  | _, .cons key above member members, data => by
      rw [decodeMembers, gather_eq_ok_iff]
      constructor
      · rintro ⟨x, xs, hx, hxs, rfl⟩
        exact .cons above hx (decodeMembers_eq_ok_iff.1 hxs)
      · intro h
        cases h with
        | cons above hx hxs => exact ⟨_, _, hx, decodeMembers_eq_ok_iff.2 hxs, rfl⟩

theorem decodeObject_eq_ok_iff {data : Dict α} :
    decodeObject decode v = .ok data ↔
      ∃ members : Dict Value, v = .object members ∧
        Entries.Forall₂ (fun member x => decode member = .ok x) members data := by
  refine (container_eq_ok_iff asObject?_eq_some_iff).trans (exists_congr fun members => ?_)
  rw [mapError_eq_ok_iff, decodeMembers_eq_ok_iff]

end

theorem decode_record_eq_ok_iff {name : String} {fields : Fields} {v : Value} {x : fields.Data} :
    (Shape.record name fields).decode v = .ok x ↔
      ∃ members : Dict Value, v = .object members ∧ fields.decode members = .ok x := by
  refine (container_eq_ok_iff asObject?_eq_some_iff).trans (exists_congr fun members => ?_)
  exact and_congr_right fun _ => mapError_eq_ok_iff

/-- The first field is read from the member at its key, and a missing one is not there. -/
theorem Fields.decode_cons_eq_ok_iff {key : String} {shape : Shape} {rest : Fields}
    {members : Dict Value} {x : shape.Data} {xs : rest.Data} :
    (Fields.cons key shape rest).decode members = .ok (x, xs) ↔
      ((∃ v, members.find? key = some v ∧ shape.decode v = .ok x) ∨
        members.find? key = none ∧ shape.absent? = some x) ∧ rest.decode members = .ok xs := by
  refine gather_eq_ok_iff.trans ⟨?_, ?_⟩
  · rintro ⟨y, ys, hy, hys, heq⟩
    obtain ⟨rfl, rfl⟩ := Prod.mk.inj heq
    refine ⟨?_, hys⟩
    cases hfind : members.find? key with
    | some v =>
        rw [hfind] at hy
        exact .inl ⟨v, rfl, hy⟩
    | none =>
        rw [hfind] at hy
        cases habsent : shape.absent? with
        | some absent =>
            rw [habsent] at hy
            rw [Except.ok.inj hy]
            exact .inr ⟨rfl, rfl⟩
        | none =>
            rw [habsent] at hy
            cases hy
  · rintro ⟨⟨v, hfind, hx⟩ | ⟨hfind, habsent⟩, hxs⟩
    · refine ⟨x, xs, ?_, hxs, rfl⟩
      rw [hfind]
      exact hx
    · refine ⟨x, xs, ?_, hxs, rfl⟩
      rw [hfind, habsent]

/-- Optional data is there exactly for the values that are not null. -/
theorem decode_option_eq_ok_iff {content : Shape} {v : Value} {x : Option content.Data} :
    (Shape.option content).decode v = .ok x ↔
      v = .null ∧ x = none ∨ ∃ y, v ≠ .null ∧ content.decode v = .ok y ∧ x = some y := by
  by_cases hv : v = .null
  · subst hv
    -- null is never given to the content
    constructor
    · intro h
      exact .inl ⟨rfl, (Except.ok.inj h).symm⟩
    · rintro (⟨-, rfl⟩ | ⟨y, hne, -⟩)
      · rfl
      · exact absurd rfl hne
  · rw [Shape.decode, if_neg fun h => hv (isNull_iff.1 h)]
    constructor
    · intro h
      obtain ⟨y, hy, rfl⟩ := exists_of_map_eq_ok h
      exact .inr ⟨y, hv, hy, rfl⟩
    · rintro (⟨hnull, -⟩ | ⟨y, -, hy, rfl⟩)
      · exact absurd hnull hv
      · rw [hy]
        rfl

end DocQuery
