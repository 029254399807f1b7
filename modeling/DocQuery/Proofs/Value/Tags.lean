import DocQuery.Proofs.Dict.Related
import DocQuery.Proofs.Json.Tree
import DocQuery.Proofs.Value.Parts

/-!
# Conversion by tags

An object with one member, whose key is that of a tag, is converted as the tag tells; any other
object is converted member by member. Each of the two has one equation (`ofJson_tagged` and
`ofJson_untagged`), and induction on documents tells the two apart (`recTagged`). Items and members
are converted when each of them is (`itemsOfJson_eq_ok_iff` and `membersOfJson_eq_ok_iff`).
-/

set_option autoImplicit false

namespace DocQuery

theorem Tag.eq_key_of_ofKey? {key : String} {tag : Tag} (h : Tag.ofKey? key = some tag) :
    key = tag.key := by
  unfold Tag.ofKey? at h
  grind

namespace Value

theorem isReserved_key (tag : Tag) : isReserved tag.key = true := by
  cases tag <;> decide

/-- The tag of an object whose only member has the key of a tag. -/
def tagOf? : Dict Json → Option Tag
  | .cons key _ _ .nil => Tag.ofKey? key
  | .nil => none
  | .cons _ _ _ (.cons _ _ _ _) => none

theorem eq_single_of_tagOf? {members : Dict Json} {tag : Tag} (h : tagOf? members = some tag) :
    ∃ payload, members = Dict.single tag.key payload := by
  match members, h with
  | .cons key _ payload .nil, h =>
      obtain rfl := Tag.eq_key_of_ofKey? h
      exact ⟨payload, rfl⟩

/-- Keys that do not start with the mark of tags give no tag. -/
theorem tagOf?_of_not_isReserved {members : Dict Json}
    (h : members.keys.any isReserved = false) : tagOf? members = none := by
  cases htag : tagOf? members with
  | none => rfl
  | some tag =>
      obtain ⟨payload, rfl⟩ := eq_single_of_tagOf? htag
      simp [Dict.single, Entries.keys, isReserved_key] at h

theorem depth_tagged (tag : Tag) (payload : Json) :
    (tagged tag payload).depth = 1 + payload.depth := by
  rw [tagged, Dict.single, Json.depth, Json.membersDepth, Json.membersDepth, Nat.max_zero]

/-- **Induction on what a conversion tells apart.** A payload comes with its own hypothesis and with
those of its members, which is where a conversion goes on under the tag of objects. -/
@[elab_as_elim]
theorem recTagged {motive : Json → Prop} (null : motive .null) (bool : ∀ b, motive (.bool b))
    (number : ∀ n, motive (.number n)) (string : ∀ s, motive (.string s))
    (array : ∀ items, (∀ item ∈ items, motive item) → motive (.array items))
    (tagged : ∀ tag payload, motive payload →
      (∀ members : Dict Json, payload = .object members →
        ∀ entry ∈ Entries.toList members, motive entry.2) → motive (tagged tag payload))
    (untagged : ∀ members : Dict Json, tagOf? members = none →
      (∀ entry ∈ Entries.toList members, motive entry.2) → motive (.object members))
    (json : Json) : motive json := by
  -- the members of a payload lie two levels below, so they are carried along
  suffices h : motive json ∧
      ∀ members : Dict Json, json = .object members → ∀ entry ∈ Entries.toList members,
        motive entry.2 from h.1
  induction json using Json.rec' with
  | null => exact ⟨null, by rintro members ⟨⟩⟩
  | bool b => exact ⟨bool b, by rintro members ⟨⟩⟩
  | number n => exact ⟨number n, by rintro members ⟨⟩⟩
  | string s => exact ⟨string s, by rintro members ⟨⟩⟩
  | array items ih =>
      refine ⟨?_, by rintro members ⟨⟩⟩
      apply array
      intro item hmem
      exact (ih item hmem).1
  | object members ih =>
      have hmembers : ∀ entry ∈ Entries.toList members, motive entry.2 :=
        fun entry hmem => (ih entry hmem).1
      refine ⟨?_, by rintro _ ⟨⟩; exact hmembers⟩
      cases htag : tagOf? members with
      | none => exact untagged members htag hmembers
      | some tag =>
          obtain ⟨payload, rfl⟩ := eq_single_of_tagOf? htag
          obtain ⟨hpayload, hinner⟩ := ih _ List.mem_cons_self
          exact tagged tag payload hpayload hinner

/-! ## One equation for each way -/

/-- What is read under a tag, for each tag. -/
theorem ofJson_tagged (limit depth : Nat) (tag : Tag) (payload : Json) :
    ofJson limit depth (tagged tag payload) =
      if limit < depth then .error (.tooDeep limit)
      else match tag with
        | .ref => refOfJson payload
        | .timestamp => timestampOfJson payload
        | .date => dateOfJson payload
        | .set => (ofJson limit (depth + 1) payload).map set
        | .object =>
            match payload with
            | .object members => (membersOfJson limit (depth + 2) members).map object
            | _ => .error (.malformedSpecial .object) := by
  rw [tagged, Dict.single, ofJson.eq_def]
  cases tag <;> rfl

/-- An object without a tag is read member by member, however many members it has. -/
theorem ofJson_untagged (limit depth : Nat) {members : Dict Json} (h : tagOf? members = none) :
    ofJson limit depth (.object members) =
      if limit < depth then .error (.tooDeep limit)
      else (membersOfJson limit (depth + 1) members).map object := by
  match members, h with
  | .nil, _ =>
      rw [ofJson]
      rfl
  | .cons key above payload .nil, h =>
      have htag : Tag.ofKey? key = none := h
      rw [ofJson.eq_def]
      simp only [htag, membersOfJson]
      cases ofJson limit (depth + 1) payload <;> rfl
  | .cons key above member (.cons key' above' member' members), _ => rw [ofJson]

/-- Below the limit no document is converted, whatever it is. -/
theorem ofJson_of_lt {limit depth : Nat} (h : limit < depth) (json : Json) :
    ofJson limit depth json = .error (.tooDeep limit) := by
  rw [ofJson.eq_def, if_pos h]

theorem le_of_ofJson {limit depth : Nat} {json : Json} {v : Value}
    (h : ofJson limit depth json = .ok v) : depth ≤ limit := by
  by_contra hdepth
  rw [ofJson_of_lt (Nat.not_le.1 hdepth)] at h
  cases h

/-! ## Items and members -/

/-- Items are converted when each of them is. -/
theorem itemsOfJson_eq_ok_iff {limit depth : Nat} {items : List Json} {vs : List Value} :
    itemsOfJson limit depth items = .ok vs ↔
      List.Forall₂ (fun item v => ofJson limit depth item = .ok v) items vs := by
  induction items generalizing vs with
  | nil => rw [itemsOfJson, List.forall₂_nil_left_iff, Except.ok.injEq, eq_comm]
  | cons item items ih =>
      rw [itemsOfJson, List.forall₂_cons_left_iff]
      constructor
      · intro h
        obtain ⟨v, hv, h⟩ := exists_of_bind_eq_ok h
        obtain ⟨rest, hrest, h⟩ := exists_of_bind_eq_ok h
        exact ⟨v, rest, hv, ih.1 hrest, (Except.ok.inj h).symm⟩
      · rintro ⟨v, rest, hv, hrest, rfl⟩
        rw [hv, ih.2 hrest]
        rfl

/-- Members are converted when each of them is, and keep their keys. -/
theorem membersOfJson_eq_ok_iff {limit depth : Nat} {bound : Option String}
    {members : Entries Json bound} {vs : Entries Value bound} :
    membersOfJson limit depth members = .ok vs ↔
      Entries.Forall₂ (fun member v => ofJson limit depth member = .ok v) members vs := by
  induction members with
  | nil =>
      rw [membersOfJson]
      constructor
      · rintro ⟨⟩
        exact .nil
      · rintro ⟨⟩
        rfl
  | cons key above member members ih =>
      rw [membersOfJson]
      constructor
      · intro h
        obtain ⟨v, hv, h⟩ := exists_of_bind_eq_ok h
        obtain ⟨rest, hrest, h⟩ := exists_of_bind_eq_ok h
        cases h
        exact .cons above hv (ih.1 hrest)
      · rintro (_ | ⟨_, hv, hrest⟩)
        rw [hv, ih.2 hrest]
        rfl

end Value

end DocQuery
