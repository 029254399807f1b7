import DocQuery.Proofs.Calendar.TimestampText
import DocQuery.Proofs.Dict.Lookup
import DocQuery.Proofs.Results
import DocQuery.Value.Wire

/-!
# The values inside a value

The parts of a value are the value itself, the items and members in it, and the queries of sets, at
any depth. Exactly the values whose doubles are all finite have a document (`toJson_isOk_iff`).
-/

set_option autoImplicit false

namespace DocQuery.Value

/-- A value stands somewhere inside another one, or is that value. -/
inductive Part (p : Value) : Value → Prop where
  | whole : Part p p
  | item {items : List Value} {v : Value} (mem : v ∈ items) (part : Part p v) : Part p (array items)
  | member {members : Dict Value} {entry : String × Value} (mem : entry ∈ Entries.toList members)
      (part : Part p entry.2) : Part p (object members)
  | query {v : Value} (part : Part p v) : Part p (set v)

/-- No double anywhere in the value is infinite or not a number. -/
def AllFinite (v : Value) : Prop := ∀ d, Part (double d) v → d.isFinite = true

/-- Every timestamp anywhere in the value has a UTC year of four digits. -/
def InFourDigitYears (v : Value) : Prop := ∀ t, Part (timestamp t) v → t.InFourDigitYears

/-- Every leap second of a timestamp anywhere in the value ends a minute. -/
def LeapsEndMinutes (v : Value) : Prop := ∀ t, Part (timestamp t) v → t.LeapEndsMinute

/-- The text of every timestamp anywhere in the value is read as the timestamp. -/
def TimestampsReadBack (v : Value) : Prop :=
  ∀ t, Part (timestamp t) v → Timestamp.parse t.text = .ok t

theorem Part.trans {p q v : Value} (inner : Part p q) (outer : Part q v) : Part p v := by
  induction outer with
  | whole => exact inner
  | item mem _ ih => exact .item mem ih
  | member mem _ ih => exact .member mem ih
  | query _ ih => exact .query ih

theorem AllFinite.part {p v : Value} (h : v.AllFinite) (part : Part p v) : p.AllFinite :=
  fun d hd => h d (hd.trans part)

theorem TimestampsReadBack.part {p v : Value} (h : v.TimestampsReadBack) (part : Part p v) :
    p.TimestampsReadBack :=
  fun t ht => h t (ht.trans part)

/-- The texts of timestamps are read back just when the years have four digits and leap seconds end
minutes. -/
theorem timestampsReadBack_iff {v : Value} :
    v.TimestampsReadBack ↔ v.InFourDigitYears ∧ v.LeapsEndMinutes := by
  constructor
  · intro h
    constructor
    · intro t part
      exact (Timestamp.parse_text_eq_iff.1 (h t part)).1
    · intro t part
      exact (Timestamp.parse_text_eq_iff.1 (h t part)).2
  · rintro ⟨hyears, hleaps⟩ t part
    exact Timestamp.parse_text_eq_iff.2 ⟨hyears t part, hleaps t part⟩

/-- Induction on values: items and members come with their hypotheses, and any other value stands for
itself. -/
@[elab_as_elim]
theorem rec' {motive : Value → Prop}
    (scalar : ∀ v, v.kind ≠ .array → v.kind ≠ .object → motive v)
    (array : ∀ items, (∀ item ∈ items, motive item) → motive (.array items))
    (object : ∀ members : Dict Value, (∀ entry ∈ Entries.toList members, motive entry.2) →
      motive (.object members)) : ∀ v, motive v
  | .array items => array items fun item _ => rec' scalar array object item
  | .object members => object members fun entry _ => rec' scalar array object entry.2
  | .null | .boolean _ | .long _ | .double _ | .string _ | .ref _ | .timestamp _ | .date _
  | .set _ => scalar _ Kind.noConfusion Kind.noConfusion
termination_by v => sizeOf v
decreasing_by
  · have hlt := List.sizeOf_lt_of_mem ‹item ∈ items›
    rw [Value.array.sizeOf_spec]
    omega
  · have hlt := Entries.sizeOf_lt_of_mem ‹entry ∈ Entries.toList members›
    rw [Value.object.sizeOf_spec]
    omega

/-! ## Values with a document -/

/-- The documents of items, one by one. -/
theorem itemsToJson_cons {item : Value} {items : List Value} {documents : List Json}
    (h : itemsToJson (item :: items) = .ok documents) :
    ∃ document rest, item.toJson = .ok document ∧ itemsToJson items = .ok rest ∧
      documents = document :: rest := by
  rw [itemsToJson] at h
  obtain ⟨document, hdocument, h⟩ := exists_of_bind_eq_ok h
  obtain ⟨rest, hrest, h⟩ := exists_of_bind_eq_ok h
  exact ⟨document, rest, hdocument, hrest, (Except.ok.inj h).symm⟩

/-- The documents of members, one by one. -/
theorem membersToJson_cons {bound : Option String} {key : String} {above : Above bound key}
    {member : Value} {members : Entries Value (some key)} {documents : Entries Json bound}
    (h : membersToJson (.cons key above member members) = .ok documents) :
    ∃ document rest, member.toJson = .ok document ∧ membersToJson members = .ok rest ∧
      documents = .cons key above document rest := by
  rw [membersToJson] at h
  obtain ⟨document, hdocument, h⟩ := exists_of_bind_eq_ok h
  obtain ⟨rest, hrest, h⟩ := exists_of_bind_eq_ok h
  exact ⟨document, rest, hdocument, hrest, (Except.ok.inj h).symm⟩

theorem exists_toJson_of_mem {items : List Value} {documents : List Json}
    (h : itemsToJson items = .ok documents) {item : Value} (hmem : item ∈ items) :
    ∃ document, item.toJson = .ok document := by
  induction items generalizing documents with
  | nil => cases hmem
  | cons first items ih =>
      obtain ⟨document, rest, hfirst, hrest, -⟩ := itemsToJson_cons h
      rcases List.mem_cons.1 hmem with rfl | htail
      · exact ⟨document, hfirst⟩
      · exact ih hrest htail

theorem exists_toJson_of_mem_toList : {bound : Option String} → {members : Entries Value bound} →
    {documents : Entries Json bound} → membersToJson members = .ok documents →
    {entry : String × Value} → entry ∈ members.toList → ∃ document, entry.2.toJson = .ok document
  | _, .nil, _, _, _, hmem => absurd hmem List.not_mem_nil
  | _, .cons key above member members, _, h, entry, hmem => by
      obtain ⟨document, rest, hmember, hrest, -⟩ := membersToJson_cons h
      rw [Entries.toList] at hmem
      rcases List.mem_cons.1 hmem with rfl | htail
      · exact ⟨document, hmember⟩
      · exact exists_toJson_of_mem_toList hrest htail

/-- Every part of a value with a document has a document. -/
theorem exists_toJson_of_part {p v : Value} (part : Part p v) {json : Json}
    (h : v.toJson = .ok json) : ∃ document, p.toJson = .ok document := by
  -- each way into a value goes through the document of an item, a member or a query
  induction part generalizing json with
  | whole => exact ⟨json, h⟩
  | item mem _ ih =>
      obtain ⟨documents, hdocuments, -⟩ := exists_of_map_eq_ok h
      obtain ⟨document, hdocument⟩ := exists_toJson_of_mem hdocuments mem
      exact ih hdocument
  | member mem _ ih =>
      obtain ⟨documents, hdocuments, -⟩ := exists_of_map_eq_ok h
      obtain ⟨document, hdocument⟩ := exists_toJson_of_mem_toList hdocuments mem
      exact ih hdocument
  | query _ ih =>
      obtain ⟨document, hdocument, -⟩ := exists_of_map_eq_ok h
      exact ih hdocument

mutual

theorem AllFinite.exists_toJson : (v : Value) → v.AllFinite → ∃ json, v.toJson = .ok json
  | .null, _ => ⟨_, rfl⟩
  | .boolean _, _ => ⟨_, rfl⟩
  | .long _, _ => ⟨_, rfl⟩
  | .double d, h => ⟨_, dif_pos (h d .whole)⟩
  | .string _, _ => ⟨_, rfl⟩
  | .array items, h => by
      obtain ⟨documents, hdocuments⟩ :=
        exists_itemsToJson items fun item hmem => h.part (.item hmem .whole)
      rw [toJson, hdocuments]
      exact ⟨_, rfl⟩
  | .object members, h => by
      obtain ⟨documents, hdocuments⟩ :=
        exists_membersToJson members fun entry hmem => h.part (.member hmem .whole)
      rw [toJson, hdocuments]
      exact ⟨_, rfl⟩
  | .ref _, _ => ⟨_, rfl⟩
  | .timestamp _, _ => ⟨_, rfl⟩
  | .date _, _ => ⟨_, rfl⟩
  | .set query, h => by
      obtain ⟨document, hdocument⟩ := AllFinite.exists_toJson query (h.part (.query .whole))
      rw [toJson, hdocument]
      exact ⟨_, rfl⟩

theorem exists_itemsToJson : (items : List Value) → (∀ item ∈ items, item.AllFinite) →
    ∃ documents, itemsToJson items = .ok documents
  | [], _ => ⟨_, rfl⟩
  | item :: items, h => by
      obtain ⟨document, hdocument⟩ := AllFinite.exists_toJson item (h item List.mem_cons_self)
      obtain ⟨documents, hdocuments⟩ :=
        exists_itemsToJson items fun i hmem => h i (List.mem_cons_of_mem _ hmem)
      rw [itemsToJson, hdocument, hdocuments]
      exact ⟨_, rfl⟩

theorem exists_membersToJson : {bound : Option String} → (members : Entries Value bound) →
    (∀ entry ∈ members.toList, entry.2.AllFinite) →
    ∃ documents, membersToJson members = .ok documents
  | _, .nil, _ => ⟨_, rfl⟩
  | _, .cons key _ member members, h => by
      rw [Entries.toList] at h
      obtain ⟨document, hdocument⟩ := AllFinite.exists_toJson member (h _ List.mem_cons_self)
      obtain ⟨documents, hdocuments⟩ :=
        exists_membersToJson members fun entry hmem => h entry (List.mem_cons_of_mem _ hmem)
      rw [membersToJson, hdocument, hdocuments]
      exact ⟨_, rfl⟩

end

/-- **A value has a document exactly when its doubles are all finite.** -/
theorem toJson_isOk_iff {v : Value} : (∃ json, v.toJson = .ok json) ↔ v.AllFinite := by
  constructor
  · rintro ⟨json, h⟩ d part
    obtain ⟨document, hdocument⟩ := exists_toJson_of_part part h
    rw [toJson] at hdocument
    split at hdocument
    · rename_i hfinite
      exact hfinite
    · cases hdocument
  · exact AllFinite.exists_toJson v

end DocQuery.Value
