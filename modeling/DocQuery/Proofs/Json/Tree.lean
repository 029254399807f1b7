import DocQuery.Proofs.Json.Reading

/-!
# Documents as trees

A tree can be written down: as a document without repeated keys, with its members in key order. That
document has the tokens of the tree and denotes the tree, and both have the same depth. A document
with repeated keys can be deeper than the tree that it denotes, but never less deep
(`depth_toJson_le`); one without repeated keys is as deep as its tree (`depth_toJson_of_distinctKeys`).
-/

set_option autoImplicit false

namespace DocQuery.Json

mutual

/-- How deep the deepest value of a tree lies, the tree itself at depth zero. -/
def depth : Json → Nat
  | .null | .bool _ | .number _ | .string _ => 0
  | .array items => itemsDepth items
  | .object members => membersDepth members

/-- How deep the deepest value in items lies. -/
def itemsDepth : List Json → Nat
  | [] => 0
  | item :: items => max (1 + depth item) (itemsDepth items)

/-- How deep the deepest value in members lies. -/
def membersDepth : {bound : Option String} → Entries Json bound → Nat
  | _, .nil => 0
  | _, .cons _ _ member members => max (1 + depth member) (membersDepth members)

end

theorem itemsDepth_le_iff {items : List Json} {n : Nat} :
    itemsDepth items ≤ n ↔ ∀ item ∈ items, 1 + item.depth ≤ n := by
  induction items with
  | nil => simp [itemsDepth]
  | cons item items ih => rw [itemsDepth, Nat.max_le, ih, List.forall_mem_cons]

theorem membersDepth_le_iff {n : Nat} {bound : Option String} {members : Entries Json bound} :
    membersDepth members ≤ n ↔ ∀ entry ∈ members.toList, 1 + entry.2.depth ≤ n := by
  induction members with
  | nil => simp [membersDepth, Entries.toList]
  | cons key above member members ih =>
      rw [membersDepth, Nat.max_le, ih, Entries.toList, List.forall_mem_cons]

theorem le_itemsDepth {item : Json} {items : List Json} (h : item ∈ items) :
    1 + item.depth ≤ itemsDepth items :=
  itemsDepth_le_iff.1 (Nat.le_refl _) item h

theorem le_membersDepth {bound : Option String} {members : Entries Json bound}
    {entry : String × Json} (h : entry ∈ members.toList) :
    1 + entry.2.depth ≤ membersDepth members :=
  membersDepth_le_iff.1 (Nat.le_refl _) entry h

/-- Induction on trees: items and members come with their hypotheses. -/
@[elab_as_elim]
theorem rec' {motive : Json → Prop} (null : motive .null) (bool : ∀ b, motive (.bool b))
    (number : ∀ n, motive (.number n)) (string : ∀ s, motive (.string s))
    (array : ∀ items, (∀ item ∈ items, motive item) → motive (.array items))
    (object : ∀ members : Dict Json, (∀ entry ∈ Entries.toList members, motive entry.2) →
      motive (.object members)) : ∀ json, motive json
  | .null => null
  | .bool b => bool b
  | .number n => number n
  | .string s => string s
  | .array items =>
      array items fun item _ => rec' null bool number string array object item
  | .object members =>
      object members fun entry _ => rec' null bool number string array object entry.2
termination_by json => sizeOf json
decreasing_by
  · have hlt := List.sizeOf_lt_of_mem ‹item ∈ items›
    rw [Json.array.sizeOf_spec]
    omega
  · have hlt := Entries.sizeOf_lt_of_mem ‹entry ∈ Entries.toList members›
    rw [Json.object.sizeOf_spec]
    omega

namespace Written

theorem itemsDepth_le_iff {items : List Written} {n : Nat} :
    itemsDepth items ≤ n ↔ ∀ item ∈ items, 1 + item.depth ≤ n := by
  induction items with
  | nil => simp [itemsDepth]
  | cons item items ih => rw [itemsDepth, Nat.max_le, ih, List.forall_mem_cons]

theorem membersDepth_le_iff {members : List (String × Written)} {n : Nat} :
    membersDepth members ≤ n ↔ ∀ member ∈ members, 1 + member.2.depth ≤ n := by
  induction members with
  | nil => simp [membersDepth]
  | cons member members ih => rw [membersDepth, Nat.max_le, ih, List.forall_mem_cons]

theorem le_itemsDepth {item : Written} {items : List Written} (h : item ∈ items) :
    1 + item.depth ≤ itemsDepth items :=
  itemsDepth_le_iff.1 (Nat.le_refl _) item h

theorem le_membersDepth {member : String × Written} {members : List (String × Written)}
    (h : member ∈ members) : 1 + member.2.depth ≤ membersDepth members :=
  membersDepth_le_iff.1 (Nat.le_refl _) member h

mutual

/-- A tree as a document. -/
def ofJson : Json → Written
  | .null => .null
  | .bool b => .bool b
  | .number n => .number n
  | .string s => .string s
  | .array items => .array (ofItems items)
  | .object members => .object (ofMembers members)

/-- The items of a tree as documents. -/
def ofItems : List Json → List Written
  | [] => []
  | item :: items => ofJson item :: ofItems items

/-- The members of a tree as documents, in key order. -/
def ofMembers : {bound : Option String} → Entries Json bound → List (String × Written)
  | _, .nil => []
  | _, .cons key _ member members => (key, ofJson member) :: ofMembers members

end

theorem ofItems_eq_map (items : List Json) : ofItems items = items.map ofJson := by
  induction items with
  | nil => rfl
  | cons item items ih => rw [ofItems, ih, List.map_cons]

theorem ofMembers_eq_map {bound : Option String} (members : Entries Json bound) :
    ofMembers members = members.toList.map fun entry => (entry.1, ofJson entry.2) := by
  induction members with
  | nil => rfl
  | cons key above member members ih => rw [ofMembers, ih, Entries.toList, List.map_cons]

mutual

theorem tokens_ofJson : (json : Json) → (ofJson json).tokens = json.tokens
  | .null => rfl
  | .bool _ => rfl
  | .number _ => rfl
  | .string _ => rfl
  | .array [] => rfl
  | .array (item :: items) => by
      rw [ofJson, ofItems, tokens, Json.tokens, tokens_ofJson item, itemTokens_ofItems items]
  | .object .nil => rfl
  | .object (.cons key _ member members) => by
      rw [ofJson, ofMembers, tokens, Json.tokens, tokens_ofJson member,
        memberTokens_ofMembers members]

theorem itemTokens_ofItems : (items : List Json) →
    itemTokens (ofItems items) = Json.itemTokens items
  | [] => rfl
  | item :: items => by
      rw [ofItems, itemTokens, Json.itemTokens, tokens_ofJson item, itemTokens_ofItems items]

theorem memberTokens_ofMembers : {bound : Option String} → (members : Entries Json bound) →
    memberTokens (ofMembers members) = Json.memberTokens members
  | _, .nil => rfl
  | _, .cons key _ member members => by
      rw [ofMembers, memberTokens, Json.memberTokens, tokens_ofJson member,
        memberTokens_ofMembers members]

end

mutual

theorem toJson_ofJson : (json : Json) → (ofJson json).toJson = json
  | .null => rfl
  | .bool _ => rfl
  | .number _ => rfl
  | .string _ => rfl
  | .array items => by rw [ofJson, toJson, itemsToJson_ofItems items]
  | .object members => by
      rw [ofJson, toJson, membersToJson_ofMembers members, Dict.ofList_toList]

theorem itemsToJson_ofItems : (items : List Json) → itemsToJson (ofItems items) = items
  | [] => rfl
  | item :: items => by
      rw [ofItems, itemsToJson, toJson_ofJson item, itemsToJson_ofItems items]

theorem membersToJson_ofMembers : {bound : Option String} → (members : Entries Json bound) →
    membersToJson (ofMembers members) = members.toList
  | _, .nil => rfl
  | _, .cons key _ member members => by
      rw [ofMembers, membersToJson, toJson_ofJson member, membersToJson_ofMembers members]
      rfl

end

mutual

theorem depth_ofJson : (json : Json) → (ofJson json).depth = json.depth
  | .null => rfl
  | .bool _ => rfl
  | .number _ => rfl
  | .string _ => rfl
  | .array items => by rw [ofJson, depth, Json.depth, itemsDepth_ofItems items]
  | .object members => by rw [ofJson, depth, Json.depth, membersDepth_ofMembers members]

theorem itemsDepth_ofItems : (items : List Json) →
    itemsDepth (ofItems items) = Json.itemsDepth items
  | [] => rfl
  | item :: items => by
      rw [ofItems, itemsDepth, Json.itemsDepth, depth_ofJson item, itemsDepth_ofItems items]

theorem membersDepth_ofMembers : {bound : Option String} → (members : Entries Json bound) →
    membersDepth (ofMembers members) = Json.membersDepth members
  | _, .nil => rfl
  | _, .cons key _ member members => by
      rw [ofMembers, membersDepth, Json.membersDepth, depth_ofJson member,
        membersDepth_ofMembers members]

end

end Written

/-! ## Repeated keys -/

/-- The tree that a document denotes is no deeper than the document. -/
theorem depth_toJson_le (w : Written) : w.toJson.depth ≤ w.depth := by
  induction w using Written.rec' with
  | null => exact Nat.le_refl 0
  | bool b => exact Nat.le_refl 0
  | number n => exact Nat.le_refl 0
  | string s => exact Nat.le_refl 0
  | array items ih =>
      rw [Written.toJson, Written.itemsToJson_eq_map]
      apply itemsDepth_le_iff.2
      intro item hitem
      obtain ⟨source, hsource, rfl⟩ := List.mem_map.1 hitem
      exact Nat.le_trans (Nat.add_le_add_left (ih source hsource) 1) (Written.le_itemsDepth hsource)
  | object members ih =>
      rw [Written.toJson, Written.membersToJson_eq_map]
      apply membersDepth_le_iff.2
      intro entry hentry
      -- whatever stays in the dictionary was written
      obtain ⟨source, hsource, rfl⟩ := List.mem_map.1 (Dict.mem_of_mem_ofList hentry)
      exact Nat.le_trans (Nat.add_le_add_left (ih source hsource) 1)
        (Written.le_membersDepth hsource)

/-- No object in the document repeats a key. -/
inductive Written.DistinctKeys : Written → Prop
  | null : DistinctKeys .null
  | bool (b : Bool) : DistinctKeys (.bool b)
  | number (n : Number) : DistinctKeys (.number n)
  | string (s : String) : DistinctKeys (.string s)
  | array {items : List Written} (each : ∀ item ∈ items, DistinctKeys item) :
      DistinctKeys (.array items)
  | object {members : List (String × Written)} (keys : (members.map Prod.fst).Nodup)
      (each : ∀ member ∈ members, DistinctKeys member.2) : DistinctKeys (.object members)

/-- A tree that is written down repeats no key. -/
theorem Written.distinctKeys_ofJson (json : Json) : (ofJson json).DistinctKeys := by
  induction json using Json.rec' with
  | null => exact .null
  | bool b => exact .bool b
  | number n => exact .number n
  | string s => exact .string s
  | array items ih =>
      rw [ofJson, ofItems_eq_map]
      apply DistinctKeys.array
      intro item hitem
      obtain ⟨source, hsource, rfl⟩ := List.mem_map.1 hitem
      exact ih source hsource
  | object members ih =>
      rw [ofJson, ofMembers_eq_map]
      apply DistinctKeys.object
      · rw [List.map_map]
        have hkeys := Entries.nodup_keys members
        rwa [← Entries.map_fst_toList] at hkeys
      · intro member hmember
        obtain ⟨source, hsource, rfl⟩ := List.mem_map.1 hmember
        exact ih source hsource

/-- Where no key is repeated, the tree keeps everything that was written. -/
theorem depth_toJson_of_distinctKeys {w : Written} (h : w.DistinctKeys) :
    w.toJson.depth = w.depth := by
  apply Nat.le_antisymm (depth_toJson_le w)
  induction h with
  | null => exact Nat.le_refl 0
  | bool b => exact Nat.le_refl 0
  | number n => exact Nat.le_refl 0
  | string s => exact Nat.le_refl 0
  | array _ ih =>
      rw [Written.toJson, Written.itemsToJson_eq_map]
      apply Written.itemsDepth_le_iff.2
      intro item hitem
      have hmem := List.mem_map_of_mem (f := Written.toJson) hitem
      exact Nat.le_trans (Nat.add_le_add_left (ih item hitem) 1) (le_itemsDepth hmem)
  | @object members keys _ ih =>
      rw [Written.toJson, Written.membersToJson_eq_map]
      apply Written.membersDepth_le_iff.2
      intro member hmember
      have hkeys : ((members.map fun member => (member.1, member.2.toJson)).map Prod.fst).Nodup := by
        rwa [List.map_map]
      have hmem := Dict.mem_ofList_of_nodup hkeys (List.mem_map_of_mem hmember)
      exact Nat.le_trans (Nat.add_le_add_left (ih member hmember) 1) (le_membersDepth hmem)

end DocQuery.Json
