import DocQuery.Dict
import Mathlib.Data.List.Induction

/-!
# Dictionaries by their lookups

A dictionary is determined by what its keys look up to (`Entries.eq_of_find?`). So a dictionary is
the dictionary of its own list of entries (`Dict.ofList_toList`), and two lists of entries have the
same dictionary when every key has the same last entry in both (`Dict.ofList_eq_iff`).
-/

set_option autoImplicit false

namespace DocQuery

namespace Entries

variable {α β : Type}

/-- The bound itself is not found above it. -/
theorem find?_bound {key : String} (rest : Entries α (some key)) : rest.find? key = none := by
  cases rest with
  | nil => rfl
  | cons k above value rest =>
      have hlt : key < k := above key rfl
      have hne : key ≠ k := fun e => String.lt_irrefl k (e ▸ hlt)
      rw [find?, if_neg hne]
      exact find?_eq_none_of_lt rest hlt

theorem find?_map (f : α → β) (key : String) :
    {bound : Option String} → (entries : Entries α bound) →
      (entries.map f).find? key = (entries.find? key).map f
  | _, nil => rfl
  | _, cons k _ value rest => by
      rw [map, find?, find?, find?_map f key rest]
      split <;> rfl

/-- Two dictionaries that look up every key to the same value are the same. -/
theorem eq_of_find? :
    {bound : Option String} → (a b : Entries α bound) →
      (∀ key, a.find? key = b.find? key) → a = b
  | _, nil, nil, _ => rfl
  | _, nil, cons k _ v rest, h => by
      have hk := h k
      simp only [find?, if_true, reduceCtorEq] at hk
  | _, cons k _ v rest, nil, h => by
      have hk := h k
      simp only [find?, if_true, reduceCtorEq] at hk
  | _, cons k above v rest, cons k' above' v' rest', h => by
      -- the least key of each is found in the other, so the least keys are the same
      have hkk : k = k' := by
        by_cases hlt : k < k'
        · have hk := h k
          rw [find?, if_pos rfl, find?] at hk
          have hne : k ≠ k' := fun e => String.lt_irrefl k' (e ▸ hlt)
          rw [if_neg hne, find?_eq_none_of_lt rest' hlt] at hk
          exact absurd hk (Option.some_ne_none v)
        · by_cases heq : k = k'
          · exact heq
          · have hgt : k' < k := lt_of_not_lt_of_ne hlt heq
            have hk := h k'
            rw [find?, find?, if_pos rfl, if_neg (Ne.symm heq),
              find?_eq_none_of_lt rest hgt] at hk
            exact absurd hk.symm (Option.some_ne_none v')
      subst hkk
      have hv : v = v' := by
        have hk := h k
        rw [find?, find?, if_pos rfl, if_pos rfl] at hk
        exact Option.some.inj hk
      have hrest : rest = rest' := by
        refine eq_of_find? rest rest' fun key => ?_
        by_cases he : key = k
        · rw [he, find?_bound, find?_bound]
        · have hk := h key
          rwa [find?, find?, if_neg he, if_neg he] at hk
      rw [hv, hrest]

/-- An entry is listed exactly when its key looks up to its value. -/
theorem mem_toList_iff {key : String} {value : α} :
    {bound : Option String} → (entries : Entries α bound) →
      ((key, value) ∈ entries.toList ↔ entries.find? key = some value)
  | _, nil => by
      rw [find?, toList]
      constructor
      · intro h
        cases h
      · intro h
        cases h
  | _, cons k above old rest => by
      rw [toList, find?, List.mem_cons, mem_toList_iff rest]
      by_cases h : key = k
      · subst h
        rw [find?_bound, if_pos rfl, Option.some.injEq, Prod.mk.injEq]
        constructor
        · rintro (⟨-, rfl⟩ | ⟨⟨⟩⟩)
          rfl
        · rintro rfl
          exact .inl ⟨rfl, rfl⟩
      · rw [if_neg h]
        constructor
        · rintro (heq | hrest)
          · exact absurd (Prod.mk.inj heq).1 h
          · exact hrest
        · exact .inr

theorem map_fst_toList :
    {bound : Option String} → (entries : Entries α bound) →
      entries.toList.map Prod.fst = entries.keys
  | _, nil => rfl
  | _, cons k _ value rest => by rw [toList, List.map_cons, keys, map_fst_toList rest]

theorem above_of_mem_keys {key : String} :
    {bound : Option String} → (entries : Entries α bound) → key ∈ entries.keys → Above bound key
  | _, nil, h => absurd h List.not_mem_nil
  | _, cons k above value rest, h => by
      rw [keys] at h
      rcases List.mem_cons.1 h with rfl | hrest
      · exact above
      · have hlt := above_of_mem_keys rest hrest k rfl
        intro b hb
        exact String.lt_trans (above b hb) hlt

/-- The keys ascend. -/
theorem keys_pairwise :
    {bound : Option String} → (entries : Entries α bound) → entries.keys.Pairwise (· < ·)
  | _, nil => .nil
  | _, cons k _ value rest => by
      rw [keys]
      exact .cons (fun key h => above_of_mem_keys rest h k rfl) (keys_pairwise rest)

/-- A value is smaller than the entries it stands in. -/
theorem sizeOf_lt_of_mem [SizeOf α] {entry : String × α} :
    {bound : Option String} → {entries : Entries α bound} → entry ∈ entries.toList →
      sizeOf entry.2 < sizeOf entries
  | _, nil, h => absurd h List.not_mem_nil
  | _, cons key above value rest, h => by
      rw [toList] at h
      rw [cons.sizeOf_spec]
      rcases List.mem_cons.1 h with rfl | htail
      · show sizeOf value < _
        omega
      · have hlt := sizeOf_lt_of_mem htail
        omega

theorem nodup_keys {bound : Option String} (entries : Entries α bound) : entries.keys.Nodup :=
  entries.keys_pairwise.imp fun h => by
    rintro rfl
    exact String.lt_irrefl _ h

/-- Inserting entries one after another: each key gets its entry, and a key without one keeps what
it had. -/
theorem find?_foldl_insert (key : String) :
    {bound : Option String} → (entries : Entries α bound) → (dict : Dict α) →
      (entries.toList.foldl (fun dict entry => dict.insert entry.1 entry.2) dict).find? key =
        (entries.find? key).or (dict.find? key)
  | _, nil, dict => rfl
  | _, cons k _ value rest, dict => by
      rw [toList, List.foldl_cons, find?_foldl_insert key rest, Dict.find?_insert, find?]
      by_cases h : key = k
      · subst h
        rw [find?_bound, if_pos rfl, if_pos rfl]
        rfl
      · rw [if_neg h, if_neg h]

end Entries

namespace Dict

variable {α β : Type}

theorem eq_of_find? {a b : Dict α} (h : ∀ key, a.find? key = b.find? key) : a = b :=
  Entries.eq_of_find? a b h

/-- A dictionary is the dictionary of its entries. -/
theorem ofList_toList (dict : Dict α) : ofList dict.toList = dict := by
  apply eq_of_find?
  intro key
  rw [ofList, Entries.find?_foldl_insert]
  exact Option.or_none

/-- One more entry at the end of a list is one more insertion. -/
theorem ofList_concat (entries : List (String × α)) (key : String) (value : α) :
    ofList (entries ++ [(key, value)]) = (ofList entries).insert key value := by
  rw [ofList, List.foldl_append]
  rfl

/-- In the dictionary of a list, a key has the value of its last entry. -/
theorem find?_ofList (entries : List (String × α)) (key : String) :
    (ofList entries).find? key = entries.reverse.lookup key := by
  induction entries using List.reverseRecOn with
  | nil => rfl
  | append_singleton entries last ih =>
      rcases last with ⟨name, value⟩
      rw [ofList_concat, find?_insert, List.reverse_append, List.reverse_singleton,
        List.singleton_append, List.lookup_cons]
      by_cases h : key = name
      · -- the last entry has the key, and comes first in reverse
        rw [if_pos h, h, BEq.rfl]
      · rw [if_neg h, beq_false_of_ne h, ih]

/-- The dictionary of a list has no entries but those of the list. -/
theorem mem_of_mem_ofList {entries : List (String × α)} {entry : String × α}
    (h : entry ∈ (ofList entries).toList) : entry ∈ entries := by
  rcases entry with ⟨key, value⟩
  rw [Entries.mem_toList_iff] at h
  induction entries using List.reverseRecOn with
  | nil => cases h
  | append_singleton entries last ih =>
      rcases last with ⟨name, last⟩
      rw [ofList_concat, find?_insert] at h
      apply List.mem_append.2
      split at h
      · -- this is the entry that was inserted last
        rename_i hkey
        obtain rfl := Option.some.inj h
        exact .inr (List.mem_singleton.2 (hkey ▸ rfl))
      · exact .inl (ih h)

/-- The dictionary of a list without repeated keys has every entry of the list. -/
theorem mem_ofList_of_nodup {entries : List (String × α)}
    (hnodup : (entries.map Prod.fst).Nodup) {entry : String × α} (h : entry ∈ entries) :
    entry ∈ (ofList entries).toList := by
  rcases entry with ⟨key, value⟩
  rw [Entries.mem_toList_iff]
  induction entries using List.reverseRecOn with
  | nil => cases h
  | append_singleton entries last ih =>
      rcases last with ⟨name, last⟩
      rw [List.map_append, List.nodup_append] at hnodup
      obtain ⟨hinit, -, hdisjoint⟩ := hnodup
      rw [ofList_concat, find?_insert]
      rcases List.mem_append.1 h with hmem | hmem
      · -- the key of an earlier entry is not inserted again
        have hne : key ≠ name :=
          hdisjoint key (List.mem_map_of_mem hmem) name List.mem_cons_self
        rw [if_neg hne]
        exact ih hinit hmem
      · cases List.mem_singleton.1 hmem
        exact if_pos rfl

/-- In the dictionary of a list without repeated keys, a key has a value exactly when the list has
that entry. -/
theorem find?_ofList_eq_some_iff {entries : List (String × α)}
    (hnodup : (entries.map Prod.fst).Nodup) {key : String} {value : α} :
    (ofList entries).find? key = some value ↔ (key, value) ∈ entries := by
  rw [← Entries.mem_toList_iff]
  constructor
  · apply mem_of_mem_ofList
  · apply mem_ofList_of_nodup hnodup

/-- A key that no entry has is not found. -/
theorem lookup_eq_none {entries : List (String × α)} {key : String}
    (h : key ∉ entries.map Prod.fst) : entries.lookup key = none := by
  rw [List.lookup_eq_none_iff]
  intro entry hentry
  apply bne_iff_ne.2
  rintro rfl
  exact h (List.mem_map_of_mem hentry)

/-- In the dictionary of a list without repeated keys, a key has the value that the list has for
it. -/
theorem find?_ofList_of_nodup {entries : List (String × α)}
    (hnodup : (entries.map Prod.fst).Nodup) (key : String) :
    (ofList entries).find? key = entries.lookup key := by
  induction entries using List.reverseRecOn with
  | nil => rfl
  | append_singleton entries last ih =>
      rcases last with ⟨name, value⟩
      rw [List.map_append, List.nodup_append] at hnodup
      obtain ⟨hinit, -, hdisjoint⟩ := hnodup
      rw [ofList_concat, find?_insert, ih hinit, List.lookup_append]
      by_cases h : key = name
      · subst h
        have hnot : key ∉ entries.map Prod.fst :=
          fun hmem => hdisjoint key hmem key List.mem_cons_self rfl
        rw [if_pos rfl, lookup_eq_none hnot, Option.none_or, List.lookup_cons, BEq.rfl]
      · rw [if_neg h, List.lookup_cons, beq_false_of_ne h, List.lookup_nil, Option.or_none]

theorem ofList_eq_iff {a b : List (String × α)} :
    ofList a = ofList b ↔ ∀ key, a.reverse.lookup key = b.reverse.lookup key := by
  constructor
  · intro h key
    rw [← find?_ofList, ← find?_ofList, h]
  · intro h
    apply eq_of_find?
    intro key
    rw [find?_ofList, find?_ofList, h key]

theorem lookup_map (f : α → β) (entries : List (String × α)) (key : String) :
    (entries.map fun e => (e.1, f e.2)).lookup key = (entries.lookup key).map f := by
  induction entries with
  | nil => rfl
  | cons entry entries ih =>
      rw [List.map_cons, List.lookup_cons, List.lookup_cons, ih]
      cases key == entry.1 <;> rfl

end Dict

end DocQuery
