/-!
# Dictionaries

A dictionary maps string keys to values. Its entries stand in ascending order of the keys, and no
key occurs twice: `Entries α bound` is the type of entry lists whose keys ascend above `bound`, so
the order is part of the type and two dictionaries with the same entries are equal.

The order of strings is the order of their code points, which is also the byte order of their UTF-8
form. Main statement: looking up a key after an insertion gives the inserted value at that key and
the old one everywhere else (`Entries.find?_insert`).
-/

set_option autoImplicit false

namespace DocQuery

/-- The key lies above the bound; every key lies above no bound. -/
def Above (bound : Option String) (key : String) : Prop :=
  ∀ b, bound = some b → b < key

theorem above_none (key : String) : Above none key := by
  intro b h
  cases h

theorem above_some {b key : String} (h : b < key) : Above (some b) key := by
  intro b' h'
  cases h'
  exact h

/-- Entries whose keys ascend above a bound. -/
inductive Entries (α : Type) : Option String → Type where
  | nil {bound : Option String} : Entries α bound
  | cons {bound : Option String} (key : String) (above : Above bound key) (value : α)
      (rest : Entries α (some key)) : Entries α bound

/-- A dictionary: entries with ascending keys, from no bound on. -/
abbrev Dict (α : Type) : Type := Entries α none

namespace Entries

variable {α β : Type}

/-- The entries in key order. -/
def toList : {bound : Option String} → Entries α bound → List (String × α)
  | _, nil => []
  | _, cons key _ value rest => (key, value) :: rest.toList

/-- The keys in ascending order. -/
def keys : {bound : Option String} → Entries α bound → List String
  | _, nil => []
  | _, cons key _ _ rest => key :: rest.keys

/-- The value at a key. -/
def find? (key : String) : {bound : Option String} → Entries α bound → Option α
  | _, nil => none
  | _, cons k _ value rest => if key = k then some value else rest.find? key

/-- Apply a function to every value. -/
def map (f : α → β) : {bound : Option String} → Entries α bound → Entries β bound
  | _, nil => nil
  | _, cons key above value rest => cons key above (f value) (rest.map f)

theorem lt_of_not_lt_of_ne {a b : String} (h : ¬ a < b) (hne : a ≠ b) : b < a := by
  by_cases hba : b < a
  · exact hba
  · exact absurd (String.le_antisymm (String.not_lt.1 hba) (String.not_lt.1 h)) hne

/-- Put a value at a key, in place of the value the key had. -/
def insert (key : String) (value : α) :
    {bound : Option String} → Above bound key → Entries α bound → Entries α bound
  | _, above, nil => cons key above value nil
  | _, above, cons k above' old rest =>
      if hlt : key < k then cons key above value (cons k (above_some hlt) old rest)
      else if heq : key = k then cons k above' value rest
      else cons k above' old (insert key value (above_some (lt_of_not_lt_of_ne hlt heq)) rest)

/-- A key below every key of the entries is not found. -/
theorem find?_eq_none_of_lt {key : String} :
    {k : String} → (rest : Entries α (some k)) → key < k → rest.find? key = none
  | _, nil, _ => rfl
  | _, cons k' above _ rest, h => by
      have hlt : key < k' := String.lt_trans h (above _ rfl)
      have hne : key ≠ k' := fun e => String.lt_irrefl k' (e ▸ hlt)
      simp only [find?, hne, if_false]
      exact find?_eq_none_of_lt rest hlt

/-- **Lookup after insertion.** The inserted key has the inserted value; every other key has the
value it had. -/
theorem find?_insert {key : String} (value : α) (other : String) :
    {bound : Option String} → (above : Above bound key) → (entries : Entries α bound) →
      (entries.insert key value above).find? other =
        if other = key then some value else entries.find? other
  | _, _, nil => rfl
  | _, above, cons k above' old rest => by
      unfold insert
      by_cases hlt : key < k
      · simp only [hlt, dif_pos, find?]
      · by_cases heq : key = k
        · subst heq
          simp only [hlt, dif_neg, not_false_eq_true, dif_pos, find?]
          by_cases h : other = key
          · simp [h]
          · simp [h]
        · simp only [hlt, heq, dif_neg, not_false_eq_true, find?]
          rw [find?_insert value other]
          by_cases h : other = k
          · have : other ≠ key := fun e => heq (e ▸ h)
            simp [h, Ne.symm heq]
          · simp [h]

theorem toList_map (f : α → β) :
    {bound : Option String} → (entries : Entries α bound) →
      (entries.map f).toList = entries.toList.map (fun e => (e.1, f e.2))
  | _, nil => rfl
  | _, cons _ _ _ rest => by simp [map, toList, toList_map f rest]

/-- Entries are determined by their list. -/
theorem toList_injective :
    {bound : Option String} → (a b : Entries α bound) → a.toList = b.toList → a = b
  | _, nil, nil, _ => rfl
  | _, nil, cons _ _ _ _, h => by simp [toList] at h
  | _, cons _ _ _ _, nil, h => by simp [toList] at h
  | _, cons k _ v rest, cons k' _ v' rest', h => by
      simp only [toList, List.cons.injEq, Prod.mk.injEq] at h
      obtain ⟨⟨rfl, rfl⟩, hrest⟩ := h
      rw [toList_injective rest rest' hrest]

end Entries

namespace Dict

variable {α : Type}

/-- The dictionary without entries. -/
def empty : Dict α := .nil

/-- Put a value at a key, in place of the value the key had. -/
def insert (dict : Dict α) (key : String) (value : α) : Dict α :=
  Entries.insert key value (above_none key) dict

/-- The dictionary with one entry. -/
def single (key : String) (value : α) : Dict α :=
  .cons key (above_none key) value .nil

/-- The dictionary of a list of entries; of a repeated key the last value stays. -/
def ofList (entries : List (String × α)) : Dict α :=
  entries.foldl (fun dict entry => dict.insert entry.1 entry.2) empty

/-- Lookup after insertion, for dictionaries. -/
theorem find?_insert (dict : Dict α) (key : String) (value : α) (other : String) :
    (dict.insert key value).find? other = if other = key then some value else dict.find? other :=
  Entries.find?_insert value other (above_none key) dict

end Dict

end DocQuery
