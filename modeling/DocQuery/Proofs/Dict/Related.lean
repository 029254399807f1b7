import DocQuery.Dict
import Mathlib.Data.List.Forall2

/-!
# Parts related one by one

Lists whose elements are related one by one (`forall₂_iff_getElem?`), and dictionaries with the same
keys whose values are. Whatever stands on one side has a partner on the other
(`exists_mem_of_forall₂`, `Entries.Forall₂.exists_mem_left` and `Entries.Forall₂.exists_mem_right`).
-/

set_option autoImplicit false

namespace DocQuery

/-- Every element on the right is related to one on the left. -/
theorem exists_mem_of_forall₂ {α β : Type} {r : α → β → Prop} {as : List α} {bs : List β}
    (h : List.Forall₂ r as bs) {b : β} (hb : b ∈ bs) : ∃ a ∈ as, r a b := by
  induction h with
  | nil => cases hb
  | cons hab _ ih =>
      rcases List.mem_cons.1 hb with rfl | htail
      · exact ⟨_, List.mem_cons_self, hab⟩
      · obtain ⟨a, ha, har⟩ := ih htail
        exact ⟨a, List.mem_cons_of_mem _ ha, har⟩

/-- Lists are related one by one when they have the same length and are related at every position. -/
theorem forall₂_iff_getElem? {α β : Type} {r : α → β → Prop} {as : List α} {bs : List β} :
    List.Forall₂ r as bs ↔
      bs.length = as.length ∧
        ∀ (position : Nat) (b : β), bs[position]? = some b →
          ∃ a, as[position]? = some a ∧ r a b := by
  rw [List.forall₂_iff_get]
  constructor
  · rintro ⟨hlength, hrelated⟩
    refine ⟨hlength.symm, ?_⟩
    intro position b hb
    obtain ⟨hlt, rfl⟩ := List.getElem?_eq_some_iff.1 hb
    have hlt' : position < as.length := by omega
    exact ⟨as[position], List.getElem?_eq_getElem hlt', hrelated position hlt' hlt⟩
  · rintro ⟨hlength, hrelated⟩
    refine ⟨hlength.symm, ?_⟩
    intro position hlt hlt'
    obtain ⟨a, ha, hr⟩ := hrelated position _ (List.getElem?_eq_getElem hlt')
    rw [List.getElem?_eq_getElem hlt] at ha
    obtain rfl := Option.some.inj ha
    exact hr

namespace Entries

/-- Entries with the same keys and related values. -/
inductive Forall₂ {α β : Type} (r : α → β → Prop) :
    {bound : Option String} → Entries α bound → Entries β bound → Prop
  | nil {bound : Option String} : Forall₂ r (.nil : Entries α bound) (.nil : Entries β bound)
  | cons {bound : Option String} {key : String} (above : Above bound key) {a : α} {b : β}
      {as : Entries α (some key)} {bs : Entries β (some key)} (head : r a b)
      (tail : Forall₂ r as bs) : Forall₂ r (.cons key above a as) (.cons key above b bs)

variable {α β : Type} {r : α → β → Prop} {bound : Option String} {as : Entries α bound}
  {bs : Entries β bound}

theorem Forall₂.keys_eq (h : Forall₂ r as bs) : as.keys = bs.keys := by
  induction h with
  | nil => rfl
  | cons above _ _ ih => rw [keys, keys, ih]

/-- Every entry on the right is related to one on the left. -/
theorem Forall₂.exists_mem_left (h : Forall₂ r as bs) {entry : String × β}
    (hentry : entry ∈ bs.toList) : ∃ a, (entry.1, a) ∈ as.toList ∧ r a entry.2 := by
  induction h with
  | nil => cases hentry
  | cons above hab _ ih =>
      rw [toList] at hentry ⊢
      rcases List.mem_cons.1 hentry with rfl | htail
      · exact ⟨_, List.mem_cons_self, hab⟩
      · obtain ⟨a, ha, har⟩ := ih htail
        exact ⟨a, List.mem_cons_of_mem _ ha, har⟩

/-- Every entry on the left is related to one on the right. -/
theorem Forall₂.exists_mem_right (h : Forall₂ r as bs) {entry : String × α}
    (hentry : entry ∈ as.toList) : ∃ b, (entry.1, b) ∈ bs.toList ∧ r entry.2 b := by
  induction h with
  | nil => cases hentry
  | cons above hab _ ih =>
      rw [toList] at hentry ⊢
      rcases List.mem_cons.1 hentry with rfl | htail
      · exact ⟨_, List.mem_cons_self, hab⟩
      · obtain ⟨b, hb, hbr⟩ := ih htail
        exact ⟨b, List.mem_cons_of_mem _ hb, hbr⟩

theorem Forall₂.imp_of_mem {r' : α → β → Prop} (h : Forall₂ r as bs)
    (himp : ∀ entry ∈ as.toList, ∀ b, r entry.2 b → r' entry.2 b) : Forall₂ r' as bs := by
  induction h with
  | nil => exact .nil
  | cons above hab _ ih =>
      refine .cons above (himp _ List.mem_cons_self _ hab) (ih ?_)
      intro entry hentry
      exact himp entry (List.mem_cons_of_mem _ hentry)

end Entries

end DocQuery
