import DocQuery.Codec
import DocQuery.Proofs.Results
import Mathlib.Data.List.Forall2
import Mathlib.Data.List.Nodup

/-!
# Collected failures

Data with many parts is decoded part by part, and the failures are gathered under labels. A part that
fails is listed whatever the other parts do, and a part that does not fail is not (`Collects`). When
no label occurs twice, that and the order of the labels determine the list
(`Collects.eq_error_iff_lists`). When no part fails, the data of the parts stand in the same order
(`decodeItems_eq_ok_iff`).
-/

set_option autoImplicit false

namespace DocQuery

section

variable {label ε α β γ : Type}

/-- The failure of a result. -/
def failure? : Except ε α → Option ε
  | .ok _ => none
  | .error e => some e

theorem failure?_eq_some_iff {result : Except ε α} {e : ε} :
    failure? result = some e ↔ result = .error e := by
  cases result with
  | ok a => exact ⟨by rintro ⟨⟩, by rintro ⟨⟩⟩
  | error e' =>
      constructor
      · rintro ⟨⟩
        rfl
      · rintro ⟨⟩
        rfl

theorem failure?_eq_none_iff {result : Except ε α} :
    failure? result = none ↔ ∃ a, result = .ok a := by
  cases result with
  | ok a => exact ⟨fun _ => ⟨a, rfl⟩, fun _ => rfl⟩
  | error e =>
      constructor
      · rintro ⟨⟩
      · rintro ⟨a, ⟨⟩⟩

/-- The failures among labelled outcomes. -/
def failuresOf (outcomes : List (label × Option ε)) : List (label × ε) :=
  outcomes.filterMap fun outcome => outcome.2.map fun e => (outcome.1, e)

/-- The result joins the outcomes: it is data when none of them fails, and otherwise the failures of
all that fail. -/
def Collects (outcomes : List (label × Option ε)) : Except (List (label × ε)) β → Prop
  | .ok _ => failuresOf outcomes = []
  | .error failures => failuresOf outcomes = failures ∧ failures ≠ []

theorem collects_gather (l : label) (combine : α → β → γ) {outcomes : List (label × Option ε)}
    {first : Except ε α} {rest : Except (List (label × ε)) β} (h : Collects outcomes rest) :
    Collects ((l, failure? first) :: outcomes) (gather l combine first rest) := by
  cases first with
  | ok a =>
      cases rest with
      | ok b => exact h
      | error failures => exact h
  | error e =>
      have hcons : failuresOf ((l, some e) :: outcomes) = (l, e) :: failuresOf outcomes := rfl
      cases rest with
      | ok b =>
          refine ⟨?_, List.cons_ne_nil _ _⟩
          rw [failure?, hcons, h]
      | error failures =>
          refine ⟨?_, List.cons_ne_nil _ _⟩
          rw [failure?, hcons, h.1]

/-- A collected result is data exactly when there are no failures. -/
theorem Collects.isOk_iff {outcomes : List (label × Option ε)}
    {result : Except (List (label × ε)) β} (h : Collects outcomes result) :
    (∃ b, result = .ok b) ↔ failuresOf outcomes = [] := by
  cases result with
  | ok b => exact ⟨fun _ => h, fun _ => ⟨b, rfl⟩⟩
  | error failures =>
      constructor
      · rintro ⟨b, ⟨⟩⟩
      · intro hnil
        exact absurd (h.1.symm.trans hnil) h.2

/-- A collected result is an error exactly with the failures. -/
theorem Collects.eq_error_iff {outcomes : List (label × Option ε)}
    {result : Except (List (label × ε)) β} (h : Collects outcomes result)
    {failures : List (label × ε)} :
    result = .error failures ↔ failuresOf outcomes = failures ∧ failures ≠ [] := by
  cases result with
  | ok b =>
      constructor
      · rintro ⟨⟩
      · rintro ⟨hfailures, hne⟩
        exact absurd (hfailures.symm.trans h) hne
  | error failures' =>
      constructor
      · rintro ⟨⟩
        exact h
      · rintro ⟨hfailures, -⟩
        rw [← h.1, hfailures]

/-! ## The failures of outcomes -/

theorem mem_failuresOf_iff {outcomes : List (label × Option ε)} {l : label} {e : ε} :
    (l, e) ∈ failuresOf outcomes ↔ (l, some e) ∈ outcomes := by
  rw [failuresOf, List.mem_filterMap]
  constructor
  · rintro ⟨⟨l', outcome⟩, hmem, hmap⟩
    cases outcome with
    | none => cases hmap
    | some e' =>
        cases hmap
        exact hmem
  · intro hmem
    exact ⟨(l, some e), hmem, rfl⟩

theorem failuresOf_eq_nil_iff {outcomes : List (label × Option ε)} :
    failuresOf outcomes = [] ↔ ∀ outcome ∈ outcomes, outcome.2 = none := by
  rw [failuresOf, List.filterMap_eq_nil_iff]
  refine forall_congr' fun outcome => imp_congr_right fun _ => ?_
  exact Option.map_eq_none_iff

/-- The failures stand in the order of the outcomes. -/
theorem failuresOf_sublist (outcomes : List (label × Option ε)) :
    ((failuresOf outcomes).map Prod.fst).Sublist (outcomes.map Prod.fst) := by
  induction outcomes with
  | nil => exact .slnil
  | cons outcome outcomes ih =>
      rcases outcome with ⟨l, outcome⟩
      cases outcome with
      | none => exact ih.cons l
      | some e => exact ih.cons_cons l

/-! ## Complete lists -/

/-- The list holds exactly the faults, under labels in the given order, and at least one. -/
def Lists (labels : List label) (faults : label → ε → Prop) (failures : List (label × ε)) : Prop :=
  failures ≠ [] ∧ (failures.map Prod.fst).Sublist labels ∧ ∀ l e, (l, e) ∈ failures ↔ faults l e

theorem mem_labels {labels : List label} {a : List (label × ε)}
    (h : (a.map Prod.fst).Sublist labels) {x : label × ε} (hx : x ∈ a) : x.1 ∈ labels :=
  h.subset (List.mem_map_of_mem hx)

/-- The elements of a list determine what follows its first label. -/
theorem tail_subset {l : label} {labels : List label} (hl : l ∉ labels) {e : ε}
    {a b : List (label × ε)} (ha : (a.map Prod.fst).Sublist labels)
    (hmem : ∀ x ∈ (l, e) :: a, x ∈ (l, e) :: b) {x : label × ε} (hx : x ∈ a) : x ∈ b := by
  rcases List.mem_cons.1 (hmem x (List.mem_cons_of_mem _ hx)) with rfl | hb
  · exact absurd (mem_labels ha hx) hl
  · exact hb

/-- Lists with labels in the same order and the same elements are the same. -/
theorem eq_of_sublist_of_mem_iff {labels : List label} (hnodup : labels.Nodup)
    {a b : List (label × ε)} (ha : (a.map Prod.fst).Sublist labels)
    (hb : (b.map Prod.fst).Sublist labels) (hmem : ∀ x, x ∈ a ↔ x ∈ b) : a = b := by
  -- the labels are gone through in order, and each list has an element for the first or not
  induction labels generalizing a b with
  | nil =>
      rw [List.map_eq_nil_iff.1 (List.sublist_nil.1 ha),
        List.map_eq_nil_iff.1 (List.sublist_nil.1 hb)]
  | cons l labels ih =>
      obtain ⟨hl, hnodup'⟩ := List.nodup_cons.1 hnodup
      rcases List.sublist_cons_iff.1 ha with ha' | ⟨ra, hra, ha'⟩
      · -- the label is not used on the left, so neither on the right
        rcases List.sublist_cons_iff.1 hb with hb' | ⟨rb, hrb, hb'⟩
        · exact ih hnodup' ha' hb' hmem
        · obtain ⟨⟨l', e⟩, b', rfl, rfl, rfl⟩ := List.map_eq_cons_iff.1 hrb
          exact absurd (mem_labels ha' ((hmem _).2 List.mem_cons_self)) hl
      · obtain ⟨⟨l', e⟩, a', rfl, rfl, rfl⟩ := List.map_eq_cons_iff.1 hra
        rcases List.sublist_cons_iff.1 hb with hb' | ⟨rb, hrb, hb'⟩
        · exact absurd (mem_labels hb' ((hmem _).1 List.mem_cons_self)) hl
        · obtain ⟨⟨l'', e'⟩, b', rfl, hl'', rfl⟩ := List.map_eq_cons_iff.1 hrb
          have hfirst : (l', e) = (l'', e') := by
            rcases List.mem_cons.1 ((hmem (l', e)).1 List.mem_cons_self) with heq | htail
            · exact heq
            · exact absurd (mem_labels hb' htail) hl
          rw [← hfirst] at hmem ⊢
          -- the first elements are the same, and their label does not come back
          have htails : a' = b' := by
            refine ih hnodup' ha' hb' fun x => ⟨fun hx => ?_, fun hx => ?_⟩
            · exact tail_subset hl ha' (fun y hy => (hmem y).1 hy) hx
            · exact tail_subset hl hb' (fun y hy => (hmem y).2 hy) hx
          rw [htails]

/-- A collected result is an error exactly with the complete list of the faults. -/
theorem Collects.eq_error_iff_lists {outcomes : List (label × Option ε)}
    {result : Except (List (label × ε)) β} (h : Collects outcomes result)
    (hnodup : (outcomes.map Prod.fst).Nodup) {faults : label → ε → Prop}
    (hfaults : ∀ l e, (l, some e) ∈ outcomes ↔ faults l e) {failures : List (label × ε)} :
    result = .error failures ↔ Lists (outcomes.map Prod.fst) faults failures := by
  rw [h.eq_error_iff]
  constructor
  · rintro ⟨rfl, hne⟩
    refine ⟨hne, failuresOf_sublist outcomes, fun l e => ?_⟩
    rw [mem_failuresOf_iff, hfaults]
  · rintro ⟨hne, hsublist, hmem⟩
    refine ⟨eq_of_sublist_of_mem_iff hnodup (failuresOf_sublist outcomes) hsublist ?_, hne⟩
    rintro ⟨l, e⟩
    rw [mem_failuresOf_iff, hfaults, hmem]

/-- A collected result is data exactly when there are no faults. -/
theorem Collects.isOk_iff_forall {outcomes : List (label × Option ε)}
    {result : Except (List (label × ε)) β} (h : Collects outcomes result) :
    (∃ b, result = .ok b) ↔ ∀ outcome ∈ outcomes, outcome.2 = none := by
  rw [h.isOk_iff, failuresOf_eq_nil_iff]

/-! ## Collected data -/

/-- Joined results are data when both are. -/
theorem gather_eq_ok_iff {l : label} {combine : α → β → γ} {first : Except ε α}
    {rest : Except (List (label × ε)) β} {c : γ} :
    gather l combine first rest = .ok c ↔
      ∃ a b, first = .ok a ∧ rest = .ok b ∧ combine a b = c := by
  cases first <;> cases rest <;> simp [gather]

end

/-- Items are decoded to the list of their data, one by one and in order. -/
theorem decodeItems_eq_ok_iff {α : Type} {label : Nat → Path}
    {decode : Value → Except FieldError α} {position : Nat} {items : List Value} {data : List α} :
    decodeItems label decode position items = .ok data ↔
      List.Forall₂ (fun item x => decode item = .ok x) items data := by
  induction items generalizing position data with
  | nil =>
      rw [decodeItems, List.forall₂_nil_left_iff, Except.ok.injEq]
      exact eq_comm
  | cons item items ih =>
      rw [decodeItems, gather_eq_ok_iff, List.forall₂_cons_left_iff]
      constructor
      · rintro ⟨x, xs, hx, hxs, rfl⟩
        exact ⟨x, xs, hx, ih.1 hxs, rfl⟩
      · rintro ⟨x, xs, hx, hxs, rfl⟩
        exact ⟨x, xs, hx, ih.2 hxs, rfl⟩

end DocQuery
