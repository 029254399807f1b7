import Mathlib.Data.List.Basic

/-!
# The last value given

Some items of a list give a value, and the others give none. A state that keeps the value it was
given last, and is not changed by items that give none, ends up with the last value given by any of
the items (`get_foldl`).
-/

set_option autoImplicit false

namespace DocQuery

variable {α β σ : Type}

/-- The value is the last one that items give. -/
def LastGiven (give : α → Option β) (items : List α) (value : β) : Prop :=
  ∃ earlier item later, items = earlier ++ item :: later ∧ give item = some value ∧
    ∀ other ∈ later, give other = none

/-- The last value that items give, if any of them gives one. -/
def lastGiven? (give : α → Option β) (items : List α) : Option β :=
  items.reverse.findSome? give

theorem lastGiven?_eq_some_iff {give : α → Option β} {items : List α} {value : β} :
    lastGiven? give items = some value ↔ LastGiven give items value := by
  rw [lastGiven?, List.findSome?_eq_some_iff]
  constructor
  · rintro ⟨later, item, earlier, hitems, hgive, hlater⟩
    refine ⟨earlier.reverse, item, later.reverse, ?_, hgive, ?_⟩
    · rw [← List.reverse_reverse items, hitems]
      simp
    · intro other hmem
      exact hlater other (List.mem_reverse.1 hmem)
  · rintro ⟨earlier, item, later, rfl, hgive, hlater⟩
    refine ⟨later.reverse, item, earlier.reverse, by simp, hgive, ?_⟩
    intro other hmem
    exact hlater other (List.mem_reverse.1 hmem)

theorem lastGiven?_eq_none_iff {give : α → Option β} {items : List α} :
    lastGiven? give items = none ↔ ∀ item ∈ items, give item = none := by
  rw [lastGiven?, List.findSome?_eq_none_iff]
  simp only [List.mem_reverse]

theorem lastGiven?_append (give : α → Option β) (items more : List α) :
    lastGiven? give (items ++ more) = (lastGiven? give more).or (lastGiven? give items) := by
  rw [lastGiven?, List.reverse_append, List.findSome?_append]
  rfl

theorem lastGiven?_cons (give : α → Option β) (item : α) (items : List α) :
    lastGiven? give (item :: items) = (lastGiven? give items).or (give item) := by
  rw [← List.singleton_append, lastGiven?_append]
  congr 1
  rw [lastGiven?, List.reverse_singleton, List.findSome?_singleton]

theorem lastGiven?_map {γ : Type} (f : β → γ) (give : α → Option β) (items : List α) :
    lastGiven? (fun item => (give item).map f) items = (lastGiven? give items).map f := by
  rw [lastGiven?, lastGiven?, List.map_findSome?]
  rfl

theorem lastGiven?_toList (give : α → Option β) (item : Option α) :
    lastGiven? give item.toList = item.bind give := by
  cases item with
  | none => rfl
  | some item => rw [Option.toList_some, lastGiven?_cons]; rfl

/-- An item that gives nothing might as well not be there. -/
theorem lastGiven?_drop {give : α → Option β} {item : α} (h : give item = none)
    (earlier later : List α) :
    lastGiven? give (earlier ++ item :: later) = lastGiven? give (earlier ++ later) := by
  rw [lastGiven?_append, lastGiven?_append, lastGiven?_cons, h, Option.or_none]

/-- **Steps that each keep the value they are given, together keep the last one.** -/
theorem get_foldl (get : σ → Option β) {step : σ → α → σ} {give : α → Option β}
    (hstep : ∀ state item, get (step state item) = (give item).or (get state))
    (items : List α) (state : σ) :
    get (items.foldl step state) = (lastGiven? give items).or (get state) := by
  induction items generalizing state with
  | nil => rfl
  | cons item items ih => rw [List.foldl_cons, ih, hstep, lastGiven?_cons, Option.or_assoc]

end DocQuery
