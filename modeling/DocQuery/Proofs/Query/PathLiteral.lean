import DocQuery.Proofs.Path.NormalForm
import DocQuery.Query.Expr
import Mathlib.Data.List.Forall2

/-!
# Paths as literals

The literal of a path is the list of its steps: keys are strings, and indexes are integers of 64 bits
with a sign. Such an integer has the value of an index that needs 63 bits at most, and for any other
index it lies below zero (`toInt_ofNat_position`). So the literal stands for the path exactly when no
index is that large, and holds a negative integer exactly when some index is (`Expr.ofPath_exact`).
-/

set_option autoImplicit false

namespace DocQuery

/-! ## Steps and their literals -/

namespace Segment

/-- The integers with a sign have just the values below this, from zero on. -/
def signedBound : Nat := 2 ^ 63

/-- The step is a key, or an index that some integer with a sign has the value of. -/
def Representable : Segment → Prop
  | key _ => True
  | index position => position < signedBound

instance : (segment : Segment) → Decidable segment.Representable
  | key _ => inferInstanceAs (Decidable True)
  | index position => inferInstanceAs (Decidable (position < signedBound))

/-- The literal stands for the step: it is the string of the key, or the integer with the value of
the index. -/
inductive StandsFor : Value → Segment → Prop where
  | key (name : String) : StandsFor (.string name) (.key name)
  | index {position : Nat} {n : Int64} (value : n.toInt = position) :
      StandsFor (.long n) (.index position)

/-- The literal is an integer below zero, less than the index by the number of all indexes. -/
inductive WrapsAround : Value → Segment → Prop where
  | index {position : Nat} {n : Int64} (value : n.toInt = (position : Int) - indexBound)
      (negative : n.toInt < 0) : WrapsAround (.long n) (.index position)

/-- The integer of an index is the index, or the index less the number of all indexes. -/
theorem toInt_ofNat_position {position : Nat} (h : position < indexBound) :
    (Int64.ofNat position).toInt =
      if position < signedBound then (position : Int) else (position : Int) - indexBound := by
  have hbound : indexBound = 2 * signedBound := rfl
  have hsize : ((Int64.size : Nat) : Int) = indexBound := rfl
  have hmod : (position : Int) % indexBound = position := Int.emod_eq_of_lt (by omega) (by omega)
  rw [Int64.toInt_ofNat', Int.bmod_def, hsize, hmod]
  split <;> split <;> omega

theorem standsFor_ofSegment {segment : Segment} (h : segment.Representable) :
    StandsFor (Expr.ofSegment segment).value segment := by
  cases segment with
  | key name => exact .key name
  | index position =>
      apply StandsFor.index
      have hbound : indexBound = 2 * signedBound := rfl
      have hlt : position < signedBound := h
      rw [toInt_ofNat_position (by omega), if_pos hlt]

theorem wrapsAround_ofSegment {position : Nat} (hrange : position < indexBound)
    (h : ¬ (index position).Representable) :
    WrapsAround (Expr.ofSegment (.index position)).value (.index position) := by
  have hge : ¬ position < signedBound := h
  have hvalue := toInt_ofNat_position hrange
  rw [if_neg hge] at hvalue
  apply WrapsAround.index hvalue
  omega

/-- An integer below zero stands for no step. -/
theorem WrapsAround.not_standsFor {item : Value} {segment : Segment} (h : WrapsAround item segment) :
    ¬ StandsFor item segment := by
  intro hstands
  cases h with
  | index value negative =>
      cases hstands with
      | index value' => omega

end Segment

/-! ## Paths and their literals -/

namespace Expr

open Segment (StandsFor WrapsAround Representable)

/-- The items of the literal of a path. -/
theorem value_ofPath (path : Path) :
    (ofPath path).value = .array (path.map fun segment => (ofSegment segment).value) := by
  rw [ofPath, list, List.map_map]
  rfl

section

variable {path : Path} (haddressable : path.Addressable)

include haddressable

theorem standsFor_or_wrapsAround {segment : Segment} (hmem : segment ∈ path) :
    (segment.Representable ∧ StandsFor (ofSegment segment).value segment) ∨
      (¬ segment.Representable ∧ WrapsAround (ofSegment segment).value segment) := by
  by_cases h : segment.Representable
  · exact .inl ⟨h, Segment.standsFor_ofSegment h⟩
  · refine .inr ⟨h, ?_⟩
    cases segment with
    | key name => exact absurd trivial h
    | index position => exact Segment.wrapsAround_ofSegment (haddressable position hmem) h

theorem standsFor_ofSegment_iff {segment : Segment} (hmem : segment ∈ path) :
    StandsFor (ofSegment segment).value segment ↔ segment.Representable := by
  rcases standsFor_or_wrapsAround haddressable hmem with ⟨h, hstands⟩ | ⟨h, hwraps⟩
  · exact iff_of_true hstands h
  · exact iff_of_false hwraps.not_standsFor h

theorem ofSegment_negative_iff {segment : Segment} (hmem : segment ∈ path) :
    (∃ n : Int64, (ofSegment segment).value = .long n ∧ n.toInt < 0) ↔
      ¬ segment.Representable := by
  rcases standsFor_or_wrapsAround haddressable hmem with ⟨h, hstands⟩ | ⟨h, hwraps⟩
  · refine iff_of_false ?_ (not_not.2 h)
    rintro ⟨n, hn, hnegative⟩
    rw [hn] at hstands
    cases hstands with
    | index value => omega
  · refine iff_of_true ?_ h
    generalize (ofSegment segment).value = item at hwraps
    cases hwraps with
    | index value negative => exact ⟨_, rfl, negative⟩

end

/-- **The literal of a path.** It has one item for each step, in order: the string of a key, and the
integer of an index that needs 63 bits at most; any other index is written as an integer below zero.
So the literal stands for the path exactly when it has no such index, and it has an integer below
zero exactly when it has one. -/
theorem ofPath_exact (path : Path) (haddressable : path.Addressable) :
    ∃ items, (ofPath path).value = .array items ∧
      List.Forall₂ (fun item segment =>
        (segment.Representable ∧ StandsFor item segment) ∨
          (¬ segment.Representable ∧ WrapsAround item segment)) items path ∧
      (List.Forall₂ StandsFor items path ↔ ∀ segment ∈ path, segment.Representable) ∧
      ((∃ n : Int64, .long n ∈ items ∧ n.toInt < 0) ↔
        ∃ segment ∈ path, ¬ segment.Representable) := by
  refine ⟨_, value_ofPath path, ?_, ?_, ?_⟩
  · rw [List.forall₂_map_left_iff, List.forall₂_same]
    intro segment hmem
    exact standsFor_or_wrapsAround haddressable hmem
  · rw [List.forall₂_map_left_iff, List.forall₂_same]
    exact forall₂_congr fun segment hmem => standsFor_ofSegment_iff haddressable hmem
  · constructor
    · rintro ⟨n, hitem, hnegative⟩
      obtain ⟨segment, hmem, hvalue⟩ := List.mem_map.1 hitem
      exact ⟨segment, hmem, (ofSegment_negative_iff haddressable hmem).1 ⟨n, hvalue, hnegative⟩⟩
    · rintro ⟨segment, hmem, h⟩
      obtain ⟨n, hvalue, hnegative⟩ := (ofSegment_negative_iff haddressable hmem).2 h
      exact ⟨n, List.mem_map.2 ⟨segment, hmem, hvalue⟩, hnegative⟩

/-- The last index that is written as itself, and the first one that is not. -/
theorem ofPath_exact_bounds :
    let last := Path.parse "data/9223372036854775807"
    let first := Path.parse "data/9223372036854775808"
    (last.Addressable ∧ first.Addressable) ∧
      (∃ items, (ofPath last).value = .array items ∧ List.Forall₂ StandsFor items last) ∧
      ∃ items, (ofPath first).value = .array items ∧ ∃ n : Int64, .long n ∈ items ∧ n.toInt < 0 := by
  intro last first
  have hread := Path.expressible_parse
  have hlast : ∀ segment ∈ Path.parse "data/9223372036854775807", segment.Representable := by
    decide
  have hfirst : ∃ segment ∈ Path.parse "data/9223372036854775808", ¬ segment.Representable := by
    decide
  obtain ⟨items, hitems, -, hstands, -⟩ := ofPath_exact last (hread _).1
  obtain ⟨items', hitems', -, -, hnegative⟩ := ofPath_exact first (hread _).1
  exact ⟨⟨(hread _).1, (hread _).1⟩, ⟨items, hitems, hstands.2 hlast⟩, items', hitems',
    hnegative.2 hfirst⟩

/-- The first index beyond the bound, read from a text, is written as the least integer. -/
theorem ofPath_not_standsFor :
    ¬ ∀ path : Path, path.Addressable →
      ∃ items, (ofPath path).value = .array items ∧ List.Forall₂ StandsFor items path ∧
        ∀ n : Int64, .long n ∈ items → 0 ≤ n.toInt := by
  intro hall
  have hpath : Path.parse "9223372036854775808" = [.index 9223372036854775808] := by decide
  have haddressable := (Path.expressible_parse "9223372036854775808").1
  obtain ⟨items, hitems, -, hpositive⟩ := hall _ haddressable
  rw [hpath, value_ofPath] at hitems
  obtain rfl := Value.array.inj hitems
  have hsign := hpositive (Int64.ofNat 9223372036854775808) List.mem_cons_self
  exact absurd hsign (by decide)

end Expr

end DocQuery
