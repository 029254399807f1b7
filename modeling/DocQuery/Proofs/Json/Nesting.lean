import DocQuery.Proofs.Json.Reading

/-!
# Nesting of written documents

Two numbers tell how deep a document is: the depth of its deepest value, which counts every value,
and the nesting of its arrays and objects, which counts empty ones too. A reader of plain documents
counts brackets as it meets them, and what it counts over a whole document is the nesting of the
document (`Written.nesting_tokens`). A document is no deeper than it nests (`Written.depth_le_nesting`).
-/

set_option autoImplicit false

namespace DocQuery.Json

namespace Written

mutual

/-- How many arrays and objects lie inside one another at most. -/
def nesting : Written → Nat
  | .null | .bool _ | .number _ | .string _ => 0
  | .array items => 1 + itemsNesting items
  | .object members => 1 + membersNesting members

/-- How deep arrays and objects nest in items. -/
def itemsNesting : List Written → Nat
  | [] => 0
  | item :: items => max (nesting item) (itemsNesting items)

/-- How deep arrays and objects nest in members. Members that later ones replace count too. -/
def membersNesting : List (String × Written) → Nat
  | [] => 0
  | (_, member) :: members => max (nesting member) (membersNesting members)

end

mutual

/-- The deepest value of a document stands in all the arrays and objects around it. -/
theorem depth_le_nesting : (w : Written) → w.depth ≤ w.nesting
  | .null | .bool _ | .number _ | .string _ => Nat.le_refl 0
  | .array items => itemsDepth_le_nesting items
  | .object members => membersDepth_le_nesting members

theorem itemsDepth_le_nesting : (items : List Written) → itemsDepth items ≤ 1 + itemsNesting items
  | [] => Nat.zero_le _
  | item :: items => by
      have hitem := depth_le_nesting item
      have hitems := itemsDepth_le_nesting items
      rw [itemsDepth, itemsNesting]
      omega

theorem membersDepth_le_nesting : (members : List (String × Written)) →
    membersDepth members ≤ 1 + membersNesting members
  | [] => Nat.zero_le _
  | (_, member) :: members => by
      have hmember := depth_le_nesting member
      have hmembers := membersDepth_le_nesting members
      rw [membersDepth, membersNesting]
      omega

end

end Written

/-! ## Counting brackets -/

theorem le_nestingFrom (current : Nat) (tokens : List Token) :
    current ≤ nestingFrom current tokens := by
  induction tokens generalizing current with
  | nil => exact Nat.le_refl current
  | cons token tokens ih =>
      cases token with
      | openArray => exact Nat.le_max_left _ _
      | openObject => exact Nat.le_max_left _ _
      | closeArray => exact Nat.le_max_left _ _
      | closeObject => exact Nat.le_max_left _ _
      | _ => exact ih current

/-- An opening bracket or brace is followed by what is counted one level further in. -/
theorem max_nestingFrom_succ (current : Nat) (tokens : List Token) :
    max current (nestingFrom (current + 1) tokens) = nestingFrom (current + 1) tokens := by
  have hle := le_nestingFrom (current + 1) tokens
  omega

namespace Written

mutual

/-- Over a document, as many brackets are open at most as the document nests, beside those that are
open around it. -/
theorem nestingFrom_tokens : (w : Written) → (current : Nat) → (rest : List Token) →
    nestingFrom current (w.tokens ++ rest) =
      max (current + w.nesting) (nestingFrom current rest)
  | .null, current, rest | .bool _, current, rest | .number _, current, rest
  | .string _, current, rest => by
      have hle := le_nestingFrom current rest
      exact (Nat.max_eq_right hle).symm
  | .array [], current, rest => by
      show max current (max (current + 1) (nestingFrom current rest)) = _
      rw [nesting, itemsNesting]
      omega
  | .array (item :: items), current, rest => by
      have hitem := nestingFrom_tokens item (current + 1) (itemTokens items ++ rest)
      have hitems := nestingFrom_itemTokens items current rest
      rw [tokens, List.append_assoc, nesting, itemsNesting]
      show max current (nestingFrom (current + 1) (item.tokens ++ (itemTokens items ++ rest))) = _
      rw [max_nestingFrom_succ, hitem, hitems]
      omega
  | .object [], current, rest => by
      show max current (max (current + 1) (nestingFrom current rest)) = _
      rw [nesting, membersNesting]
      omega
  | .object ((key, member) :: members), current, rest => by
      have hmember := nestingFrom_tokens member (current + 1) (memberTokens members ++ rest)
      have hmembers := nestingFrom_memberTokens members current rest
      rw [tokens, List.append_assoc, nesting, membersNesting]
      show max current
        (nestingFrom (current + 1) (member.tokens ++ (memberTokens members ++ rest))) = _
      rw [max_nestingFrom_succ, hmember, hmembers]
      omega

/-- Over the further items of an array, up to its closing bracket. -/
theorem nestingFrom_itemTokens : (items : List Written) → (current : Nat) → (rest : List Token) →
    nestingFrom (current + 1) (itemTokens items ++ rest) =
      max (current + 1 + itemsNesting items) (nestingFrom current rest)
  | [], current, rest => rfl
  | item :: items, current, rest => by
      have hitem := nestingFrom_tokens item (current + 1) (itemTokens items ++ rest)
      have hitems := nestingFrom_itemTokens items current rest
      rw [itemTokens, List.append_assoc, itemsNesting]
      show nestingFrom (current + 1) (item.tokens ++ (itemTokens items ++ rest)) = _
      rw [hitem, hitems]
      omega

/-- Over the further members of an object, up to its closing brace. -/
theorem nestingFrom_memberTokens : (members : List (String × Written)) → (current : Nat) →
    (rest : List Token) →
    nestingFrom (current + 1) (memberTokens members ++ rest) =
      max (current + 1 + membersNesting members) (nestingFrom current rest)
  | [], current, rest => rfl
  | (key, member) :: members, current, rest => by
      have hmember := nestingFrom_tokens member (current + 1) (memberTokens members ++ rest)
      have hmembers := nestingFrom_memberTokens members current rest
      rw [memberTokens, List.append_assoc, membersNesting]
      show nestingFrom (current + 1) (member.tokens ++ (memberTokens members ++ rest)) = _
      rw [hmember, hmembers]
      omega

end

/-- **The brackets of a document nest as the document does.** -/
theorem nesting_tokens (w : Written) : Json.nesting w.tokens = w.nesting := by
  have h := nestingFrom_tokens w 0 []
  rw [List.append_nil, Nat.zero_add] at h
  rw [Json.nesting, h]
  exact Nat.max_zero _

end Written

end DocQuery.Json
