import DocQuery.Json.Reader
import DocQuery.Proofs.Dict.Lookup

/-!
# Documents as they are written

A written document keeps its members in the order of the text and keeps repeated keys. It has
tokens, a depth that counts every value it holds, and a tree that it denotes, in which the last of
repeated members stays. A layer is an array or object that is still open, up to the next value; a
stack of layers is the part of a text before a value.

A text that holds the tokens of a written document is exactly one document: the tokens are given
here without the reader.
-/

set_option autoImplicit false

namespace DocQuery.Json

/-- A document as it is written. -/
inductive Written where
  | null
  | bool (b : Bool)
  | number (n : Number)
  | string (s : String)
  | array (items : List Written)
  /-- The members in the order of the text; keys may repeat. -/
  | object (members : List (String × Written))

namespace Written

mutual

/-- The tokens of a document. -/
def tokens : Written → List Token
  | .null => [.null]
  | .bool b => [.bool b]
  | .number n => [.number n]
  | .string s => [.string s]
  | .array [] => [.openArray, .closeArray]
  | .array (item :: items) => .openArray :: tokens item ++ itemTokens items
  | .object [] => [.openObject, .closeObject]
  | .object ((key, member) :: members) =>
      .openObject :: .string key :: .colon :: tokens member ++ memberTokens members

/-- The tokens of the further items of an array, with its closing bracket. -/
def itemTokens : List Written → List Token
  | [] => [.closeArray]
  | item :: items => .comma :: tokens item ++ itemTokens items

/-- The tokens of the further members of an object, with its closing brace. -/
def memberTokens : List (String × Written) → List Token
  | [] => [.closeObject]
  | (key, member) :: members =>
      .comma :: .string key :: .colon :: tokens member ++ memberTokens members

end

mutual

/-- The tree that a document denotes; of a repeated key the last member stays. -/
def toJson : Written → Json
  | .null => .null
  | .bool b => .bool b
  | .number n => .number n
  | .string s => .string s
  | .array items => .array (itemsToJson items)
  | .object members => .object (Dict.ofList (membersToJson members))

/-- The trees of items. -/
def itemsToJson : List Written → List Json
  | [] => []
  | item :: items => toJson item :: itemsToJson items

/-- The keys and trees of members. -/
def membersToJson : List (String × Written) → List (String × Json)
  | [] => []
  | (key, member) :: members => (key, toJson member) :: membersToJson members

end

mutual

/-- How deep the deepest value lies, the document itself at depth zero. -/
def depth : Written → Nat
  | .null | .bool _ | .number _ | .string _ => 0
  | .array items => itemsDepth items
  | .object members => membersDepth members

/-- How deep the deepest value in items lies. -/
def itemsDepth : List Written → Nat
  | [] => 0
  | item :: items => max (1 + depth item) (itemsDepth items)

/-- How deep the deepest value in members lies. Members that later ones replace count too. -/
def membersDepth : List (String × Written) → Nat
  | [] => 0
  | (_, member) :: members => max (1 + depth member) (membersDepth members)

end

/-- Induction on written documents: items and members come with their hypotheses. -/
@[elab_as_elim]
theorem rec' {motive : Written → Prop} (null : motive .null) (bool : ∀ b, motive (.bool b))
    (number : ∀ n, motive (.number n)) (string : ∀ s, motive (.string s))
    (array : ∀ items, (∀ item ∈ items, motive item) → motive (.array items))
    (object : ∀ members, (∀ member ∈ members, motive member.2) → motive (.object members)) :
    ∀ w, motive w
  | .null => null
  | .bool b => bool b
  | .number n => number n
  | .string s => string s
  | .array items =>
      array items fun item _ => rec' null bool number string array object item
  | .object members =>
      object members fun member _ => rec' null bool number string array object member.2
termination_by w => sizeOf w
decreasing_by
  · have hlt := List.sizeOf_lt_of_mem ‹item ∈ items›
    simp only [Written.array.sizeOf_spec]
    omega
  · have hlt := List.sizeOf_lt_of_mem ‹member ∈ members›
    have hsnd : sizeOf member = 1 + sizeOf member.1 + sizeOf member.2 := by
      cases member
      rfl
    simp only [Written.object.sizeOf_spec]
    omega

theorem itemsToJson_eq_map (items : List Written) : itemsToJson items = items.map toJson := by
  induction items with
  | nil => rfl
  | cons item items ih => rw [itemsToJson, ih, List.map_cons]

theorem membersToJson_eq_map (members : List (String × Written)) :
    membersToJson members = members.map fun member => (member.1, member.2.toJson) := by
  induction members with
  | nil => rfl
  | cons member members ih => rw [membersToJson, ih, List.map_cons]

theorem itemsDepth_concat (items : List Written) (last : Written) :
    itemsDepth (items ++ [last]) = max (itemsDepth items) (1 + last.depth) := by
  induction items with
  | nil => simp [itemsDepth]
  | cons item items ih => rw [List.cons_append, itemsDepth, itemsDepth, ih, Nat.max_assoc]

theorem membersDepth_concat (members : List (String × Written)) (key : String) (last : Written) :
    membersDepth (members ++ [(key, last)]) = max (membersDepth members) (1 + last.depth) := by
  induction members with
  | nil => simp [membersDepth]
  | cons member members ih =>
      rw [List.cons_append, membersDepth, membersDepth, ih, Nat.max_assoc]

/-! ## Tokens, from the left

A reader meets the items and members of an array or object with the commas behind them. -/

/-- Items that further ones follow. -/
def leadingItems (items : List Written) : List Token :=
  items.flatMap fun item => item.tokens ++ [.comma]

/-- Members that further ones follow. -/
def leadingMembers (members : List (String × Written)) : List Token :=
  members.flatMap fun member =>
    .string member.1 :: .colon :: member.2.tokens ++ [.comma]

theorem leadingItems_concat (items : List Written) (last : Written) :
    leadingItems (items ++ [last]) = leadingItems items ++ (last.tokens ++ [.comma]) := by
  simp [leadingItems]

theorem leadingMembers_concat (members : List (String × Written)) (key : String)
    (last : Written) :
    leadingMembers (members ++ [(key, last)]) =
      leadingMembers members ++ (.string key :: .colon :: last.tokens ++ [.comma]) := by
  simp [leadingMembers]

theorem comma_leadingItems (items : List Written) (last : Written) :
    .comma :: (leadingItems items ++ (last.tokens ++ [.closeArray])) =
      itemTokens (items ++ [last]) := by
  -- each comma moves from in front of an item to behind the one before it
  induction items with
  | nil => simp [leadingItems, itemTokens]
  | cons item items ih =>
      rw [List.cons_append, itemTokens, ← ih]
      simp [leadingItems]

theorem tokens_array_concat (items : List Written) (last : Written) :
    (array (items ++ [last])).tokens =
      .openArray :: (leadingItems items ++ (last.tokens ++ [.closeArray])) := by
  cases items with
  | nil => simp [leadingItems, tokens, itemTokens]
  | cons item items =>
      rw [List.cons_append, tokens, ← comma_leadingItems]
      simp [leadingItems]

theorem comma_leadingMembers (members : List (String × Written)) (key : String)
    (last : Written) :
    .comma :: (leadingMembers members ++
        (.string key :: .colon :: last.tokens ++ [.closeObject])) =
      memberTokens (members ++ [(key, last)]) := by
  induction members with
  | nil => simp [leadingMembers, memberTokens]
  | cons member members ih =>
      rcases member with ⟨first, member⟩
      have htail : memberTokens ((first, member) :: members ++ [(key, last)]) =
          .comma :: .string first :: .colon :: member.tokens ++
            memberTokens (members ++ [(key, last)]) := rfl
      rw [htail, ← ih]
      simp [leadingMembers]

theorem tokens_object_concat (members : List (String × Written)) (key : String)
    (last : Written) :
    (object (members ++ [(key, last)])).tokens =
      .openObject :: (leadingMembers members ++
        (.string key :: .colon :: last.tokens ++ [.closeObject])) := by
  cases members with
  | nil => simp [leadingMembers, tokens, memberTokens]
  | cons member members =>
      rcases member with ⟨first, member⟩
      rw [List.cons_append, tokens, ← comma_leadingMembers]
      simp [leadingMembers]

/-- A document has a first token, which closes nothing. -/
theorem tokens_eq_cons (w : Written) :
    ∃ token rest, w.tokens = token :: rest ∧ token ≠ .closeArray := by
  cases w with
  | null => exact ⟨_, _, rfl, Token.noConfusion⟩
  | bool b => exact ⟨_, _, rfl, Token.noConfusion⟩
  | number n => exact ⟨_, _, rfl, Token.noConfusion⟩
  | string s => exact ⟨_, _, rfl, Token.noConfusion⟩
  | array items =>
      cases items with
      | nil => exact ⟨_, _, rfl, Token.noConfusion⟩
      | cons item items => exact ⟨_, _, rfl, Token.noConfusion⟩
  | object members =>
      cases members with
      | nil => exact ⟨_, _, rfl, Token.noConfusion⟩
      | cons member members => exact ⟨_, _, rfl, Token.noConfusion⟩

end Written

/-! ## Open arrays and objects -/

/-- An array or object that is open, up to the next value inside it. -/
inductive Layer where
  /-- The items before the next one. -/
  | array (items : List Written)
  /-- The members before the next one, and its key. -/
  | object (members : List (String × Written)) (key : String)

namespace Layer

/-- The tokens of an open array or object. -/
def tokens : Layer → List Token
  | .array items => .openArray :: Written.leadingItems items
  | .object members key =>
      .openObject :: (Written.leadingMembers members ++ [.string key, .colon])

/-- The tokens in front of a value: those of the open arrays and objects around it, which are given
from the innermost one outwards. -/
def tokensBefore : List Layer → List Token
  | [] => []
  | layer :: layers => tokensBefore layers ++ layer.tokens

/-- A value starts between the layers and the tokens that follow. It always does but for the first
item of an array, which needs a token that does not close the array. -/
def StartsValue : List Layer → List Token → Prop
  | .array [] :: _, rest => ∃ token tokens, rest = token :: tokens ∧ token ≠ .closeArray
  | _, _ => True

end Layer

/-- In tokens read from the left, a value starts below the depth limit before anything is found that
no document continues with. -/
def StartsTooDeep (limit : Nat) (tokens : List Token) : Prop :=
  ∃ layers rest, tokens = Layer.tokensBefore layers ++ rest ∧ Layer.StartsValue layers rest ∧
    limit < layers.length

/-- Every open array or object has a token. -/
theorem Layer.length_le_tokensBefore (layers : List Layer) :
    layers.length ≤ (tokensBefore layers).length := by
  induction layers with
  | nil => exact Nat.le_refl 0
  | cons layer layers ih =>
      have hlayer : 0 < layer.tokens.length := by
        cases layer <;> exact Nat.succ_pos _
      rw [tokensBefore, List.length_append, List.length_cons]
      omega

/-- What starts below a limit starts below a smaller one. -/
theorem StartsTooDeep.of_le {limit limit' : Nat} {tokens : List Token}
    (h : StartsTooDeep limit' tokens) (hle : limit ≤ limit') : StartsTooDeep limit tokens := by
  obtain ⟨layers, rest, htokens, hstart, hdeep⟩ := h
  exact ⟨layers, rest, htokens, hstart, Nat.lt_of_le_of_lt hle hdeep⟩

/-- Nothing starts deeper than there are tokens. -/
theorem StartsTooDeep.lt_length {limit : Nat} {tokens : List Token}
    (h : StartsTooDeep limit tokens) : limit < tokens.length := by
  obtain ⟨layers, rest, rfl, -, hdeep⟩ := h
  have hlength := Layer.length_le_tokensBefore layers
  rw [List.length_append]
  omega

end DocQuery.Json
