import DocQuery.Proofs.Json.Written

/-!
# What the reader accepts

The reader takes the tokens of a written document to the tree that the document denotes, unless a
value in it lies below the depth limit (`ReaderState.reads`). What it has taken when it stops is the
front of a document: if it comes to an end, the tokens of a whole one (`exists_written_of_run`), and
if the depth stops it, tokens after which a value starts too deep (`startsTooDeep_of_run`). So a text
is read without a limit exactly when it holds the tokens of a written document
(`read_none_eq_ok_iff`).
-/

set_option autoImplicit false

namespace DocQuery.Json

open Written

namespace ReaderState

/-! ## Depth limits -/

/-- Values at the depth are below the limit. -/
def Exceeds (limit : Option Nat) (depth : Nat) : Prop := limit.any (· < depth) = true

instance (limit : Option Nat) (depth : Nat) : Decidable (Exceeds limit depth) :=
  inferInstanceAs (Decidable (_ = true))

theorem exceeds_some_iff {limit depth : Nat} : Exceeds (some limit) depth ↔ limit < depth := by
  simp [Exceeds]

theorem not_exceeds_none {depth : Nat} : ¬ Exceeds none depth := by
  simp [Exceeds]

theorem not_exceeds_zero {limit : Option Nat} : ¬ Exceeds limit 0 := by
  cases limit <;> simp [Exceeds]

theorem Exceeds.mono {limit : Option Nat} {depth depth' : Nat} (h : Exceeds limit depth)
    (hle : depth ≤ depth') : Exceeds limit depth' := by
  cases limit with
  | none => exact absurd h not_exceeds_none
  | some l =>
      rw [exceeds_some_iff] at h ⊢
      omega

theorem exceeds_add_max_iff {limit : Option Nat} {depth a b : Nat} :
    Exceeds limit (depth + max a b) ↔ Exceeds limit (depth + a) ∨ Exceeds limit (depth + b) := by
  cases limit with
  | none => simp [not_exceeds_none]
  | some l =>
      rw [exceeds_some_iff, exceeds_some_iff, exceeds_some_iff]
      omega

/-- Of two parts, the second decides when the first is within the limit. -/
theorem exceeds_add_max_iff_of_not {limit : Option Nat} {depth a b : Nat}
    (h : ¬ Exceeds limit (depth + a)) :
    Exceeds limit (depth + max a b) ↔ Exceeds limit (depth + b) :=
  exceeds_add_max_iff.trans (or_iff_right h)

theorem enter_eq (limit : Option Nat) (stack : List Frame) :
    enter limit stack =
      if Exceeds limit stack.length then .error .tooDeep else .ok (.value stack) := rfl

theorem run_cons {limit : Option Nat} {state : ReaderState} (h : ∀ json, state ≠ .done json)
    (token : Token) (tokens : List Token) :
    run limit state (token :: tokens) =
      ((step limit state token).mapError (Fault.report (tokens.length + 1))).bind fun next =>
        run limit next tokens := by
  cases state with
  | done json => exact absurd rfl (h json)
  | _ => rfl

/-! ## Written documents are read -/

/-- The reader takes the tokens of a document where a value may start, and goes on with the tree
that the document denotes, or stops because of its depth. -/
def Reads (limit : Option Nat) (w : Written) : Prop :=
  ∀ (stack : List Frame) (rest : List Token), ¬ Exceeds limit stack.length →
    run limit (.value stack) (w.tokens ++ rest) =
      if Exceeds limit (stack.length + w.depth) then .error .tooDeep
      else run limit (complete w.toJson stack) rest

/-- The token that starts the first item of an array. -/
theorem step_firstItem (limit : Option Nat) (stack : List Frame) {token : Token}
    (h : token ≠ .closeArray) :
    step limit (.firstItem stack) token =
      (enter limit (.array [] :: stack)).bind fun _ => start (.array [] :: stack) token := by
  cases token with
  | closeArray => exact absurd rfl h
  | _ => rfl

/-- The first item of an array is read like any value inside it. -/
theorem run_firstItem (limit : Option Nat) (stack : List Frame) {token : Token}
    (tokens : List Token) (h : token ≠ .closeArray) :
    run limit (.firstItem stack) (token :: tokens) =
      if Exceeds limit (stack.length + 1) then .error .tooDeep
      else run limit (.value (.array [] :: stack)) (token :: tokens) := by
  rw [run_cons (fun _ => ReaderState.noConfusion), step_firstItem limit stack h, enter_eq,
    List.length_cons]
  by_cases hlim : Exceeds limit (stack.length + 1)
  · rw [if_pos hlim, if_pos hlim]
    rfl
  · rw [if_neg hlim, if_neg hlim, run_cons (fun _ => ReaderState.noConfusion)]
    rfl

theorem run_leadingItems {limit : Option Nat} {items : List Written}
    (h : ∀ item ∈ items, Reads limit item) (before : List Json) (stack : List Frame)
    (rest : List Token) (hlim : ¬ Exceeds limit (stack.length + 1)) :
    run limit (.value (.array before :: stack)) (leadingItems items ++ rest) =
      if Exceeds limit (stack.length + itemsDepth items) then .error .tooDeep
      else run limit (.value (.array ((items.map toJson).reverse ++ before) :: stack)) rest := by
  induction items generalizing before with
  | nil =>
      have hnot : ¬ Exceeds limit (stack.length + itemsDepth []) := fun hex =>
        hlim (hex.mono (Nat.le_succ _))
      rw [if_neg hnot]
      rfl
  | cons item items ih =>
      have htokens : leadingItems (item :: items) ++ rest =
          item.tokens ++ (.comma :: (leadingItems items ++ rest)) := by
        simp [leadingItems]
      rw [htokens, h item List.mem_cons_self (.array before :: stack) _ hlim, List.length_cons]
      have hdepth : stack.length + 1 + item.depth = stack.length + (1 + item.depth) := by omega
      rw [hdepth]
      by_cases hitem : Exceeds limit (stack.length + (1 + item.depth))
      · -- the item is too deep, and so is the whole
        rw [if_pos hitem, itemsDepth, if_pos (exceeds_add_max_iff.2 (Or.inl hitem))]
      · rw [if_neg hitem]
        -- behind the comma the reader is in front of the items that are left
        have hcomma : run limit (complete item.toJson (.array before :: stack))
              (.comma :: (leadingItems items ++ rest)) =
            run limit (.value (.array (item.toJson :: before) :: stack))
              (leadingItems items ++ rest) := by
          rw [complete, run_cons (fun _ => ReaderState.noConfusion), step, enter_eq,
            List.length_cons, if_neg hlim]
          rfl
        rw [hcomma, ih (fun i hi => h i (List.mem_cons_of_mem _ hi)), itemsDepth,
          List.map_cons, List.reverse_cons, List.append_assoc]
        simp only [exceeds_add_max_iff_of_not hitem]
        rfl

/-- The dictionary of members that have been read. -/
def dictOf (members : List (String × Written)) : Dict Json :=
  Dict.ofList (members.map fun member => (member.1, member.2.toJson))

theorem dictOf_concat (members : List (String × Written)) (key : String) (last : Written) :
    dictOf (members ++ [(key, last)]) = (dictOf members).insert key last.toJson := by
  rw [dictOf, List.map_append, List.map_singleton, Dict.ofList_concat]
  rfl

/-- The state in front of a key, after some members. -/
def keyState (members : List (String × Written)) (stack : List Frame) : ReaderState :=
  match members with
  | [] => .firstKey stack
  | _ :: _ => .laterKey (dictOf members) stack

theorem keyState_ne_done (members : List (String × Written)) (stack : List Frame) (json : Json) :
    keyState members stack ≠ .done json := by
  cases members <;> exact ReaderState.noConfusion

theorem step_keyState (limit : Option Nat) (members : List (String × Written))
    (stack : List Frame) (key : String) :
    step limit (keyState members stack) (.string key) = .ok (.colon (dictOf members) key stack) := by
  cases members <;> rfl

theorem keyState_concat (members : List (String × Written)) (last : String × Written)
    (stack : List Frame) :
    keyState (members ++ [last]) stack = .laterKey (dictOf (members ++ [last])) stack := by
  cases members <;> rfl

theorem run_key (limit : Option Nat) (members : List (String × Written)) (stack : List Frame)
    (key : String) (tokens : List Token) :
    run limit (keyState members stack) (.string key :: .colon :: tokens) =
      if Exceeds limit (stack.length + 1) then .error .tooDeep
      else run limit (.value (.object (dictOf members) key :: stack)) tokens := by
  have hcolon : run limit (.colon (dictOf members) key stack) (.colon :: tokens) =
      ((enter limit (.object (dictOf members) key :: stack)).mapError
        (Fault.report (tokens.length + 1))).bind fun next => run limit next tokens := rfl
  rw [run_cons (keyState_ne_done members stack), step_keyState]
  show run limit (.colon (dictOf members) key stack) (.colon :: tokens) = _
  rw [hcolon, enter_eq, List.length_cons]
  split <;> rfl

theorem run_member {limit : Option Nat} {w : Written} (h : Reads limit w)
    (members : List (String × Written)) (stack : List Frame) (key : String) (rest : List Token) :
    run limit (keyState members stack) (.string key :: .colon :: (w.tokens ++ rest)) =
      if Exceeds limit (stack.length + (1 + w.depth)) then .error .tooDeep
      else run limit (.afterMember (dictOf (members ++ [(key, w)])) stack) rest := by
  rw [run_key]
  by_cases hlim : Exceeds limit (stack.length + 1)
  · rw [if_pos hlim, if_pos (hlim.mono (by omega))]
  · rw [if_neg hlim, h (.object (dictOf members) key :: stack) rest hlim, List.length_cons,
      dictOf_concat]
    have hdepth : stack.length + 1 + w.depth = stack.length + (1 + w.depth) := by omega
    rw [hdepth]
    rfl

theorem run_leadingMembers {limit : Option Nat} {members : List (String × Written)}
    (h : ∀ member ∈ members, Reads limit member.2) (before : List (String × Written))
    (stack : List Frame) (rest : List Token) (hlim : ¬ Exceeds limit stack.length) :
    run limit (keyState before stack) (leadingMembers members ++ rest) =
      if Exceeds limit (stack.length + membersDepth members) then .error .tooDeep
      else run limit (keyState (before ++ members) stack) rest := by
  induction members generalizing before with
  | nil =>
      rw [membersDepth, Nat.add_zero, if_neg hlim, List.append_nil]
      rfl
  | cons member members ih =>
      rcases member with ⟨key, member⟩
      have htokens : leadingMembers ((key, member) :: members) ++ rest =
          .string key :: .colon ::
            (member.tokens ++ (.comma :: (leadingMembers members ++ rest))) := by
        simp [leadingMembers]
      rw [htokens, run_member (h _ List.mem_cons_self)]
      by_cases hmember : Exceeds limit (stack.length + (1 + member.depth))
      · -- the member is too deep, and so is the whole
        rw [if_pos hmember, membersDepth, if_pos (exceeds_add_max_iff.2 (Or.inl hmember))]
      · rw [if_neg hmember]
        -- behind the comma the reader is in front of a later key
        have hcomma : run limit (.afterMember (dictOf (before ++ [(key, member)])) stack)
              (.comma :: (leadingMembers members ++ rest)) =
            run limit (keyState (before ++ [(key, member)]) stack)
              (leadingMembers members ++ rest) := by
          rw [keyState_concat, run_cons (fun _ => ReaderState.noConfusion)]
          rfl
        rw [hcomma, ih (fun m hm => h m (List.mem_cons_of_mem _ hm)), membersDepth,
          List.append_assoc]
        simp only [exceeds_add_max_iff_of_not hmember]
        rfl

/-- The items of an array start with a token that does not close it. -/
theorem exists_cons_leadingItems {items : List Written} {rest : List Token}
    (h : items = [] → ∃ token tokens, rest = token :: tokens ∧ token ≠ .closeArray) :
    ∃ token tokens, leadingItems items ++ rest = token :: tokens ∧ token ≠ .closeArray := by
  cases items with
  | nil => exact h rfl
  | cons item items =>
      obtain ⟨token, tokens, htokens, hne⟩ := item.tokens_eq_cons
      refine ⟨token, tokens ++ .comma :: (leadingItems items ++ rest), ?_, hne⟩
      simp [leadingItems, htokens]

theorem reads_array {limit : Option Nat} (items : List Written)
    (h : ∀ item ∈ items, Reads limit item) : Reads limit (.array items) := by
  intro stack rest hlim
  rcases List.eq_nil_or_concat items with rfl | ⟨items, last, rfl⟩
  · have hdepth : stack.length + (Written.array []).depth = stack.length := rfl
    rw [hdepth, if_neg hlim]
    rfl
  · rw [List.concat_eq_append] at h ⊢
    have hitems : ∀ item ∈ items, Reads limit item := fun item hi =>
      h item (List.mem_append_left _ hi)
    have hlast : Reads limit last := h last (List.mem_append_right _ List.mem_cons_self)
    obtain ⟨token, tokens, hfirst, hne⟩ : ∃ token tokens,
        leadingItems items ++ (last.tokens ++ (.closeArray :: rest)) = token :: tokens ∧
          token ≠ .closeArray := by
      apply exists_cons_leadingItems
      intro _
      obtain ⟨token, tokens, htokens, hne⟩ := last.tokens_eq_cons
      exact ⟨token, tokens ++ .closeArray :: rest, by rw [htokens, List.cons_append], hne⟩
    have htokens : (Written.array (items ++ [last])).tokens ++ rest =
        .openArray :: (leadingItems items ++ (last.tokens ++ (.closeArray :: rest))) := by
      rw [tokens_array_concat]
      simp
    have hopen : run limit (.value stack) (.openArray :: token :: tokens) =
        run limit (.firstItem stack) (token :: tokens) := rfl
    rw [htokens, hfirst, hopen, run_firstItem limit stack tokens hne, ← hfirst, depth,
      itemsDepth_concat]
    by_cases hone : Exceeds limit (stack.length + 1)
    · -- no value may start inside the array
      rw [if_pos hone, if_pos (hone.mono (by omega))]
    · -- all items but the last, then the last, then the bracket
      rw [if_neg hone, run_leadingItems hitems [] stack _ hone]
      by_cases hdeep : Exceeds limit (stack.length + itemsDepth items)
      · rw [if_pos hdeep, if_pos (exceeds_add_max_iff.2 (Or.inl hdeep))]
      · rw [if_neg hdeep, hlast (.array _ :: stack) _ hone, List.length_cons]
        have hdepth : stack.length + 1 + last.depth = stack.length + (1 + last.depth) := by omega
        rw [hdepth]
        simp only [exceeds_add_max_iff_of_not hdeep]
        have hclose : run limit (complete last.toJson
              (.array ((items.map toJson).reverse ++ []) :: stack)) (.closeArray :: rest) =
            run limit (complete (.array ((last.toJson :: ((items.map toJson).reverse ++ [])).reverse))
              stack) rest := rfl
        rw [hclose, toJson, itemsToJson_eq_map]
        simp

theorem reads_object {limit : Option Nat} (members : List (String × Written))
    (h : ∀ member ∈ members, Reads limit member.2) : Reads limit (.object members) := by
  intro stack rest hlim
  rcases List.eq_nil_or_concat members with rfl | ⟨members, ⟨key, last⟩, rfl⟩
  · have hdepth : stack.length + (Written.object []).depth = stack.length := rfl
    rw [hdepth, if_neg hlim]
    rfl
  · rw [List.concat_eq_append] at h ⊢
    have hmembers : ∀ member ∈ members, Reads limit member.2 := fun member hm =>
      h member (List.mem_append_left _ hm)
    have hlast : Reads limit last :=
      h (key, last) (List.mem_append_right _ List.mem_cons_self)
    have htokens : (Written.object (members ++ [(key, last)])).tokens ++ rest =
        .openObject :: (leadingMembers members ++
          (.string key :: .colon :: (last.tokens ++ (.closeObject :: rest)))) := by
      rw [tokens_object_concat]
      simp
    have hopen : ∀ tokens, run limit (.value stack) (.openObject :: tokens) =
        run limit (keyState [] stack) tokens := fun _ => rfl
    rw [htokens, hopen, run_leadingMembers hmembers [] stack _ hlim, depth, membersDepth_concat]
    by_cases hdeep : Exceeds limit (stack.length + membersDepth members)
    · rw [if_pos hdeep, if_pos (exceeds_add_max_iff.2 (Or.inl hdeep))]
    · rw [if_neg hdeep, run_member hlast]
      simp only [exceeds_add_max_iff_of_not hdeep]
      rw [toJson, membersToJson_eq_map]
      rfl

/-- **The reader takes every written document.** -/
theorem reads (limit : Option Nat) (w : Written) : Reads limit w := by
  -- a scalar is one token, and its depth is the one of the reader
  induction w using Written.rec' with
  | null =>
      intro stack rest hlim
      exact (if_neg hlim).symm
  | bool b =>
      intro stack rest hlim
      exact (if_neg hlim).symm
  | number n =>
      intro stack rest hlim
      exact (if_neg hlim).symm
  | string s =>
      intro stack rest hlim
      exact (if_neg hlim).symm
  | array items ih => exact reads_array items ih
  | object members ih => exact reads_object members ih

/-! ## Open layers are read -/

/-- The frame that the reader keeps for a layer. -/
def frameOf : Layer → Frame
  | .array items => .array (items.map toJson).reverse
  | .object members key => .object (dictOf members) key

theorem run_layer {limit : Option Nat} {stack : List Frame} (hlim : ¬ Exceeds limit stack.length)
    (layer : Layer) {layers : List Layer} {rest : List Token}
    (h : Layer.StartsValue (layer :: layers) rest) :
    run limit (.value stack) (layer.tokens ++ rest) = .error .tooDeep ∨
      (¬ Exceeds limit (stack.length + 1) ∧
        run limit (.value stack) (layer.tokens ++ rest) =
          run limit (.value (frameOf layer :: stack)) rest) := by
  cases layer with
  | array items =>
      obtain ⟨token, tokens, hfirst, hne⟩ : ∃ token tokens,
          leadingItems items ++ rest = token :: tokens ∧ token ≠ .closeArray := by
        apply exists_cons_leadingItems
        rintro rfl
        exact h
      have hopen : run limit (.value stack) ((Layer.array items).tokens ++ rest) =
          run limit (.firstItem stack) (leadingItems items ++ rest) := rfl
      rw [hopen, hfirst, run_firstItem limit stack tokens hne, ← hfirst]
      by_cases hone : Exceeds limit (stack.length + 1)
      · rw [if_pos hone]
        exact Or.inl rfl
      · rw [if_neg hone, run_leadingItems (fun item _ => reads limit item) [] stack rest hone]
        split
        · exact Or.inl rfl
        · refine Or.inr ⟨hone, ?_⟩
          rw [List.append_nil]
          rfl
  | object members key =>
      have htokens : (Layer.object members key).tokens ++ rest =
          .openObject :: (leadingMembers members ++ (.string key :: .colon :: rest)) := by
        simp [Layer.tokens]
      have hopen : ∀ tokens, run limit (.value stack) (.openObject :: tokens) =
          run limit (keyState [] stack) tokens := fun _ => rfl
      rw [htokens, hopen,
        run_leadingMembers (fun member _ => reads limit member.2) [] stack _ hlim]
      split
      · exact Or.inl rfl
      · rw [run_key]
        by_cases hone : Exceeds limit (stack.length + 1)
        · rw [if_pos hone]
          exact Or.inl rfl
        · rw [if_neg hone]
          exact Or.inr ⟨hone, rfl⟩

/-- The reader takes the tokens of open layers, or has stopped because of the depth before. -/
theorem run_tokensBefore (limit : Option Nat) (layers : List Layer) {rest : List Token}
    (h : Layer.StartsValue layers rest) :
    run limit (.value []) (Layer.tokensBefore layers ++ rest) = .error .tooDeep ∨
      (¬ Exceeds limit layers.length ∧
        run limit (.value []) (Layer.tokensBefore layers ++ rest) =
          run limit (.value (layers.map frameOf)) rest) := by
  induction layers generalizing rest with
  | nil => exact Or.inr ⟨not_exceeds_zero, rfl⟩
  | cons layer layers ih =>
      have houter : Layer.StartsValue layers (layer.tokens ++ rest) := by
        -- an opening bracket or brace starts a value everywhere
        cases layers with
        | nil => trivial
        | cons outer layers =>
            rcases outer with items | _
            · cases items with
              | nil => cases layer <;> exact ⟨_, _, rfl, Token.noConfusion⟩
              | cons item items => trivial
            · trivial
      rw [Layer.tokensBefore, List.append_assoc]
      rcases ih houter with herr | ⟨hlim, hrun⟩
      · exact Or.inl herr
      · rw [hrun]
        rw [← List.length_map frameOf] at hlim
        rcases run_layer hlim layer h with herr | ⟨hone, hnext⟩
        · exact Or.inl herr
        · rw [List.length_map] at hone
          exact Or.inr ⟨hone, hnext⟩

theorem run_of_startsTooDeep {limit : Nat} {tokens : List Token}
    (h : StartsTooDeep limit tokens) : run (some limit) (.value []) tokens = .error .tooDeep := by
  obtain ⟨layers, rest, rfl, hstart, hlim⟩ := h
  rcases run_tokensBefore (some limit) layers hstart with herr | ⟨hnot, -⟩
  · exact herr
  · exact absurd (exceeds_some_iff.2 hlim) hnot

/-! ## What the reader has taken -/

/-- The tokens that lead to a state: those of the open layers, and of what is complete in the
innermost one. -/
inductive Reached : List Token → ReaderState → Prop
  | value (layers : List Layer) :
      Reached (Layer.tokensBefore layers) (.value (layers.map frameOf))
  | firstItem (layers : List Layer) :
      Reached (Layer.tokensBefore layers ++ [.openArray]) (.firstItem (layers.map frameOf))
  | afterItem (layers : List Layer) (items : List Written) (last : Written) :
      Reached (Layer.tokensBefore (.array items :: layers) ++ last.tokens)
        (.afterItem (last.toJson :: (items.map toJson).reverse) (layers.map frameOf))
  | key (layers : List Layer) (members : List (String × Written)) :
      Reached (Layer.tokensBefore layers ++ .openObject :: leadingMembers members)
        (keyState members (layers.map frameOf))
  | colon (layers : List Layer) (members : List (String × Written)) (key : String) :
      Reached (Layer.tokensBefore layers ++ .openObject :: (leadingMembers members ++ [.string key]))
        (.colon (dictOf members) key (layers.map frameOf))
  | afterMember (layers : List Layer) (members : List (String × Written)) (key : String)
      (last : Written) :
      Reached (Layer.tokensBefore (.object members key :: layers) ++ last.tokens)
        (.afterMember (dictOf (members ++ [(key, last)])) (layers.map frameOf))
  | done (w : Written) : Reached w.tokens (.done w.toJson)

/-- A complete document in open layers leads to the state after it. -/
theorem reached_complete (layers : List Layer) (w : Written) :
    Reached (Layer.tokensBefore layers ++ w.tokens) (complete w.toJson (layers.map frameOf)) := by
  cases layers with
  | nil => exact Reached.done w
  | cons layer layers =>
      cases layer with
      | array items => exact Reached.afterItem layers items w
      | object members key =>
          have h := Reached.afterMember layers members key w
          rw [dictOf_concat] at h
          exact h

theorem reached_start (layers : List Layer) {token : Token} {next : ReaderState}
    (h : start (layers.map frameOf) token = .ok next) :
    Reached (Layer.tokensBefore layers ++ [token]) next := by
  cases token with
  | null =>
      cases h
      exact reached_complete layers .null
  | bool b =>
      cases h
      exact reached_complete layers (.bool b)
  | number n =>
      cases h
      exact reached_complete layers (.number n)
  | string s =>
      cases h
      exact reached_complete layers (.string s)
  | openArray =>
      cases h
      exact Reached.firstItem layers
  | openObject =>
      cases h
      exact Reached.key layers []
  | closeArray => cases h
  | closeObject => cases h
  | comma => cases h
  | colon => cases h
  | invalid => cases h

theorem ok_of_enter {limit : Option Nat} {stack : List Frame} {next : ReaderState}
    (h : enter limit stack = .ok next) : next = .value stack := by
  rw [enter_eq] at h
  split at h
  · cases h
  · cases h
    rfl

theorem exceeds_of_enter {limit : Option Nat} {stack : List Frame} {fault : Fault}
    (h : enter limit stack = .error fault) : Exceeds limit stack.length := by
  rw [enter_eq] at h
  split at h
  · assumption
  · cases h

/-- **What a step keeps.** The token joins the tokens that lead to the state. -/
theorem reached_step {limit : Option Nat} {before : List Token} {state next : ReaderState}
    {token : Token} (hstate : Reached before state) (h : step limit state token = .ok next) :
    Reached (before ++ [token]) next := by
  -- the states are split first; each takes few tokens, and any other token is an error
  cases hstate with
  | value layers => exact reached_start layers h
  | firstItem layers =>
      by_cases hclose : token = .closeArray
      · subst hclose
        cases h
        rw [List.append_assoc]
        exact reached_complete layers (.array [])
      · rw [step_firstItem limit _ hclose, enter_eq] at h
        split at h
        · cases h
        · exact reached_start (.array [] :: layers) h
  | afterItem layers items last =>
      cases token with
      | comma =>
          -- the last item joins the layer, which stays open
          cases ok_of_enter h
          have htokens : Layer.tokensBefore (.array items :: layers) ++ last.tokens ++ [.comma] =
              Layer.tokensBefore (.array (items ++ [last]) :: layers) := by
            simp [Layer.tokensBefore, Layer.tokens, leadingItems_concat]
          have hreached := Reached.value (.array (items ++ [last]) :: layers)
          rw [List.map_cons, frameOf, List.map_append, List.reverse_append] at hreached
          rw [htokens]
          exact hreached
      | closeArray =>
          -- the layer becomes a document
          cases h
          have htokens :
              Layer.tokensBefore (.array items :: layers) ++ last.tokens ++ [.closeArray] =
                Layer.tokensBefore layers ++ (Written.array (items ++ [last])).tokens := by
            simp [Layer.tokensBefore, Layer.tokens, tokens_array_concat]
          have hreached := reached_complete layers (.array (items ++ [last]))
          rw [toJson, itemsToJson_eq_map, List.map_append] at hreached
          rw [htokens, List.reverse_cons, List.reverse_reverse]
          exact hreached
      | _ => cases h
  | key layers members =>
      by_cases hstring : ∃ key, token = .string key
      · obtain ⟨key, rfl⟩ := hstring
        rw [step_keyState] at h
        cases h
        have htokens :
            Layer.tokensBefore layers ++ .openObject :: leadingMembers members ++ [.string key] =
              Layer.tokensBefore layers ++
                .openObject :: (leadingMembers members ++ [.string key]) := by
          simp
        rw [htokens]
        exact Reached.colon layers members key
      · -- only the first key may be missing, in an empty object
        cases members with
        | nil =>
            cases token with
            | closeObject =>
                cases h
                have htokens :
                    Layer.tokensBefore layers ++ .openObject :: leadingMembers [] ++
                        [.closeObject] =
                      Layer.tokensBefore layers ++ (Written.object []).tokens := by
                  simp [leadingMembers, Written.tokens]
                rw [htokens]
                exact reached_complete layers (.object [])
            | string key => exact absurd ⟨key, rfl⟩ hstring
            | _ => cases h
        | cons member members =>
            cases token with
            | string key => exact absurd ⟨key, rfl⟩ hstring
            | _ => cases h
  | colon layers members key =>
      cases token with
      | colon =>
          cases ok_of_enter h
          have htokens :
              Layer.tokensBefore layers ++
                  .openObject :: (leadingMembers members ++ [.string key]) ++ [.colon] =
                Layer.tokensBefore (.object members key :: layers) := by
            simp [Layer.tokensBefore, Layer.tokens]
          rw [htokens]
          exact Reached.value (.object members key :: layers)
      | _ => cases h
  | afterMember layers members key last =>
      cases token with
      | comma =>
          -- the last member joins the members in front of the next key
          cases h
          have htokens :
              Layer.tokensBefore (.object members key :: layers) ++ last.tokens ++ [.comma] =
                Layer.tokensBefore layers ++
                  .openObject :: leadingMembers (members ++ [(key, last)]) := by
            simp [Layer.tokensBefore, Layer.tokens, leadingMembers_concat]
          have hreached := Reached.key layers (members ++ [(key, last)])
          rw [keyState_concat] at hreached
          rw [htokens]
          exact hreached
      | closeObject =>
          -- the layer becomes a document
          cases h
          have htokens :
              Layer.tokensBefore (.object members key :: layers) ++ last.tokens ++ [.closeObject] =
                Layer.tokensBefore layers ++
                  (Written.object (members ++ [(key, last)])).tokens := by
            simp [Layer.tokensBefore, Layer.tokens, tokens_object_concat]
          have hreached := reached_complete layers (.object (members ++ [(key, last)]))
          rw [toJson, membersToJson_eq_map] at hreached
          rw [htokens]
          exact hreached
      | _ => cases h
  | done w => cases h

/-- The depth stops the reader only where a value starts. -/
theorem startsValue_of_step {limit : Option Nat} {before : List Token} {state : ReaderState}
    {token : Token} (hstate : Reached before state)
    (h : step limit state token = .error .tooDeep) (tokens : List Token) :
    ∃ layers rest, before ++ token :: tokens = Layer.tokensBefore layers ++ rest ∧
      Layer.StartsValue layers rest ∧ Exceeds limit layers.length := by
  have hstart : ∀ stack, start stack token ≠ .error .tooDeep := by
    intro stack herr
    cases token <;> cases herr
  -- the depth is looked at in three places: a first item, a later item and a member
  cases hstate with
  | value layers => exact absurd h (hstart _)
  | firstItem layers =>
      by_cases hclose : token = .closeArray
      · subst hclose
        cases h
      · have hdeep : Exceeds limit (layers.length + 1) := by
          rw [step_firstItem limit _ hclose, enter_eq, List.length_cons, List.length_map] at h
          by_cases hlim : Exceeds limit (layers.length + 1)
          · exact hlim
          · rw [if_neg hlim] at h
            exact absurd h (hstart _)
        refine ⟨.array [] :: layers, token :: tokens, ?_, ⟨token, tokens, rfl, hclose⟩, hdeep⟩
        simp [Layer.tokensBefore, Layer.tokens, leadingItems]
  | afterItem layers items last =>
      cases token with
      | comma =>
          have hdeep := exceeds_of_enter h
          rw [List.length_cons, List.length_map] at hdeep
          refine ⟨.array (items ++ [last]) :: layers, tokens, ?_, ?_, hdeep⟩
          · simp [Layer.tokensBefore, Layer.tokens, leadingItems_concat]
          · cases items <;> trivial
      | _ => cases h
  | key layers members =>
      cases members <;> cases token <;> cases h
  | colon layers members key =>
      cases token with
      | colon =>
          have hdeep := exceeds_of_enter h
          rw [List.length_cons, List.length_map] at hdeep
          refine ⟨.object members key :: layers, tokens, ?_, trivial, hdeep⟩
          simp [Layer.tokensBefore, Layer.tokens]
      | _ => cases h
  | afterMember layers members key last => cases token <;> cases h
  | done w => cases h

theorem exists_written_of_reached_done {before : List Token} {json : Json}
    (h : Reached before (.done json)) : ∃ w : Written, before = w.tokens ∧ w.toJson = json := by
  generalize hstate : ReaderState.done json = state at h
  cases h with
  | done w =>
      cases hstate
      exact ⟨w, rfl, rfl⟩
  | key layers members => exact absurd hstate.symm (keyState_ne_done members _ json)
  | _ => cases hstate

/-- If the reader comes to an end, it has taken the tokens of a document. -/
theorem exists_written_of_run {limit : Option Nat} {before tokens rest : List Token}
    {state : ReaderState} {json : Json} (hstate : Reached before state)
    (h : run limit state tokens = .ok (json, rest)) :
    ∃ w : Written, before ++ tokens = w.tokens ++ rest ∧ w.toJson = json := by
  -- each step moves a token from the ones to come to the ones that lead to the state
  induction tokens generalizing before state with
  | nil =>
      cases hstate with
      | done w =>
          cases h
          exact ⟨w, rfl, rfl⟩
      | key layers members => cases members <;> cases h
      | _ => cases h
  | cons token tokens ih =>
      by_cases hdone : ∃ json, state = .done json
      · -- the reader has ended, and the tokens to come are the rest
        obtain ⟨json', rfl⟩ := hdone
        cases h
        obtain ⟨w, rfl, hjson⟩ := exists_written_of_reached_done hstate
        exact ⟨w, rfl, hjson⟩
      · have hne : ∀ json, state ≠ .done json := fun json he => hdone ⟨json, he⟩
        rw [run_cons hne] at h
        cases hstep : step limit state token with
        | error error =>
            rw [hstep] at h
            cases h
        | ok next =>
            rw [hstep] at h
            obtain ⟨w, htokens, hjson⟩ := ih (reached_step hstate hstep) h
            exact ⟨w, by rw [← htokens, List.append_assoc, List.singleton_append], hjson⟩

/-- If the depth stops the reader, a value starts too deep. -/
theorem startsTooDeep_of_run {limit : Nat} {before tokens : List Token} {state : ReaderState}
    (hstate : Reached before state) (h : run (some limit) state tokens = .error .tooDeep) :
    StartsTooDeep limit (before ++ tokens) := by
  induction tokens generalizing before state with
  | nil =>
      cases hstate with
      | key layers members => cases members <;> cases h
      | _ => cases h
  | cons token tokens ih =>
      by_cases hdone : ∃ json, state = .done json
      · obtain ⟨json, rfl⟩ := hdone
        cases h
      · have hne : ∀ json, state ≠ .done json := fun json he => hdone ⟨json, he⟩
        rw [run_cons hne] at h
        cases hstep : step (some limit) state token with
        | error fault =>
            rw [hstep] at h
            cases fault with
            | unexpected => cases h
            | tooDeep =>
                -- this is the token at which the depth stops the reader
                obtain ⟨layers, rest, htokens, hstart, hdeep⟩ :=
                  startsValue_of_step hstate hstep tokens
                exact ⟨layers, rest, htokens, hstart, exceeds_some_iff.1 hdeep⟩
        | ok next =>
            rw [hstep] at h
            have hrest := ih (reached_step hstate hstep) h
            rw [List.append_assoc, List.singleton_append] at hrest
            exact hrest

/-! ## A depth limit only stops the reader -/

theorem enter_none (limit : Option Nat) (stack : List Frame) :
    enter limit stack = .error .tooDeep ∨ enter none stack = enter limit stack := by
  rw [enter_eq, enter_eq, if_neg not_exceeds_none]
  split
  · exact .inl rfl
  · exact .inr rfl

/-- A token is too deep, or it is taken or refused as it is without a limit. -/
theorem step_none (limit : Option Nat) (state : ReaderState) (token : Token) :
    step limit state token = .error .tooDeep ∨
      step none state token = step limit state token := by
  -- the limit is looked at where a value starts: in front of an item, and behind a colon
  cases state with
  | firstItem stack =>
      by_cases hclose : token = .closeArray
      · subst hclose
        exact .inr rfl
      · rw [step_firstItem limit stack hclose, step_firstItem none stack hclose]
        rcases enter_none limit (.array [] :: stack) with htoo | hsame
        · rw [htoo]
          exact .inl rfl
        · rw [hsame]
          exact .inr rfl
  | afterItem items stack =>
      cases token with
      | comma => exact enter_none limit _
      | _ => exact .inr rfl
  | colon members key stack =>
      cases token with
      | colon => exact enter_none limit _
      | _ => exact .inr rfl
  | value stack => exact .inr rfl
  | done json => exact .inr rfl
  | firstKey _ | laterKey _ _ | afterMember _ _ => cases token <;> exact .inr rfl

/-- The reader finds a value too deep, or it comes to the same end without a limit: the same document,
or the same fault at the same place. -/
theorem run_none (limit : Option Nat) (state : ReaderState) (tokens : List Token) :
    run limit state tokens = .error .tooDeep ∨ run none state tokens = run limit state tokens := by
  induction tokens generalizing state with
  | nil => cases state <;> exact .inr rfl
  | cons token tokens ih =>
      by_cases hdone : ∃ json, state = .done json
      · obtain ⟨json, rfl⟩ := hdone
        exact .inr rfl
      · have hne : ∀ json, state ≠ .done json := fun json he => hdone ⟨json, he⟩
        rw [run_cons hne, run_cons hne]
        rcases step_none limit state token with htoo | hsame
        · rw [htoo]
          exact .inl rfl
        · rw [hsame]
          cases step limit state token with
          | error fault => exact .inr rfl
          | ok next => exact ih next

end ReaderState

/-! ## Whole texts -/

open ReaderState

theorem firstOfTokens_tokens (limit : Option Nat) (w : Written) (rest : List Token) :
    firstOfTokens limit (w.tokens ++ rest) =
      if Exceeds limit w.depth then .error .tooDeep else .ok (w.toJson, rest) := by
  rw [firstOfTokens, reads limit w [] rest not_exceeds_zero, List.length_nil, Nat.zero_add]
  cases rest <;> rfl

theorem ofTokens_tokens (limit : Option Nat) (w : Written) :
    ofTokens limit w.tokens =
      if Exceeds limit w.depth then .error .tooDeep else .ok w.toJson := by
  have hfirst := firstOfTokens_tokens limit w []
  rw [List.append_nil] at hfirst
  rw [ofTokens, hfirst]
  split <;> rfl

/-- The tokens of a document are read, unless the document is too deep. -/
theorem ofTokens_some_tokens (limit : Nat) (w : Written) :
    ofTokens (some limit) w.tokens =
      if limit < w.depth then .error .tooDeep else .ok w.toJson := by
  rw [ofTokens_tokens]
  simp only [exceeds_some_iff]

/-- Tokens are read exactly when they are those of a document that is not too deep. -/
theorem ofTokens_eq_ok_iff {limit : Option Nat} {tokens : List Token} {json : Json} :
    ofTokens limit tokens = .ok json ↔
      ∃ w : Written, w.tokens = tokens ∧ w.toJson = json ∧ ¬ Exceeds limit w.depth := by
  constructor
  · intro h
    rw [ofTokens] at h
    cases hfirst : firstOfTokens limit tokens with
    | error error =>
        rw [hfirst] at h
        cases h
    | ok result =>
        rcases result with ⟨json', rest⟩
        rw [hfirst] at h
        obtain ⟨w, htokens, hjson⟩ := exists_written_of_run (Reached.value []) hfirst
        change (if rest = [] then _ else _) = _ at h
        split at h
        · rename_i hnil
          cases h
          rw [hnil, List.append_nil] at htokens
          -- a document that is too deep would have been refused
          refine ⟨w, htokens.symm, hjson, fun hdeep => ?_⟩
          have hread := firstOfTokens_tokens limit w []
          rw [List.append_nil, ← htokens, if_pos hdeep] at hread
          cases hfirst.symm.trans hread
        · cases h
  · rintro ⟨w, rfl, rfl, hdeep⟩
    rw [ofTokens_tokens, if_neg hdeep]

/-- The depth stops the reader exactly when a value starts too deep. -/
theorem ofTokens_eq_tooDeep_iff {limit : Nat} {tokens : List Token} :
    ofTokens (some limit) tokens = .error .tooDeep ↔ StartsTooDeep limit tokens := by
  constructor
  · intro h
    rw [ofTokens] at h
    cases hfirst : firstOfTokens (some limit) tokens with
    | error error =>
        rw [hfirst] at h
        cases h
        exact startsTooDeep_of_run (Reached.value []) hfirst
    | ok result =>
        rw [hfirst] at h
        change (if result.2 = [] then _ else _) = _ at h
        split at h <;> cases h
  · intro h
    rw [ofTokens, firstOfTokens, run_of_startsTooDeep h]
    rfl

/-- Under a limit a value is too deep, or the result is the one without a limit. -/
theorem ofTokens_none (limit : Option Nat) (tokens : List Token) :
    ofTokens limit tokens = .error .tooDeep ∨ ofTokens none tokens = ofTokens limit tokens := by
  rw [ofTokens, ofTokens, firstOfTokens, firstOfTokens]
  rcases run_none limit (.value []) tokens with htoo | hsame
  · rw [htoo]
    exact .inl rfl
  · rw [hsame]
    exact .inr rfl

/-- Without a limit nothing is too deep. -/
theorem ofTokens_none_ne_tooDeep (tokens : List Token) : ofTokens none tokens ≠ .error .tooDeep := by
  intro h
  -- no value starts deeper than there are tokens, so a limit of that size makes no difference
  have hlimit : ofTokens (some tokens.length) tokens ≠ .error .tooDeep := by
    rw [ne_eq, ofTokens_eq_tooDeep_iff]
    intro hdeep
    exact absurd hdeep.lt_length (Nat.lt_irrefl _)
  rcases ofTokens_none (some tokens.length) tokens with htoo | hsame
  · exact hlimit htoo
  · exact hlimit (hsame.symm.trans h)

/-- The text is exactly one document: the tokens of the document, with blanks around them. -/
def Written.StandsIn (w : Written) (text : String) : Prop := w.tokens = Token.scan text.toList

/-- A text is read without a limit exactly when a document stands in it. -/
theorem read_none_eq_ok_iff {text : String} {json : Json} :
    read none text = .ok json ↔ ∃ w : Written, w.StandsIn text ∧ w.toJson = json := by
  rw [read, ofTokens_eq_ok_iff]
  simp only [not_exceeds_none, not_false_eq_true, and_true, Written.StandsIn]

end DocQuery.Json
