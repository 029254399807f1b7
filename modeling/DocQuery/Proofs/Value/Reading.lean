import DocQuery.Proofs.Json.Scanning
import DocQuery.Proofs.Value.Tags

/-!
# Reading with a depth limit

Reading a text bounds its depth token by token, and converting the document bounds it again. The
second bound never matters for a document that passed the first (`fromJson_notTooDeep`), so a text
is read as a plain document and then converted, unless a value in it lies too deep, and a text that
is no document has no fault of a tag (`parseWith_eq`).
-/

set_option autoImplicit false

namespace DocQuery

/-- The result is not the error of a depth limit. -/
def NotTooDeep {α : Type} (result : Except ValueError α) : Prop :=
  ∀ limit, result ≠ .error (.tooDeep limit)

theorem notTooDeep_ok {α : Type} (a : α) : NotTooDeep (.ok a) := by
  rintro limit ⟨⟩

theorem NotTooDeep.map {α β : Type} {result : Except ValueError α} (h : NotTooDeep result)
    (f : α → β) : NotTooDeep (result.map f) := by
  cases result with
  | error e =>
      rintro limit ⟨⟩
      exact h limit rfl
  | ok a => exact notTooDeep_ok (f a)

theorem NotTooDeep.bind {α β : Type} {result : Except ValueError α} {f : α → Except ValueError β}
    (h : NotTooDeep result) (hf : ∀ a, NotTooDeep (f a)) : NotTooDeep (result >>= f) := by
  cases result with
  | error e =>
      rintro limit ⟨⟩
      exact h limit rfl
  | ok a => exact hf a

namespace Value

/-! ## Tags do not look at the depth -/

theorem expectString_notTooDeep (tag : Tag) (payload : Json) :
    NotTooDeep (expectString tag payload) := by
  cases payload <;> rintro limit ⟨⟩

theorem refOfJson_notTooDeep (payload : Json) : NotTooDeep (refOfJson payload) := by
  refine (expectString_notTooDeep .ref payload).bind fun id => ?_
  cases Ref.ofId? id <;> rintro limit ⟨⟩

theorem timestampOfJson_notTooDeep (payload : Json) : NotTooDeep (timestampOfJson payload) := by
  refine (expectString_notTooDeep .timestamp payload).bind fun raw => ?_
  cases Timestamp.parse raw <;> rintro limit ⟨⟩

theorem dateOfJson_notTooDeep (payload : Json) : NotTooDeep (dateOfJson payload) := by
  refine (expectString_notTooDeep .date payload).bind fun raw => ?_
  cases Date.parse raw <;> rintro limit ⟨⟩

/-! ## Documents within the limit -/

theorem itemsOfJson_notTooDeep {limit depth : Nat} {items : List Json}
    (h : ∀ item ∈ items, NotTooDeep (ofJson limit depth item)) :
    NotTooDeep (itemsOfJson limit depth items) := by
  induction items with
  | nil => exact notTooDeep_ok _
  | cons item items ih =>
      rw [List.forall_mem_cons] at h
      rw [itemsOfJson]
      apply h.1.bind
      intro v
      apply (ih h.2).bind
      intro vs
      exact notTooDeep_ok _

theorem membersOfJson_notTooDeep {limit depth : Nat} {bound : Option String}
    {members : Entries Json bound}
    (h : ∀ entry ∈ members.toList, NotTooDeep (ofJson limit depth entry.2)) :
    NotTooDeep (membersOfJson limit depth members) := by
  induction members with
  | nil => exact notTooDeep_ok _
  | cons key above member members ih =>
      rw [Entries.toList, List.forall_mem_cons] at h
      rw [membersOfJson]
      apply h.1.bind
      intro v
      apply (ih h.2).bind
      intro vs
      exact notTooDeep_ok _

theorem ofJson_notTooDeep {limit depth : Nat} {json : Json} (h : depth + json.depth ≤ limit) :
    NotTooDeep (ofJson limit depth json) := by
  have hdepth : ¬ limit < depth := by omega
  induction json using recTagged generalizing depth with
  | null =>
      rw [ofJson, if_neg hdepth]
      exact notTooDeep_ok _
  | bool b =>
      rw [ofJson, if_neg hdepth]
      exact notTooDeep_ok _
  | number n =>
      rw [ofJson, if_neg hdepth]
      exact notTooDeep_ok _
  | string s =>
      rw [ofJson, if_neg hdepth]
      exact notTooDeep_ok _
  | array items ih =>
      rw [ofJson, if_neg hdepth]
      apply NotTooDeep.map
      apply itemsOfJson_notTooDeep
      intro item hmem
      have hle := Json.le_itemsDepth hmem
      rw [Json.depth] at h
      exact ih item hmem (by omega) (by omega)
  | tagged tag payload ih ihmembers =>
      rw [depth_tagged] at h
      rw [ofJson_tagged, if_neg hdepth]
      cases tag with
      | ref => exact refOfJson_notTooDeep payload
      | timestamp => exact timestampOfJson_notTooDeep payload
      | date => exact dateOfJson_notTooDeep payload
      | set => exact (ih (by omega) (by omega)).map _
      | object =>
          cases payload with
          | object members =>
              -- the object under its tag is passed over, so its members lie two levels below
              apply NotTooDeep.map
              apply membersOfJson_notTooDeep
              intro entry hmem
              have hle := Json.le_membersDepth hmem
              rw [Json.depth] at h
              exact ihmembers members rfl entry hmem (by omega) (by omega)
          | null | bool _ | number _ | string _ | array _ => rintro l ⟨⟩
  | untagged members htag ih =>
      rw [ofJson_untagged limit depth htag, if_neg hdepth]
      apply NotTooDeep.map
      apply membersOfJson_notTooDeep
      intro entry hmem
      have hle := Json.le_membersDepth hmem
      rw [Json.depth] at h
      exact ih entry hmem (by omega) (by omega)

/-- **The second bound on the depth never matters.** -/
theorem fromJson_notTooDeep {limit : Nat} {json : Json} (h : json.depth ≤ limit) :
    NotTooDeep (fromJson limit json) :=
  ofJson_notTooDeep (by omega)

/-! ## Texts -/

open Json (Written Token StartsTooDeep)

theorem parseWith_eq_tooDeep_of_read {limit : Nat} {text : String}
    (h : Json.read (some limit) text = .error .tooDeep) :
    parseWith limit text = .error (.tooDeep limit) := by
  rw [parseWith, h]

/-- A text in which a document stands is converted, unless the document is too deep. -/
theorem parseWith_of_standsIn {limit : Nat} {text : String} {w : Written} (h : w.StandsIn text) :
    parseWith limit text =
      if limit < w.depth then .error (.tooDeep limit) else fromJson limit w.toJson := by
  have hread := Json.ofTokens_some_tokens limit w
  rw [h, ← Json.read] at hread
  split
  · rename_i hdeep
    rw [if_pos hdeep] at hread
    exact parseWith_eq_tooDeep_of_read hread
  · rename_i hdeep
    rw [if_neg hdeep] at hread
    rw [parseWith, hread]

/-- A value is read exactly when the text is one document within the limit that is converted to
it. -/
theorem parseWith_eq_ok_iff {limit : Nat} {text : String} {v : Value} :
    parseWith limit text = .ok v ↔
      ∃ w : Written, w.StandsIn text ∧ w.depth ≤ limit ∧ fromJson limit w.toJson = .ok v := by
  constructor
  · intro h
    cases hread : Json.read (some limit) text with
    | ok json =>
        obtain ⟨w, hw, rfl, hdepth⟩ := Json.ofTokens_eq_ok_iff.1 hread
        rw [Json.ReaderState.exceeds_some_iff, Nat.not_lt] at hdepth
        rw [parseWith_of_standsIn hw, if_neg (Nat.not_lt.2 hdepth)] at h
        exact ⟨w, hw, hdepth, h⟩
    | error error =>
        rw [parseWith, hread] at h
        cases error <;> cases h
  · rintro ⟨w, hw, hdepth, h⟩
    rw [parseWith_of_standsIn hw, if_neg (Nat.not_lt.2 hdepth)]
    exact h

/-- A text that is no document has no other fault than that, at the place where it is one without a
limit too, or that a value in it starts too deep. -/
theorem parseWith_of_not_standsIn {text : String} (h : ∀ w : Written, ¬ w.StandsIn text)
    (limit : Nat) :
    ∃ unread, Json.read none text = .error (.malformed unread) ∧
      (parseWith limit text = .error (.json unread) ∨
        parseWith limit text = .error (.tooDeep limit)) ∧
      (parseWith limit text = .error (.tooDeep limit) ↔
        StartsTooDeep limit (Token.scan text.toList)) := by
  -- a text that is read is a document, so the reader fails without a limit
  obtain ⟨unread, hplain⟩ : ∃ unread, Json.read none text = .error (.malformed unread) := by
    cases hread : Json.read none text with
    | ok json =>
        obtain ⟨w, hw, -⟩ := Json.read_none_eq_ok_iff.1 hread
        exact absurd hw (h w)
    | error error =>
        cases error with
        | malformed unread => exact ⟨unread, rfl⟩
        | tooDeep => exact absurd hread (Json.ofTokens_none_ne_tooDeep _)
  refine ⟨unread, hplain, ?_⟩
  rw [← Json.ofTokens_eq_tooDeep_iff, ← Json.read, parseWith]
  -- with the limit it fails at the same place, or before that because of the depth
  rcases Json.ofTokens_none (some limit) (Token.scan text.toList) with htoo | hsame
  · rw [← Json.read] at htoo
    rw [htoo]
    exact ⟨.inr rfl, fun _ => rfl, fun _ => rfl⟩
  · rw [← Json.read, ← Json.read, hplain] at hsame
    rw [← hsame]
    exact ⟨.inl rfl, by rintro ⟨⟩, by rintro ⟨⟩⟩

/-- **Reading with a limit.** A text that is a document within the limit is converted from its
plain tree, where the depth is no fault any more; if the document is deeper, that is the only fault.
A text that is no document is told to be none, at the place where reading without a limit stops, or
to be too deep when a value starts too deep before that. -/
theorem parseWith_eq (limit : Nat) (text : String) :
    (∀ w : Written, w.StandsIn text →
      Json.read none text = .ok w.toJson ∧
        (w.depth ≤ limit →
          parseWith limit text = fromJson limit w.toJson ∧ NotTooDeep (parseWith limit text)) ∧
        (limit < w.depth → parseWith limit text = .error (.tooDeep limit))) ∧
      ((∀ w : Written, ¬ w.StandsIn text) →
        ∃ unread, Json.read none text = .error (.malformed unread) ∧
          (parseWith limit text = .error (.json unread) ∨
            parseWith limit text = .error (.tooDeep limit)) ∧
          (parseWith limit text = .error (.tooDeep limit) ↔
            StartsTooDeep limit (Token.scan text.toList))) := by
  refine ⟨fun w hw => ⟨Json.read_none_eq_ok_iff.2 ⟨w, hw, rfl⟩, ?_, ?_⟩,
    fun h => parseWith_of_not_standsIn h limit⟩
  · intro hdepth
    rw [parseWith_of_standsIn hw, if_neg (Nat.not_lt.2 hdepth)]
    exact ⟨rfl, fromJson_notTooDeep ((Json.depth_toJson_le w).trans hdepth)⟩
  · intro hdepth
    rw [parseWith_of_standsIn hw, if_pos hdepth]

/-- An object that gives its key twice: first with an array around an array, and then with a
reference. -/
def givenTwice : Written :=
  .object [("owner", .array [.array [.null]]), ("owner", .object [("@ref", .string "classes/a")])]

/-- The text of that object. -/
def givenTwiceText : String := String.ofList (givenTwice.tokens.flatMap Token.write)

/-- The tokens of an array that is not closed, around a timestamp that holds no text. -/
def unclosed : List Token := [.openArray, .openObject, .string "@ts", .colon, .null, .closeObject]

/-- Their text. -/
def unclosedText : String := String.ofList (unclosed.flatMap Token.write)

/-- The array that the reference replaces counts for the depth, and that the timestamp is none is
never reported: the array is not closed. -/
theorem parseWith_eq_givenTwice :
    (givenTwice.StandsIn givenTwiceText ∧ givenTwice.depth = 3 ∧ givenTwice.toJson.depth = 2 ∧
      parseWith 3 givenTwiceText = .ok (object (Dict.single "owner" (ref (Ref.ofClass "a")))) ∧
      parseWith 2 givenTwiceText = .error (.tooDeep 2)) ∧
    ((∀ w : Written, ¬ w.StandsIn unclosedText) ∧ parseWith 2 unclosedText = .error (.json 0) ∧
      parseWith 1 unclosedText = .error (.tooDeep 1)) := by
  have hstands : givenTwice.StandsIn givenTwiceText := by
    rw [Written.StandsIn, givenTwiceText, String.toList_ofList, Json.scan_flatMap (by decide)]
  have hscan : Token.scan unclosedText.toList = unclosed := by
    rw [unclosedText, String.toList_ofList, Json.scan_flatMap (by decide)]
  have hplain : Json.read none unclosedText = .error (.malformed 0) := by
    rw [Json.read, hscan]
    rfl
  have hnone (w : Written) : ¬ w.StandsIn unclosedText := by
    intro hw
    rw [Json.read_none_eq_ok_iff.2 ⟨w, hw, rfl⟩] at hplain
    cases hplain
  refine ⟨⟨hstands, by decide, by decide, ?_, ?_⟩, hnone, ?_, ?_⟩
  · rw [(((parseWith_eq 3 _).1 _ hstands).2.1 (by decide)).1]
    rfl
  · exact ((parseWith_eq 2 _).1 _ hstands).2.2 (by decide)
  · obtain ⟨unread, hunread, hresult, hdeep⟩ := (parseWith_eq 2 _).2 hnone
    cases hplain.symm.trans hunread
    rcases hresult with hjson | htoo
    · exact hjson
    · rw [hdeep, hscan, ← Json.ofTokens_eq_tooDeep_iff] at htoo
      cases htoo
  · obtain ⟨unread, -, -, hdeep⟩ := (parseWith_eq 1 _).2 hnone
    rw [hdeep, hscan, ← Json.ofTokens_eq_tooDeep_iff]
    rfl

end Value

end DocQuery
