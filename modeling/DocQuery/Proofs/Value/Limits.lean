import DocQuery.Proofs.Value.Reading

/-!
# Depth limits compared

A larger limit goes further into a document, but it meets the same things in the same order. So the
result under a limit is the error of that limit or the result under every larger one
(`ofJson_of_le`). Each text and each document has a limit from which on the result stays the same
(`raiseLimit_exact`).

Reading a text counts every value. Converting a document that has been read already does not count
all of them, but a document that is converted is never more than one level deeper than the limit
(`depth_le_of_ofJson`). So conversion accepts whatever reading accepts, and reading with one level
more accepts whatever conversion accepts (`conversion_within_one`).
-/

set_option autoImplicit false

namespace DocQuery

/-! ## Trees written down -/

/-- The tree stands in the text: the text is one document that repeats no key and denotes the
tree. -/
def Json.StandsIn (json : Json) (text : String) : Prop :=
  ∃ w : Json.Written, w.StandsIn text ∧ w.DistinctKeys ∧ w.toJson = json

theorem Json.standsIn_ofJson {json : Json} (hback : json.ReadsBack) :
    (Json.Written.ofJson json).StandsIn json.text := by
  rw [Json.Written.StandsIn, Json.Written.tokens_ofJson, Json.scan_document hback]

/-- A tree whose numbers are read back stands in the text that is written for it. -/
theorem Json.standsIn_text {json : Json} (hback : json.ReadsBack) : json.StandsIn json.text :=
  ⟨_, standsIn_ofJson hback, Written.distinctKeys_ofJson json, Written.toJson_ofJson json⟩

/-! ## Two results -/

/-- The first result is the error of the limit, or the second result is the same. -/
def SameUnlessTooDeep {α : Type} (limit : Nat) (result result' : Except ValueError α) : Prop :=
  result = .error (.tooDeep limit) ∨ result' = result

namespace SameUnlessTooDeep

variable {α β : Type} {limit : Nat} {result result' : Except ValueError α}

theorem refl (limit : Nat) (result : Except ValueError α) :
    SameUnlessTooDeep limit result result :=
  .inr rfl

theorem map (h : SameUnlessTooDeep limit result result') (f : α → β) :
    SameUnlessTooDeep limit (result.map f) (result'.map f) := by
  rcases h with rfl | rfl
  · exact .inl rfl
  · exact .inr rfl

/-- Two steps: the second one is taken only when the first results are the same. -/
theorem bind {f f' : α → Except ValueError β} (h : SameUnlessTooDeep limit result result')
    (hf : ∀ a, SameUnlessTooDeep limit (f a) (f' a)) :
    SameUnlessTooDeep limit (result >>= f) (result' >>= f') := by
  rcases h with rfl | rfl
  · exact .inl rfl
  · cases result' with
    | error e => exact .inr rfl
    | ok a => exact hf a

/-- What the larger limit refuses the smaller one refuses too. -/
theorem guard {limit' : Nat} (h : SameUnlessTooDeep limit result result') (hle : limit ≤ limit')
    (depth : Nat) :
    SameUnlessTooDeep limit (if limit < depth then .error (.tooDeep limit) else result)
      (if limit' < depth then .error (.tooDeep limit') else result') := by
  by_cases hdepth : limit < depth
  · rw [if_pos hdepth]
    exact .inl rfl
  · rw [if_neg hdepth, if_neg (by omega)]
    exact h

end SameUnlessTooDeep

namespace Value

/-! ## Raising the limit -/

section

variable {limit limit' : Nat}

theorem itemsOfJson_of_le {depth : Nat} {items : List Json}
    (h : ∀ item ∈ items,
      SameUnlessTooDeep limit (ofJson limit depth item) (ofJson limit' depth item)) :
    SameUnlessTooDeep limit (itemsOfJson limit depth items) (itemsOfJson limit' depth items) := by
  induction items with
  | nil => exact .refl limit _
  | cons item items ih =>
      rw [List.forall_mem_cons] at h
      rw [itemsOfJson, itemsOfJson]
      apply h.1.bind
      intro v
      apply (ih h.2).bind
      intro vs
      exact .refl limit _

theorem membersOfJson_of_le {depth : Nat} {bound : Option String} {members : Entries Json bound}
    (h : ∀ entry ∈ members.toList,
      SameUnlessTooDeep limit (ofJson limit depth entry.2) (ofJson limit' depth entry.2)) :
    SameUnlessTooDeep limit (membersOfJson limit depth members)
      (membersOfJson limit' depth members) := by
  induction members with
  | nil => exact .refl limit _
  | cons key above member members ih =>
      rw [Entries.toList, List.forall_mem_cons] at h
      rw [membersOfJson, membersOfJson]
      apply h.1.bind
      intro v
      apply (ih h.2).bind
      intro vs
      exact .refl limit _

/-- **A larger limit changes nothing but the error of the limit.** -/
theorem ofJson_of_le (hle : limit ≤ limit') (depth : Nat) (json : Json) :
    SameUnlessTooDeep limit (ofJson limit depth json) (ofJson limit' depth json) := by
  -- every level looks at the limit first, and then goes on in the same way under both
  induction json using recTagged generalizing depth with
  | null =>
      rw [ofJson, ofJson]
      exact (SameUnlessTooDeep.refl limit _).guard hle depth
  | bool b =>
      rw [ofJson, ofJson]
      exact (SameUnlessTooDeep.refl limit _).guard hle depth
  | number n =>
      rw [ofJson, ofJson]
      exact (SameUnlessTooDeep.refl limit _).guard hle depth
  | string s =>
      rw [ofJson, ofJson]
      exact (SameUnlessTooDeep.refl limit _).guard hle depth
  | array items ih =>
      rw [ofJson, ofJson]
      refine SameUnlessTooDeep.guard ?_ hle depth
      apply SameUnlessTooDeep.map
      apply itemsOfJson_of_le
      intro item hmem
      exact ih item hmem (depth + 1)
  | tagged tag payload ih ihmembers =>
      rw [ofJson_tagged, ofJson_tagged]
      refine SameUnlessTooDeep.guard ?_ hle depth
      cases tag with
      | ref => exact .refl limit _
      | timestamp => exact .refl limit _
      | date => exact .refl limit _
      | set => exact (ih (depth + 1)).map set
      | object =>
          cases payload with
          | object members =>
              apply SameUnlessTooDeep.map
              apply membersOfJson_of_le
              intro entry hmem
              exact ihmembers members rfl entry hmem (depth + 2)
          | null | bool _ | number _ | string _ | array _ => exact .refl limit _
  | untagged members htag ih =>
      rw [ofJson_untagged limit depth htag, ofJson_untagged limit' depth htag]
      refine SameUnlessTooDeep.guard ?_ hle depth
      apply SameUnlessTooDeep.map
      apply membersOfJson_of_le
      intro entry hmem
      exact ih entry hmem (depth + 1)

end

open Json (Written Token)

theorem parseWith_of_le {limit limit' : Nat} (hle : limit ≤ limit') (text : String) :
    SameUnlessTooDeep limit (parseWith limit text) (parseWith limit' text) := by
  by_cases hstands : ∃ w : Written, w.StandsIn text
  · obtain ⟨w, hw⟩ := hstands
    rw [parseWith_of_standsIn hw, parseWith_of_standsIn hw]
    exact (ofJson_of_le hle 0 w.toJson).guard hle w.depth
  · obtain ⟨unread, hplain, hresult, hdeep⟩ :=
      parseWith_of_not_standsIn (not_exists.1 hstands) limit
    obtain ⟨unread', hplain', hresult', hdeep'⟩ :=
      parseWith_of_not_standsIn (not_exists.1 hstands) limit'
    rcases hresult with hjson | htoo
    · -- nothing starts too deep for the larger limit that does not for the smaller one
      rcases hresult' with hjson' | htoo'
      · -- under both limits the reader stops where it stops without one
        cases hplain.symm.trans hplain'
        rw [hjson, hjson']
        exact .refl limit _
      · have hsmaller := hdeep.2 ((hdeep'.1 htoo').of_le hle)
        rw [hjson] at hsmaller
        cases hsmaller
    · exact .inl htoo

/-- Below some limit every result is the error of its own limit. From there on all results are the
same one, and that is no such error. -/
def Settles (results : Nat → Except ValueError Value) : Prop :=
  ∃ least result, NotTooDeep result ∧
    ∀ limit, results limit = if limit < least then .error (.tooDeep limit) else result

section

variable {results : Nat → Except ValueError Value}

theorem settles_of_le
    (hle : ∀ {limit limit' : Nat}, limit ≤ limit' →
      SameUnlessTooDeep limit (results limit) (results limit'))
    (hend : ∃ limit, NotTooDeep (results limit)) : Settles results := by
  classical
  have hspec := Nat.find_spec hend
  refine ⟨Nat.find hend, results (Nat.find hend), hspec, ?_⟩
  intro limit
  split
  · rename_i hlt
    rcases hle (Nat.le_of_lt hlt) with h | h
    · exact h
    · -- the same result would have been reached under a smaller limit
      rw [h] at hspec
      exact absurd hspec (Nat.find_min hend hlt)
  · rename_i hge
    rcases hle (Nat.not_lt.1 hge) with h | h
    · exact absurd h (hspec _)
    · exact h

theorem Settles.eq_of_le (h : Settles results) {limit limit' : Nat} (hle : limit ≤ limit')
    (hresult : NotTooDeep (results limit)) : results limit' = results limit := by
  obtain ⟨least, result, -, hall⟩ := h
  have hleast : ¬ limit < least := by
    intro hlt
    rw [hall limit, if_pos hlt] at hresult
    exact hresult limit rfl
  rw [hall limit, hall limit', if_neg hleast, if_neg (by omega)]

end

theorem settles_fromJson (json : Json) : Settles fun limit => fromJson limit json := by
  apply settles_of_le
  · intro limit limit' hle
    exact ofJson_of_le hle 0 json
  · exact ⟨json.depth, fromJson_notTooDeep (Nat.le_refl _)⟩

theorem settles_parseWith (text : String) : Settles fun limit => parseWith limit text := by
  apply settles_of_le
  · intro limit limit' hle
    exact parseWith_of_le hle text
  · by_cases hstands : ∃ w : Written, w.StandsIn text
    · obtain ⟨w, hw⟩ := hstands
      refine ⟨w.depth, ?_⟩
      rw [parseWith_of_standsIn hw, if_neg (Nat.lt_irrefl _)]
      exact fromJson_notTooDeep (Json.depth_toJson_le w)
    · -- nothing starts deeper than there are tokens
      refine ⟨(Token.scan text.toList).length, ?_⟩
      obtain ⟨unread, -, hresult, hdeep⟩ :=
        parseWith_of_not_standsIn (not_exists.1 hstands) (Token.scan text.toList).length
      rcases hresult with hjson | htoo
      · rw [hjson]
        rintro limit ⟨⟩
      · exact absurd (hdeep.1 htoo).lt_length (Nat.lt_irrefl _)

/-- **A depth limit only adds its own error.** A result that is not too deep stays the same under
every larger limit, be it a value or an error, for texts and for documents; of a text that is no
document the place where the reader stopped is the same. Each text and each document has a limit below
which it is too deep, and from which on its result is always the same. -/
theorem raiseLimit_exact :
    (∀ (text : String) (limit limit' : Nat), limit ≤ limit' → NotTooDeep (parseWith limit text) →
        parseWith limit' text = parseWith limit text) ∧
      (∀ (json : Json) (limit limit' : Nat), limit ≤ limit' → NotTooDeep (fromJson limit json) →
        fromJson limit' json = fromJson limit json) ∧
      (∀ text : String, Settles fun limit => parseWith limit text) ∧
      ∀ json : Json, Settles fun limit => fromJson limit json := by
  refine ⟨?_, ?_, settles_parseWith, settles_fromJson⟩
  · intro text limit limit' hle hresult
    exact (settles_parseWith text).eq_of_le hle hresult
  · intro json limit limit' hle hresult
    exact (settles_fromJson json).eq_of_le hle hresult

/-- An array with a date that holds no text. -/
def undated : Json := .array [tagged .date .null]

/-- What is wrong with the date is told from the first limit on that the array lies within. -/
theorem raiseLimit_exact_undated :
    parseWith 1 undated.text = .error (.tooDeep 1) ∧ NotTooDeep (parseWith 2 undated.text) ∧
      NotTooDeep (fromJson 1 undated) ∧
      ∀ limit, 2 ≤ limit → parseWith limit undated.text = .error (.malformedSpecial .date) ∧
        fromJson limit undated = .error (.malformedSpecial .date) := by
  have hback : undated.ReadsBack := by decide
  have hread (limit : Nat) := @parseWith_of_standsIn limit _ _ (Json.standsIn_ofJson hback)
  have htext : parseWith 2 undated.text = .error (.malformedSpecial .date) := (hread 2).trans rfl
  have hjson : fromJson 1 undated = .error (.malformedSpecial .date) := rfl
  have htext' : NotTooDeep (parseWith 2 undated.text) := by
    rw [htext]
    rintro limit ⟨⟩
  have hjson' : NotTooDeep (fromJson 1 undated) := by
    rw [hjson]
    rintro limit ⟨⟩
  refine ⟨(hread 1).trans rfl, htext', hjson', ?_⟩
  intro limit hlimit
  constructor
  · rw [raiseLimit_exact.1 _ 2 limit hlimit htext', htext]
  · rw [raiseLimit_exact.2.1 _ 1 limit (by omega) hjson', hjson]

/-! ## Two ways to count -/

theorem depth_of_expectString {tag : Tag} {payload : Json} {s : String}
    (h : expectString tag payload = .ok s) : payload.depth = 0 := by
  cases payload with
  | string s => rfl
  | null | bool _ | number _ | array _ | object _ => cases h

/-- What is converted under a tag that holds a text has no values in it. -/
theorem depth_of_text_payload {payload : Json} {v : Value}
    (h : refOfJson payload = .ok v ∨ timestampOfJson payload = .ok v ∨
      dateOfJson payload = .ok v) : payload.depth = 0 := by
  rcases h with h | h | h
  · obtain ⟨s, hs, -⟩ := exists_of_bind_eq_ok h
    exact depth_of_expectString hs
  · obtain ⟨s, hs, -⟩ := exists_of_bind_eq_ok h
    exact depth_of_expectString hs
  · obtain ⟨s, hs, -⟩ := exists_of_bind_eq_ok h
    exact depth_of_expectString hs

section

variable {limit outer : Nat}

/-- Items one level inside reach no deeper than each of them does. -/
theorem itemsDepth_le_of_itemsOfJson {items : List Json} {vs : List Value}
    (houter : outer ≤ limit + 1)
    (ih : ∀ item ∈ items, ∀ v, ofJson limit (outer + 1) item = .ok v →
      outer + 1 + item.depth ≤ limit + 1)
    (h : itemsOfJson limit (outer + 1) items = .ok vs) :
    outer + Json.itemsDepth items ≤ limit + 1 := by
  have hle : Json.itemsDepth items ≤ limit + 1 - outer := by
    apply Json.itemsDepth_le_iff.2
    intro item hmem
    obtain ⟨v, -, hv⟩ := exists_mem_of_forall₂ (itemsOfJson_eq_ok_iff.1 h).flip hmem
    have hitem := ih item hmem v hv
    omega
  omega

/-- Members one level inside reach no deeper than each of them does. -/
theorem membersDepth_le_of_membersOfJson {members : Dict Json} {vs : Dict Value}
    (houter : outer ≤ limit + 1)
    (ih : ∀ entry ∈ Entries.toList members, ∀ v, ofJson limit (outer + 1) entry.2 = .ok v →
      outer + 1 + entry.2.depth ≤ limit + 1)
    (h : membersOfJson limit (outer + 1) members = .ok vs) :
    outer + Json.membersDepth members ≤ limit + 1 := by
  have hle : Json.membersDepth members ≤ limit + 1 - outer := by
    apply Json.membersDepth_le_iff.2
    intro entry hmem
    obtain ⟨v, -, hv⟩ := (membersOfJson_eq_ok_iff.1 h).exists_mem_right hmem
    have hentry := ih entry hmem v hv
    omega
  omega

end

/-- **Conversion goes at most one level below the limit.** Only payloads are not counted, and what
lies inside a payload is counted again. -/
theorem depth_le_of_ofJson {limit depth : Nat} {json : Json} {v : Value}
    (h : ofJson limit depth json = .ok v) : depth + json.depth ≤ limit + 1 := by
  induction json using recTagged generalizing depth v with
  | null => exact Nat.le_succ_of_le (le_of_ofJson h)
  | bool b => exact Nat.le_succ_of_le (le_of_ofJson h)
  | number n => exact Nat.le_succ_of_le (le_of_ofJson h)
  | string s => exact Nat.le_succ_of_le (le_of_ofJson h)
  | array items ih =>
      have hdepth := le_of_ofJson h
      rw [ofJson] at h
      obtain ⟨vs, hvs, rfl⟩ := exists_of_map_eq_ok (eq_ok_of_guard h)
      apply itemsDepth_le_of_itemsOfJson (Nat.le_succ_of_le hdepth) _ hvs
      intro item hmem v hv
      exact ih item hmem hv
  | tagged tag payload ih ihmembers =>
      have hdepth := le_of_ofJson h
      rw [ofJson_tagged] at h
      replace h := eq_ok_of_guard h
      rw [depth_tagged]
      cases tag with
      | ref =>
          have hpayload := depth_of_text_payload (.inl h)
          omega
      | timestamp =>
          have hpayload := depth_of_text_payload (.inr (.inl h))
          omega
      | date =>
          have hpayload := depth_of_text_payload (.inr (.inr h))
          omega
      | set =>
          obtain ⟨query, hquery, -⟩ := exists_of_map_eq_ok h
          have hpayload := ih hquery
          omega
      | object =>
          cases payload with
          | object members =>
              -- the object under its tag is passed over; its members start two levels below
              obtain ⟨vs, hvs, -⟩ := exists_of_map_eq_ok h
              have hmembers : depth + 1 + Json.membersDepth members ≤ limit + 1 := by
                apply membersDepth_le_of_membersOfJson (Nat.succ_le_succ hdepth) _ hvs
                intro entry hmem v hv
                exact ihmembers members rfl entry hmem hv
              rw [Json.depth]
              omega
          | null | bool _ | number _ | string _ | array _ => cases h
  | untagged members htag ih =>
      have hdepth := le_of_ofJson h
      rw [ofJson_untagged limit depth htag] at h
      obtain ⟨vs, hvs, -⟩ := exists_of_map_eq_ok (eq_ok_of_guard h)
      apply membersDepth_le_of_membersOfJson (Nat.le_succ_of_le hdepth) _ hvs
      intro entry hmem v hv
      exact ih entry hmem hv

/-- **Reading and conversion differ by one level at most.** For a tree that stands in a text, as it
does in the text that is written for it if its numbers are read back: what is read from the text under
a limit is converted from the tree under that limit, and what is converted from the tree is read from
the text under a limit that is larger by one. -/
theorem conversion_within_one (json : Json) :
    (json.ReadsBack → json.StandsIn json.text) ∧
      ∀ text, json.StandsIn text → ∀ limit v,
        (parseWith limit text = .ok v → fromJson limit json = .ok v) ∧
          (fromJson limit json = .ok v → parseWith (limit + 1) text = .ok v) := by
  refine ⟨Json.standsIn_text, ?_⟩
  rintro text ⟨w, hw, hkeys, rfl⟩ limit v
  rw [parseWith_of_standsIn hw, parseWith_of_standsIn hw]
  constructor
  · exact eq_ok_of_guard
  · intro h
    have hdepth := depth_le_of_ofJson h
    rw [Json.depth_toJson_of_distinctKeys hkeys] at hdepth
    rw [if_neg (by omega)]
    -- the larger limit converts to the same value
    rcases ofJson_of_le (Nat.le_succ limit) 0 w.toJson with htoo | hsame
    · rw [fromJson, htoo] at h
      cases h
    · exact hsame.trans h

/-- A reference as a document. -/
def referred : Json := tagged .ref (.string (Ref.ofClass "spells").id)

/-- The level is needed: a reference lies within limit zero when it is converted, and within limit
one when it is read. -/
theorem conversion_within_one_referred :
    referred.ReadsBack ∧ referred.StandsIn referred.text ∧
      fromJson 0 referred = .ok (ref (Ref.ofClass "spells")) ∧
      parseWith 0 referred.text = .error (.tooDeep 0) ∧
      parseWith 1 referred.text = .ok (ref (Ref.ofClass "spells")) := by
  have hjson : fromJson 0 referred = .ok (ref (Ref.ofClass "spells")) := rfl
  obtain ⟨htext, hall⟩ := conversion_within_one referred
  have hback : referred.ReadsBack := by decide
  have hread := @parseWith_of_standsIn 0 _ _ (Json.standsIn_ofJson hback)
  have hstands := htext hback
  exact ⟨hback, hstands, hjson, hread.trans rfl, (hall referred.text hstands 0 _).2 hjson⟩

end Value

end DocQuery
