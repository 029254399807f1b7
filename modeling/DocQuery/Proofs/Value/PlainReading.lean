import DocQuery.Proofs.Json.Nesting
import DocQuery.Proofs.Value.Reading

/-!
# Reading a plain document first

A text can also be read as a plain document, whose brackets nest within a limit of their own, and be
converted after that. This accepts the texts that reading with the default limit accepts, with the
same values, as long as their arrays and objects nest within that other limit, and it never reports
a depth limit (`deserialize_exact`). The default limit lies above the nesting of plain documents, so
it is never the one that is exceeded.
-/

set_option autoImplicit false

namespace DocQuery.Value

open Json (Written Token)

/-- A document that nests no deeper than plain documents may lies within the default limit. -/
theorem depth_le_defaultLimit {w : Written} (h : w.nesting ≤ plainNesting) :
    w.depth ≤ defaultLimit := by
  have hdepth := w.depth_le_nesting
  unfold plainNesting at h
  unfold defaultLimit
  omega

/-- A text that starts with a document. The document is converted unless it nests too deep, and the
rest of the text is looked at only then. -/
theorem deserialize_of_tokens {text : String} {w : Written} {rest : List Token}
    (h : Token.scan text.toList = w.tokens ++ rest) :
    deserialize text =
      if plainNesting < w.nesting then .error .document
      else (fromJson defaultLimit w.toJson).mapError .value >>= fun v =>
        if rest = [] then .ok v else .error .document := by
  have hread := Json.firstOfTokens_tokens none w rest
  rw [if_neg Json.ReaderState.not_exceeds_none] at hread
  -- the tokens that have been taken are those of the document
  have htaken : (w.tokens ++ rest).take ((w.tokens ++ rest).length - rest.length) = w.tokens := by
    rw [List.length_append, Nat.add_sub_cancel, List.take_left]
  rw [deserialize]
  simp only [h, hread, htaken, Written.nesting_tokens]
  rfl

/-- A text that does not start with a document is not read. -/
theorem deserialize_of_forall_ne {text : String}
    (h : ∀ (w : Written) (rest : List Token), Token.scan text.toList ≠ w.tokens ++ rest) :
    deserialize text = .error .document := by
  rw [deserialize]
  cases hread : Json.firstOfTokens none (Token.scan text.toList) with
  | error error => rfl
  | ok result =>
      rcases result with ⟨json, rest⟩
      obtain ⟨w, htokens, -⟩ := Json.ReaderState.exists_written_of_run (.value []) hread
      exact absurd htokens (h w rest)

/-- A text that is exactly one document is converted, unless the document nests too deep. -/
theorem deserialize_of_standsIn {text : String} {w : Written} (h : w.StandsIn text) :
    deserialize text =
      if plainNesting < w.nesting then .error .document
      else (fromJson defaultLimit w.toJson).mapError .value := by
  have htokens : Token.scan text.toList = w.tokens ++ [] := by
    rw [List.append_nil]
    exact h.symm
  rw [deserialize_of_tokens htokens]
  cases fromJson defaultLimit w.toJson <;> rfl

/-- A text that is read as a value is exactly one document, which does not nest too deep. -/
theorem exists_standsIn_of_deserialize {text : String} {v : Value}
    (h : deserialize text = .ok v) : ∃ w : Written, w.StandsIn text ∧ w.nesting ≤ plainNesting := by
  by_cases hstarts : ∃ (w : Written) (rest : List Token), Token.scan text.toList = w.tokens ++ rest
  · obtain ⟨w, rest, htokens⟩ := hstarts
    rw [deserialize_of_tokens htokens] at h
    split at h
    · cases h
    · rename_i hnests
      obtain ⟨v', -, hrest⟩ := exists_of_bind_eq_ok h
      split at hrest
      · -- nothing follows the document
        rename_i hnil
        rw [hnil, List.append_nil] at htokens
        exact ⟨w, htokens.symm, Nat.not_lt.1 hnests⟩
      · cases hrest
  · have hne := deserialize_of_forall_ne fun w rest htokens => hstarts ⟨w, rest, htokens⟩
    rw [h] at hne
    cases hne

/-- What is wrong with a text is never that its values lie too deep. -/
theorem deserialize_ne_tooDeep (text : String) (limit : Nat) :
    deserialize text ≠ .error (.value (.tooDeep limit)) := by
  by_cases hstarts : ∃ (w : Written) (rest : List Token), Token.scan text.toList = w.tokens ++ rest
  · obtain ⟨w, rest, htokens⟩ := hstarts
    rw [deserialize_of_tokens htokens]
    split
    · rintro ⟨⟩
    · rename_i hnests
      have hdepth : w.toJson.depth ≤ defaultLimit :=
        (Json.depth_toJson_le w).trans (depth_le_defaultLimit (Nat.not_lt.1 hnests))
      have hconverted := fromJson_notTooDeep hdepth limit
      cases hv : fromJson defaultLimit w.toJson with
      | error fault =>
          rintro ⟨⟩
          exact hconverted hv
      | ok v =>
          -- what is wrong behind the document is not the depth
          show (if rest = [] then Except.ok v else .error DeserializeError.document) ≠ _
          split <;> rintro ⟨⟩
  · rw [deserialize_of_forall_ne fun w rest htokens => hstarts ⟨w, rest, htokens⟩]
    rintro ⟨⟩

/-- **Reading a plain document first.** It gives a value exactly when reading with the default limit
gives that value and the arrays and objects of the text nest at most 127 deep, members that later
ones replace included. It never reports a depth limit. -/
theorem deserialize_exact (text : String) :
    (∀ v, deserialize text = .ok v ↔
      parse text = .ok v ∧ ∃ w : Written, w.StandsIn text ∧ w.nesting ≤ 127) ∧
      ∀ limit, deserialize text ≠ .error (.value (.tooDeep limit)) := by
  refine ⟨?_, deserialize_ne_tooDeep text⟩
  -- where both readers get to the conversion, it is the same one
  have hsame (w : Written) (hw : w.StandsIn text) (hnests : w.nesting ≤ plainNesting) :
      deserialize text = (parse text).mapError .value := by
    rw [deserialize_of_standsIn hw, if_neg (Nat.not_lt.2 hnests), parse, parseWith_of_standsIn hw,
      if_neg (Nat.not_lt.2 (depth_le_defaultLimit hnests))]
  intro v
  constructor
  · intro h
    obtain ⟨w, hw, hnests⟩ := exists_standsIn_of_deserialize h
    rw [hsame w hw hnests, mapError_eq_ok_iff] at h
    exact ⟨h, w, hw, hnests⟩
  · rintro ⟨h, w, hw, hnests⟩
    rw [hsame w hw hnests, mapError_eq_ok_iff]
    exact h

end DocQuery.Value
