import DocQuery.Proofs.Binary64.Nearest
import DocQuery.Proofs.Shape.Decoded
import DocQuery.Proofs.Shape.RoundTrip

/-!
# Writing again what was decoded

Not all data of a shape can be written and read back, but decoded data can. Its doubles are those of
the value it was decoded from, or nearest to integers there, so they are finite when those of the
value are (`Shape.isFinite_of_decode`). And null is decoded to data that is not there wherever data
may be missing, so nothing that is there is written as null (`Shape.nullMeansNone_of_decode`). Hence
decoding, encoding and decoding again ends with the data it started from (`Shape.decode_stable`):
what a shape reads of a value survives, and what it does not read is gone after one turn.
-/

set_option autoImplicit false

namespace DocQuery

/-- What stands for a missing member is left out again. -/
theorem Shape.isOmitted_of_absent? {shape : Shape} {x : shape.Data} (h : shape.absent? = some x) :
    shape.isOmitted x = true := by
  cases shape with
  | option content =>
      obtain rfl := Option.some.inj h
      rfl
  | _ => cases h

/-! ## Doubles -/

/-- A double is decoded from itself or from an integer, which is nearest to a finite double. -/
theorem isFinite_of_decode_double {v : Value} {d : Binary64} (h : Codec.double.decode v = .ok d)
    (hv : v.AllFinite) : d.isFinite = true := by
  have hpayload : v.asDouble? = some d := expect_eq_ok_iff.1 h
  cases v with
  | double d' =>
      obtain rfl := Option.some.inj hpayload
      exact hv d' .whole
  | long n =>
      obtain rfl := Option.some.inj hpayload
      exact Binary64.isFinite_ofInt (Binary64.natAbs_toInt_lt n)
  | _ => cases hpayload

mutual

/-- Decoded data has finite doubles when the value has. -/
theorem Shape.isFinite_of_decode : (shape : Shape) → {v : Value} → {x : shape.Data} →
    shape.decode v = .ok x → v.AllFinite → ∀ d ∈ shape.doubles x, d.isFinite = true
  | .double, _, _, h, hv, _, hd => by
      obtain rfl := List.mem_singleton.1 hd
      exact isFinite_of_decode_double h hv
  | .option _, _, none, _, _, _, hd => absurd hd List.not_mem_nil
  | .option content, _, some x, h, hv, d, hd => by
      rcases decode_option_eq_ok_iff.1 h with ⟨-, ⟨⟩⟩ | ⟨y, -, hy, ⟨⟩⟩
      exact Shape.isFinite_of_decode content hy hv d hd
  | .list item, _, _, h, hv, d, hd => by
      obtain ⟨items, rfl, hitems⟩ := decodeArray_eq_ok_iff.1 h
      obtain ⟨x, hx, hd⟩ := List.mem_flatMap.1 hd
      obtain ⟨v, hmem, hdecode⟩ := exists_mem_of_forall₂ hitems hx
      exact Shape.isFinite_of_decode item hdecode (hv.part (.item hmem .whole)) d hd
  | .map member, _, _, h, hv, d, hd => by
      obtain ⟨members, rfl, hmembers⟩ := decodeObject_eq_ok_iff.1 h
      obtain ⟨entry, hentry, hd⟩ := List.mem_flatMap.1 hd
      obtain ⟨v, hmem, hdecode⟩ := hmembers.exists_mem_left hentry
      exact Shape.isFinite_of_decode member hdecode (hv.part (.member hmem .whole)) d hd
  | .record _ fields, _, _, h, hv, d, hd => by
      obtain ⟨members, rfl, hfields⟩ := decode_record_eq_ok_iff.1 h
      apply Fields.isFinite_of_decode fields hfields _ d hd
      intro entry hmem
      exact hv.part (.member hmem .whole)
  | .string, _, _, _, _, _, hd | .boolean, _, _, _, _, _, hd | .int32, _, _, _, _, _, hd
  | .long, _, _, _, _, _, hd | .ref, _, _, _, _, _, hd | .timestamp, _, _, _, _, _, hd
  | .date, _, _, _, _, _, hd | .value, _, _, _, _, _, hd | .set, _, _, _, _, _, hd =>
      absurd hd List.not_mem_nil

theorem Fields.isFinite_of_decode : (fields : Fields) → {members : Dict Value} →
    {x : fields.Data} → fields.decode members = .ok x →
    (∀ entry ∈ Entries.toList members, entry.2.AllFinite) →
    ∀ d ∈ fields.doubles x, d.isFinite = true
  | .nil, _, _, _, _, _, hd => absurd hd List.not_mem_nil
  | .cons key shape rest, members, (x, xs), h, hv, d, hd => by
      obtain ⟨hx, hxs⟩ := Fields.decode_cons_eq_ok_iff.1 h
      rcases List.mem_append.1 hd with hd | hd
      · -- the member is there and has finite doubles, or it is missing and stands for no doubles
        rcases hx with ⟨v, hfind, hx⟩ | ⟨-, habsent⟩
        · have hmem := (Entries.mem_toList_iff members).2 hfind
          exact Shape.isFinite_of_decode shape hx (hv _ hmem) d hd
        · rw [Shape.doubles_of_isOmitted (Shape.isOmitted_of_absent? habsent)] at hd
          cases hd
      · exact Fields.isFinite_of_decode rest hxs hv d hd

end

/-! ## Null -/

/-- Decoded data is written as null only when it was decoded from null. -/
theorem Shape.eq_null_of_encode : (shape : Shape) → {v : Value} → {x : shape.Data} →
    shape.decode v = .ok x → shape.encode x = .ok .null → v = .null
  | .value, _, _, h, hnull => (Except.ok.inj h).trans (Except.ok.inj hnull)
  | .option content, _, _, h, hnull => by
      rcases decode_option_eq_ok_iff.1 h with ⟨hv, -⟩ | ⟨y, -, hy, rfl⟩
      · exact hv
      · exact Shape.eq_null_of_encode content hy hnull
  | .double, _, _, _, hnull => by
      simp only [Shape.encode, Codec.double] at hnull
      split at hnull <;> cases hnull
  | .list _, _, _, _, hnull | .map _, _, _, _, hnull | .record _ _, _, _, _, hnull => by
      obtain ⟨_, -, ⟨⟩⟩ := exists_of_map_eq_ok hnull
  | .string, _, _, _, hnull | .boolean, _, _, _, hnull | .int32, _, _, _, hnull
  | .long, _, _, _, hnull | .ref, _, _, _, hnull | .timestamp, _, _, _, hnull
  | .date, _, _, _, hnull | .set, _, _, _, hnull => by
      cases hnull

mutual

/-- In decoded data nothing that is there is written as null. -/
theorem Shape.nullMeansNone_of_decode : (shape : Shape) → {v : Value} → {x : shape.Data} →
    shape.decode v = .ok x → shape.NullMeansNone x
  | .option content, _, _, h => by
      rcases decode_option_eq_ok_iff.1 h with ⟨-, rfl⟩ | ⟨y, hv, hy, rfl⟩
      · exact trivial
      · -- what is there was decoded from a value that is not null
        refine ⟨?_, Shape.nullMeansNone_of_decode content hy⟩
        intro hnull
        exact hv (Shape.eq_null_of_encode content hy hnull)
  | .list item, _, _, h => by
      obtain ⟨items, -, hitems⟩ := decodeArray_eq_ok_iff.1 h
      intro x hx
      obtain ⟨v, -, hdecode⟩ := exists_mem_of_forall₂ hitems hx
      exact Shape.nullMeansNone_of_decode item hdecode
  | .map member, _, _, h => by
      obtain ⟨members, -, hmembers⟩ := decodeObject_eq_ok_iff.1 h
      intro entry hentry
      obtain ⟨v, -, hdecode⟩ := hmembers.exists_mem_left hentry
      exact Shape.nullMeansNone_of_decode member hdecode
  | .record _ fields, _, _, h => by
      obtain ⟨members, -, hfields⟩ := decode_record_eq_ok_iff.1 h
      exact Fields.nullMeansNone_of_decode fields hfields
  | .string, _, _, _ | .boolean, _, _, _ | .int32, _, _, _ | .long, _, _, _ | .double, _, _, _
  | .ref, _, _, _ | .timestamp, _, _, _ | .date, _, _, _ | .value, _, _, _ | .set, _, _, _ => trivial

theorem Fields.nullMeansNone_of_decode : (fields : Fields) → {members : Dict Value} →
    {x : fields.Data} → fields.decode members = .ok x → fields.NullMeansNone x
  | .nil, _, _, _ => trivial
  | .cons key shape rest, members, (x, xs), h => by
      obtain ⟨hx, hxs⟩ := Fields.decode_cons_eq_ok_iff.1 h
      refine ⟨?_, Fields.nullMeansNone_of_decode rest hxs⟩
      -- a missing member stands for data that is not there
      rcases hx with ⟨v, -, hx⟩ | ⟨-, habsent⟩
      · exact Shape.nullMeansNone_of_decode shape hx
      · exact (Shape.absent?_of_isOmitted (Shape.isOmitted_of_absent? habsent)).2
end

/-! ## Decoding, encoding and decoding again -/

/-- **What was decoded is stable.** Data that was decoded from a value with finite doubles can be
written, and what is written is decoded to the same data, which is written the same way again. It is
null only when the value was. -/
theorem Shape.decode_stable {shape : Shape} (hkeys : shape.DistinctKeys) {v : Value}
    (hfinite : v.AllFinite) {x : shape.Data} (h : shape.decode v = .ok x) :
    ∃ w, shape.encode x = .ok w ∧ shape.decode w = .ok x ∧
      (∀ y, shape.decode w = .ok y → shape.encode y = .ok w) ∧ (w = .null → v = .null) := by
  obtain ⟨w, hw⟩ := Shape.encode_isOk_iff.2 (Shape.isFinite_of_decode shape h hfinite)
  have hread := (Shape.decode_encode_iff shape hkeys hw).2 (Shape.nullMeansNone_of_decode shape h)
  refine ⟨w, hw, hread, ?_, ?_⟩
  · -- decoding again has no other result
    intro y hy
    rw [hread] at hy
    obtain rfl := Except.ok.inj hy
    exact hw
  · rintro rfl
    exact Shape.eq_null_of_encode shape h hw

/-- A record with optional data, a double and a dictionary of optional data. -/
def trial : Shape :=
  .record "Trial" (.ofList [("name", .option .string), ("score", .double),
    ("marks", .map (.option .long))])

/-- A trial with a member that is not listed, a null for a name and an integer for a score. -/
def looseTrial : Value :=
  .ofMembers [("hint", .string "h"), ("marks", .object (Dict.single "a" .null)), ("name", .null),
    ("score", .long 3)]

/-- The same trial as it is written. -/
def writtenTrial : Value :=
  .ofMembers [("score", .double (Binary64.ofInt 3)), ("marks", .object (Dict.single "a" .null))]

/-- The member that is not listed and the null member of the record are gone after one turn, the null
in the dictionary stays, and the integer has become a double. -/
theorem decode_stable_trial :
    ∃ x, looseTrial.AllFinite ∧ trial.DistinctKeys ∧ trial.decode looseTrial = .ok x ∧
      trial.encode x = .ok writtenTrial ∧ trial.decode writtenTrial = .ok x := by
  have hkeys : trial.DistinctKeys := ⟨by decide, trivial, trivial, trivial, trivial⟩
  have hfinite : looseTrial.AllFinite :=
    Value.toJson_isOk_iff.1 (failure?_eq_none_iff.1 (by decide +kernel))
  have hdecode : trial.decode looseTrial =
      .ok (none, Binary64.ofInt 3, Dict.single "a" none, ()) := rfl
  obtain ⟨w, hw, hread, -⟩ := Shape.decode_stable hkeys hfinite hdecode
  have hencode : trial.encode (none, Binary64.ofInt 3, Dict.single "a" none, ()) =
      .ok writtenTrial := by
    have hthree : (Binary64.ofInt 3).isFinite = true := Binary64.isFinite_ofInt (by decide)
    have hdouble : Codec.double.encode (Binary64.ofInt 3) = .ok (.double (Binary64.ofInt 3)) := by
      simp only [Codec.double, hthree, if_true]
    simp only [trial, Fields.ofList, Shape.encode, Fields.encode, Shape.isOmitted, hdouble]
    rfl
  rw [hencode] at hw
  obtain rfl := Except.ok.inj hw
  exact ⟨_, hfinite, hkeys, hdecode, hencode, hread⟩

end DocQuery
