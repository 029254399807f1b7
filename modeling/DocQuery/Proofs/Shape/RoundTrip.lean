import DocQuery.Proofs.Dict.Lookup
import DocQuery.Proofs.Shape.Decoded
import DocQuery.Proofs.Shape.Encoding
import DocQuery.Response

/-!
# Encoding and decoding by shape

Null stands for optional data that is not there. Data that is there and is written as null is lost,
and nothing else is: what was written is read back exactly when every null in it means that there is
no data (`Shape.decode_encode_iff`). With the doubles that encoding refuses
(`Shape.failure?_encode`), this says all about writing data and reading it back
(`Shape.encode_exact`).
-/

set_option autoImplicit false

namespace DocQuery

mutual

/-- No optional position of the data holds something that is written as null. -/
def Shape.NullMeansNone : (shape : Shape) → shape.Data → Prop
  | .option _, none => True
  | .option content, some x => content.encode x ≠ .ok .null ∧ content.NullMeansNone x
  | .list item, items => ∀ x, List.Mem x items → item.NullMeansNone x
  | .map member, members => ∀ entry ∈ Entries.toList members, member.NullMeansNone entry.2
  | .record _ fields, x => fields.NullMeansNone x
  | .string, _ | .boolean, _ | .int32, _ | .long, _ | .double, _ | .ref, _ | .timestamp, _
  | .date, _ | .value, _ | .set, _ => True

/-- No optional position in the fields holds something that is written as null. -/
def Fields.NullMeansNone : (fields : Fields) → fields.Data → Prop
  | .nil, _ => True
  | .cons _ shape rest, (x, xs) => shape.NullMeansNone x ∧ rest.NullMeansNone xs

end

/-! ## Scalars -/

/-- A payload of a kind is read back. -/
theorem decode_ofKind {α : Type} {kind : Kind} {payload? : Value → Option α} (wrap : α → Value)
    (hpayload : ∀ x, payload? (wrap x) = some x) {x : α} {v : Value}
    (h : (Codec.ofKind kind payload? wrap).encode x = .ok v) :
    (Codec.ofKind kind payload? wrap).decode v = .ok x := by
  have hv : wrap x = v := Except.ok.inj h
  rw [← hv]
  simp only [Codec.ofKind, Codec.expect, hpayload]

theorem decode_double {d : Binary64} {v : Value} (h : Codec.double.encode d = .ok v) :
    Codec.double.decode v = .ok d := by
  simp only [Codec.double] at h
  split at h
  · cases h
    rfl
  · cases h

/-- An integer of 32 bits is in range when it is read back. -/
theorem decode_int32 {n : Int32} {v : Value} (h : Codec.long.encode n.toInt64 = .ok v) :
    decodeInt32 v = .ok n := by
  have hv : Value.long n.toInt64 = v := Except.ok.inj h
  have hfits : Int32.minValue.toInt ≤ n.toInt64.toInt ∧
      n.toInt64.toInt ≤ Int32.maxValue.toInt := by
    rw [Int32.toInt_toInt64]
    exact ⟨n.minValue_le_toInt, n.toInt_le⟩
  have hdecode : decodeInt32 (.long n.toInt64) = .ok n.toInt64.toInt32 := if_pos hfits
  rw [← hv, hdecode, Int32.toInt32_toInt64]

/-! ## Containers -/

theorem decode_option_iff {α : Type} {encode : α → Except EncodeError Value}
    {decode : Value → Except FieldError α} {x : α} {v : Value} {keeps : Prop}
    (hencode : encode x = .ok v) (h : decode v = .ok x ↔ keeps) :
    (if v.isNull then .ok none else (decode v).map some) = .ok (some x) ↔
      encode x ≠ .ok .null ∧ keeps := by
  rw [hencode, ← h]
  cases hv : v.isNull with
  | true =>
      obtain rfl := isNull_iff.1 hv
      constructor
      · intro hnone
        cases hnone
      · rintro ⟨hne, -⟩
        exact absurd rfl hne
  | false =>
      have hne : (Except.ok v : Except EncodeError Value) ≠ .ok .null := by
        rintro ⟨⟩
        cases hv
      rw [if_neg Bool.false_ne_true, and_iff_right hne]
      constructor
      · intro hsome
        obtain ⟨y, hy, heq⟩ := exists_of_map_eq_ok hsome
        rwa [Option.some.inj heq] at hy
      · intro hx
        rw [hx]
        rfl

section

variable {α : Type} {encode : α → Except EncodeError Value}
  {decode : Value → Except FieldError α} {keeps : α → Prop}
  (h : ∀ {x v}, encode x = .ok v → (decode v = .ok x ↔ keeps x))

include h

theorem decodeItems_encodeItems_iff {label : Nat → Path} {position : Nat} {items : List α}
    {vs : List Value} (hencode : encodeItems encode items = .ok vs) :
    decodeItems label decode position vs = .ok items ↔ ∀ x, List.Mem x items → keeps x := by
  rw [decodeItems_eq_ok_iff]
  induction items generalizing vs with
  | nil =>
      rw [← Except.ok.inj hencode]
      exact iff_of_true .nil fun _ hmem => absurd hmem List.not_mem_nil
  | cons x xs ih =>
      obtain ⟨v, hv, hrest⟩ := exists_of_bind_eq_ok hencode
      obtain ⟨ws, hws, heq⟩ := exists_of_bind_eq_ok hrest
      rw [← Except.ok.inj heq, List.forall₂_cons, ih hws, h hv]
      exact List.forall_mem_cons.symm

theorem decodeMembers_encodeMembers_iff : {bound : Option String} → {members : Entries α bound} →
    {vs : Entries Value bound} → encodeMembers encode members = .ok vs →
    (decodeMembers decode vs = .ok members ↔ ∀ entry ∈ members.toList, keeps entry.2)
  | _, .nil, vs, hencode => by
      rw [← Except.ok.inj hencode]
      exact iff_of_true rfl fun _ hmem => absurd hmem List.not_mem_nil
  | _, .cons key above x xs, vs, hencode => by
      obtain ⟨v, hv, hrest⟩ := exists_of_bind_eq_ok hencode
      obtain ⟨ws, hws, heq⟩ := exists_of_bind_eq_ok hrest
      rw [← Except.ok.inj heq, decodeMembers, gather_eq_ok_iff, Entries.toList,
        List.forall_mem_cons, ← h hv, ← decodeMembers_encodeMembers_iff hws]
      constructor
      · rintro ⟨y, ys, hy, hys, heq⟩
        obtain ⟨-, rfl, rfl⟩ := Entries.cons.inj heq
        exact ⟨hy, hys⟩
      · rintro ⟨hx, hxs⟩
        exact ⟨x, xs, hx, hxs, rfl⟩

theorem decode_list_iff {label : Nat → Path} {items : List α} {v : Value}
    (hencode : (encodeItems encode items).map Value.array = .ok v) :
    decodeArray label decode v = .ok items ↔ ∀ x, List.Mem x items → keeps x := by
  obtain ⟨vs, hvs, rfl⟩ := exists_of_map_eq_ok hencode
  have hdecode : decodeArray label decode (.array vs) =
      (decodeItems label decode 0 vs).mapError .collect := rfl
  rw [hdecode, mapError_eq_ok_iff, decodeItems_encodeItems_iff h hvs]

theorem decode_members_iff {members : Dict α} {v : Value}
    (hencode : (encodeMembers encode members).map Value.object = .ok v) :
    decodeObject decode v = .ok members ↔ ∀ entry ∈ members.toList, keeps entry.2 := by
  obtain ⟨vs, hvs, rfl⟩ := exists_of_map_eq_ok hencode
  have hdecode : decodeObject decode (.object vs) =
      (decodeMembers decode vs).mapError .collect := rfl
  rw [hdecode, mapError_eq_ok_iff, decodeMembers_encodeMembers_iff h hvs]

end

/-- Members that are taken as they are stay as they are. -/
theorem decodeMembers_ok : {bound : Option String} → (members : Entries Value bound) →
    decodeMembers .ok members = .ok members
  | _, .nil => rfl
  | _, .cons key above member members => by
      rw [decodeMembers, decodeMembers_ok members]
      rfl

theorem decode_set {members : Dict Value} {v : Value}
    (h : Codec.setQuery.encode (.object members) = .ok v) : decodeSet v = .ok members := by
  have hv : Value.set (.object members) = v := Except.ok.inj h
  have hdecode : decodeSet (.set (.object members)) =
      (decodeMembers .ok members).mapError .collect := rfl
  rw [← hv, hdecode, decodeMembers_ok]
  rfl

/-! ## Members of a record -/

/-- The members of a record stand in the order of its fields, and some may be left out. -/
theorem Fields.keys_encode : (fields : Fields) → {x : fields.Data} →
    {members : List (String × Value)} → fields.encode x = .ok members →
    (members.map Prod.fst).Sublist fields.keys
  | .nil, _, _, h => by
      rw [← Except.ok.inj h]
      exact .slnil
  | .cons key shape rest, (x, xs), members, h => by
      rw [Fields.encode] at h
      split at h
      · exact (Fields.keys_encode rest h).cons key
      · obtain ⟨v, -, h⟩ := exists_of_bind_eq_ok h
        obtain ⟨tail, htail, h⟩ := exists_of_bind_eq_ok h
        rw [← Except.ok.inj h]
        exact (Fields.keys_encode rest htail).cons_cons key

/-- Data that is left out is what stands for a missing member. -/
theorem Shape.absent?_of_isOmitted {shape : Shape} {x : shape.Data}
    (h : shape.isOmitted x = true) : shape.absent? = some x ∧ shape.NullMeansNone x := by
  cases shape with
  | option content =>
      cases x with
      | none => exact ⟨rfl, trivial⟩
      | some y => cases h
  | _ => cases h

/-! ## All shapes -/

mutual

/-- **What was written is read back exactly when null always means that there is no data.** -/
theorem Shape.decode_encode_iff : (shape : Shape) → shape.DistinctKeys → {x : shape.Data} →
    {v : Value} → shape.encode x = .ok v → (shape.decode v = .ok x ↔ shape.NullMeansNone x)
  | .string, _, _, _, h => iff_of_true (decode_ofKind Value.string (fun _ => rfl) h) trivial
  | .boolean, _, _, _, h => iff_of_true (decode_ofKind Value.boolean (fun _ => rfl) h) trivial
  | .int32, _, _, _, h => iff_of_true (decode_int32 h) trivial
  | .long, _, _, _, h => iff_of_true (decode_ofKind Value.long (fun _ => rfl) h) trivial
  | .double, _, _, _, h => iff_of_true (decode_double h) trivial
  | .ref, _, _, _, h => iff_of_true (decode_ofKind Value.ref (fun _ => rfl) h) trivial
  | .timestamp, _, _, _, h => iff_of_true (decode_ofKind Value.timestamp (fun _ => rfl) h) trivial
  | .date, _, _, _, h => iff_of_true (decode_ofKind Value.date (fun _ => rfl) h) trivial
  | .value, _, _, _, h => iff_of_true (congrArg _ (Except.ok.inj h).symm) trivial
  | .set, _, _, _, h => iff_of_true (decode_set h) trivial
  | .option _, _, none, _, h => by
      cases h
      exact iff_of_true rfl trivial
  | .option content, hkeys, some _, _, h =>
      decode_option_iff h (Shape.decode_encode_iff content hkeys h)
  | .list item, hkeys, _, _, h => decode_list_iff (Shape.decode_encode_iff item hkeys) h
  | .map member, hkeys, _, _, h => decode_members_iff (Shape.decode_encode_iff member hkeys) h
  | .record name fields, hkeys, x, v, h => by
      obtain ⟨members, hmembers, rfl⟩ := exists_of_map_eq_ok h
      have hnodup := (fields.keys_encode hmembers).nodup hkeys.1
      refine mapError_eq_ok_iff.trans (Fields.decode_encode_iff fields hkeys.1 hkeys.2 hmembers ?_)
      intro key _
      exact Dict.find?_ofList_of_nodup hnodup key

/-- The fields are read back from any members that have what was written at their keys. -/
theorem Fields.decode_encode_iff : (fields : Fields) → fields.keys.Nodup → fields.DistinctKeys →
    {x : fields.Data} → {written : List (String × Value)} → fields.encode x = .ok written →
    {members : Dict Value} → (∀ key ∈ fields.keys, members.find? key = written.lookup key) →
    (fields.decode members = .ok x ↔ fields.NullMeansNone x)
  | .nil, _, _, _, _, _, _, _ => iff_of_true rfl trivial
  | .cons key shape rest, hnodup, hkeys, (x, xs), written, h, members, hfind => by
      obtain ⟨hkey, hrest⟩ := List.nodup_cons.1 hnodup
      refine Fields.decode_cons_eq_ok_iff.trans ?_
      rw [hfind key List.mem_cons_self]
      rw [Fields.encode] at h
      split at h
      · -- the field is left out, and no other field has its key
        rename_i homitted
        obtain ⟨habsent, hnull⟩ := Shape.absent?_of_isOmitted homitted
        have hnot : key ∉ written.map Prod.fst :=
          fun hmem => hkey ((rest.keys_encode h).subset hmem)
        rw [Dict.lookup_eq_none hnot]
        apply and_congr
        · exact iff_of_true (.inr ⟨rfl, habsent⟩) hnull
        · apply Fields.decode_encode_iff rest hrest hkeys.2 h
          intro k hk
          exact hfind k (List.mem_cons_of_mem key hk)
      · obtain ⟨v, hv, h⟩ := exists_of_bind_eq_ok h
        obtain ⟨tail, htail, h⟩ := exists_of_bind_eq_ok h
        obtain rfl := Except.ok.inj h
        rw [List.lookup_cons, BEq.rfl]
        apply and_congr
        · rw [← Shape.decode_encode_iff shape hkeys.1 hv]
          constructor
          · rintro (⟨w, ⟨⟩, hw⟩ | ⟨⟨⟩, -⟩)
            exact hw
          · intro hx
            exact .inl ⟨v, rfl, hx⟩
        · apply Fields.decode_encode_iff rest hrest hkeys.2 htail
          intro k hk
          have hne : k ≠ key := fun heq => hkey (heq ▸ hk)
          rw [hfind k (List.mem_cons_of_mem key hk), List.lookup_cons, beq_false_of_ne hne]

end

/-- The records of responses list no key twice. -/
theorem Response.distinctKeys : ∀ shape ∈ [page, document, classDefinition, indexDefinition,
    databaseDefinition, keyDefinition, event, set, apiError], shape.DistinctKeys := by
  simp [page, document, classDefinition, indexDefinition, databaseDefinition, keyDefinition, event,
    set, apiError, Fields.ofList, Fields.keys, Shape.DistinctKeys, Fields.DistinctKeys]

/-- **Writing data and reading it back.** Data is refused exactly for a double that is infinite or
not a number, and the refusal names the first one. Data that is written is read back exactly when no
optional position holds something that is written as null. -/
theorem Shape.encode_exact (shape : Shape) (hkeys : shape.DistinctKeys) (x : shape.Data) :
    ((∃ e, shape.encode x = .error e) ↔ ∃ d ∈ shape.doubles x, d.isFinite = false) ∧
      (∀ e, shape.encode x = .error e ↔
        ∃ d, firstNonFinite? (shape.doubles x) = some d ∧ e = .nonFinite d) ∧
      ∀ v, shape.encode x = .ok v → (shape.decode v = .ok x ↔ shape.NullMeansNone x) := by
  refine ⟨?_, fun e => Shape.encode_eq_error_iff, fun v => Shape.decode_encode_iff shape hkeys⟩
  rw [← firstNonFinite?_isSome_iff]
  constructor
  · rintro ⟨e, he⟩
    obtain ⟨d, hd, -⟩ := Shape.encode_eq_error_iff.1 he
    exact ⟨d, hd⟩
  · rintro ⟨d, hd⟩
    exact ⟨.nonFinite d, Shape.encode_eq_error_iff.2 ⟨d, hd, rfl⟩⟩

/-- Of two infinities the first is named; a page whose cursor is null loses the cursor, and a page
whose cursor is a string keeps it. -/
theorem Shape.encode_exact_survey :
    let shape := Shape.record "Survey" (.ofList [("ratios", .list .double), ("page", Response.page)])
    let one := Binary64.ofInt 1
    let infinity := fun negative => Binary64.ofMagnitude negative Binary64.infinityMagnitude
    let cursor := fun v : Value => (([], some v, none, ()) : Response.page.Data)
    shape.DistinctKeys ∧
      shape.encode ([one, infinity true, infinity false], cursor .null, ()) =
        .error (.nonFinite (infinity true)) ∧
      (∀ v, shape.encode ([one], cursor .null, ()) = .ok v →
        shape.decode v ≠ .ok ([one], cursor .null, ())) ∧
      ∃ v, shape.encode ([one], cursor (.string "c"), ()) = .ok v ∧
        shape.decode v = .ok ([one], cursor (.string "c"), ()) := by
  intro shape one infinity cursor
  have hkeys : shape.DistinctKeys :=
    ⟨by decide, trivial, Response.distinctKeys Response.page List.mem_cons_self, trivial⟩
  refine ⟨hkeys, ?_, ?_, ?_⟩
  · obtain ⟨-, herror, -⟩ :=
      Shape.encode_exact shape hkeys ([one, infinity true, infinity false], cursor .null, ())
    exact (herror _).2 ⟨infinity true, by decide +kernel, rfl⟩
  · intro v hv hdecode
    have hnull := ((Shape.encode_exact shape hkeys ([one], cursor .null, ())).2.2 v hv).1 hdecode
    -- the cursor is the first optional field of the page
    exact hnull.2.1.2.1.1 rfl
  · obtain ⟨v, hv⟩ : ∃ v, shape.encode ([one], cursor (.string "c"), ()) = .ok v :=
      Shape.encode_isOk_iff.2 (by decide +kernel)
    refine ⟨v, hv, ?_⟩
    refine ((Shape.encode_exact shape hkeys ([one], cursor (.string "c"), ())).2.2 v hv).2 ?_
    refine ⟨fun _ _ => trivial, ⟨fun _ _ => trivial, ⟨?_, trivial⟩, trivial, trivial⟩, trivial⟩
    rintro ⟨⟩

end DocQuery
