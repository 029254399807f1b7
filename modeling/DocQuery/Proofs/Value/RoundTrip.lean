import DocQuery.Proofs.Calendar.DateText
import DocQuery.Proofs.Json.Scanning
import DocQuery.Proofs.Value.Conversion

/-!
# The wire form read back

The document of a value gives the value back when the limit on depths leaves room for it, and what
the wire form needs is computed from the value (`wireDepth`). If the doubles are read back, the text
of the document is scanned as its tokens, so reading the wire form gives the value or, when the limit
is smaller than that depth, the error of the limit. A leap second within a minute is not read back
(`wire_roundTrip`).
-/

set_option autoImplicit false

namespace DocQuery.Value

mutual

/-- The nesting that the wire form of a value needs. A tag takes a level, and an object under a tag
takes two. -/
def wireDepth : Value → Nat
  | null | boolean _ | long _ | double _ | string _ => 0
  | array items => if items.isEmpty then 0 else 1 + itemsWireDepth items
  | object members =>
      if members.keys.isEmpty then 0
      else (if members.keys.any isReserved then 2 else 1) + membersWireDepth members
  | ref _ | timestamp _ | date _ => 1
  | set query => 1 + wireDepth query

/-- The largest nesting that an item needs. -/
def itemsWireDepth : List Value → Nat
  | [] => 0
  | item :: items => max (wireDepth item) (itemsWireDepth items)

/-- The largest nesting that a member needs. -/
def membersWireDepth : {bound : Option String} → Entries Value bound → Nat
  | _, .nil => 0
  | _, .cons _ _ member members => max (wireDepth member) (membersWireDepth members)

end

/-! ## The depth of a document -/

mutual

theorem depth_toJson : (v : Value) → {json : Json} → v.toJson = .ok json →
    json.depth = v.wireDepth
  | .null, _, rfl => rfl
  | .boolean _, _, rfl => rfl
  | .long _, _, rfl => rfl
  | .double d, json, h => by
      rw [toJson] at h
      split at h
      · cases h
        rfl
      · cases h
  | .string _, _, rfl => rfl
  | .array items, json, h => by
      obtain ⟨documents, hdocuments, rfl⟩ := exists_of_map_eq_ok h
      exact itemsDepth_itemsToJson items hdocuments
  | .object members, json, h => by
      obtain ⟨documents, hdocuments, rfl⟩ := exists_of_map_eq_ok h
      have hdepth := membersDepth_membersToJson members hdocuments
      rw [wireDepth]
      by_cases hempty : members.keys.isEmpty
      · -- no member has the key of a tag, so no level is added
        have hreserved : members.keys.any isReserved = false := by
          rw [List.isEmpty_iff.1 hempty]
          rfl
        rw [if_pos hempty] at hdepth ⊢
        rw [hreserved, if_neg Bool.false_ne_true, Json.depth, hdepth]
      · rw [if_neg hempty] at hdepth ⊢
        split
        · rw [depth_tagged, Json.depth, hdepth]
          omega
        · rw [Json.depth, hdepth]
  | .ref _, _, rfl => rfl
  | .timestamp _, _, rfl => rfl
  | .date _, _, rfl => rfl
  | .set query, json, h => by
      obtain ⟨document, hdocument, rfl⟩ := exists_of_map_eq_ok h
      rw [depth_tagged, wireDepth, depth_toJson query hdocument]

theorem itemsDepth_itemsToJson : (items : List Value) → {documents : List Json} →
    itemsToJson items = .ok documents →
    Json.itemsDepth documents = if items.isEmpty then 0 else 1 + itemsWireDepth items
  | [], _, rfl => rfl
  | item :: items, _, h => by
      obtain ⟨document, documents, hdocument, hdocuments, rfl⟩ := itemsToJson_cons h
      have hitem := depth_toJson item hdocument
      have hitems := itemsDepth_itemsToJson items hdocuments
      rw [Json.itemsDepth, hitem, hitems, itemsWireDepth]
      cases items with
      | nil => exact (Nat.max_zero _).trans (congrArg (1 + ·) (Nat.max_zero _).symm)
      | cons _ _ => exact (Nat.add_max_add_left 1 _ _)

theorem membersDepth_membersToJson : {bound : Option String} → (members : Entries Value bound) →
    {documents : Entries Json bound} → membersToJson members = .ok documents →
    Json.membersDepth documents =
      if members.keys.isEmpty then 0 else 1 + membersWireDepth members
  | _, .nil, _, h => by
      cases h
      rfl
  | _, .cons key above member members, _, h => by
      obtain ⟨document, documents, hdocument, hdocuments, rfl⟩ := membersToJson_cons h
      have hmember := depth_toJson member hdocument
      have hmembers := membersDepth_membersToJson members hdocuments
      rw [Json.membersDepth, hmember, hmembers, membersWireDepth]
      cases members with
      | nil => exact (Nat.max_zero _).trans (congrArg (1 + ·) (Nat.max_zero _).symm)
      | cons _ _ _ _ => exact (Nat.add_max_add_left 1 _ _)

end

/-! ## Reading a document -/

theorem keys_membersToJson : {bound : Option String} → {members : Entries Value bound} →
    {documents : Entries Json bound} → membersToJson members = .ok documents →
    documents.keys = members.keys
  | _, .nil, _, h => by
      cases h
      rfl
  | _, .cons key above member members, _, h => by
      obtain ⟨document, documents, -, hdocuments, rfl⟩ := membersToJson_cons h
      rw [Entries.keys, Entries.keys, keys_membersToJson hdocuments]

theorem ofNumber_ofInt64 (n : Int64) : ofNumber (.ofInt64 n) = long n := by
  have hle : n.toInt ≤ Int64.maxValue.toInt := n.toInt_le
  rw [Json.Number.ofInt64, ofNumber, if_pos hle, Int64.ofInt_toInt]

theorem refOfJson_id (r : Ref) : refOfJson (.string r.id) = .ok (ref r) := by
  have hid : Ref.ofId? r.id = some r := dif_neg r.nonempty
  simp only [refOfJson, expectString, bind, Except.bind, hid]
  rfl

theorem timestampOfJson_text {t : Timestamp} (h : Timestamp.parse t.text = .ok t) :
    timestampOfJson (.string t.text) = .ok (timestamp t) := by
  simp only [timestampOfJson, expectString, bind, Except.bind, h]
  rfl

theorem dateOfJson_text (d : Date) : dateOfJson (.string d.text) = .ok (date d) := by
  simp only [dateOfJson, expectString, bind, Except.bind, Date.parse_text d]
  rfl

mutual

/-- The document of a value gives the value back where the limit leaves room for it. -/
theorem ofJson_toJson {limit : Nat} : (v : Value) → {json : Json} → v.toJson = .ok json →
    v.TimestampsReadBack → {depth : Nat} → depth + v.wireDepth ≤ limit →
    ofJson limit depth json = .ok v
  | .null, _, rfl, _, depth, hdepth => if_neg (by omega)
  | .boolean b, _, rfl, _, depth, hdepth => if_neg (by omega)
  | .long n, _, rfl, _, depth, hdepth => by
      rw [ofJson, if_neg (by omega), ofNumber_ofInt64]
  | .double d, json, h, _, depth, hdepth => by
      rw [toJson] at h
      split at h
      · cases h
        exact if_neg (by omega)
      · cases h
  | .string s, _, rfl, _, depth, hdepth => if_neg (by omega)
  | .array items, json, h, htimes, depth, hdepth => by
      obtain ⟨documents, hdocuments, rfl⟩ := exists_of_map_eq_ok h
      rw [ofJson, if_neg (by omega), itemsOfJson_itemsToJson items hdocuments
        (fun item hmem => htimes.part (.item hmem .whole))]
      · rfl
      · intro hitems
        rw [wireDepth, if_neg hitems] at hdepth
        omega
  | .object members, json, h, htimes, depth, hdepth => by
      obtain ⟨documents, hdocuments, rfl⟩ := exists_of_map_eq_ok h
      have hread {inner : Nat}
          (hinner : ¬ members.keys.isEmpty = true → inner + membersWireDepth members ≤ limit) :
          membersOfJson limit inner documents = .ok members :=
        membersOfJson_membersToJson members hdocuments
          (fun entry hmem => htimes.part (.member hmem .whole)) hinner
      have hkeys := keys_membersToJson hdocuments
      rw [wireDepth] at hdepth
      by_cases hreserved : members.keys.any isReserved = true
      · -- the keys under the tag are taken as they are, two levels below
        rw [if_pos hreserved, ofJson_tagged, if_neg (by omega)]
        simp only
        rw [hread]
        · rfl
        · intro hmembers
          rw [if_neg hmembers, if_pos hreserved] at hdepth
          omega
      · -- no key looks like a tag
        have huntagged : tagOf? documents = none := by
          apply tagOf?_of_not_isReserved
          rw [hkeys]
          exact Bool.eq_false_iff.2 hreserved
        rw [if_neg hreserved, ofJson_untagged limit depth huntagged, if_neg (by omega), hread]
        · rfl
        · intro hmembers
          rw [if_neg hmembers, if_neg hreserved] at hdepth
          omega
  | .ref r, _, rfl, _, depth, hdepth => by
      rw [wireDepth] at hdepth
      rw [ofJson_tagged, if_neg (by omega)]
      exact refOfJson_id r
  | .timestamp t, _, rfl, htimes, depth, hdepth => by
      rw [wireDepth] at hdepth
      rw [ofJson_tagged, if_neg (by omega)]
      exact timestampOfJson_text (htimes t .whole)
  | .date d, _, rfl, _, depth, hdepth => by
      rw [wireDepth] at hdepth
      rw [ofJson_tagged, if_neg (by omega)]
      exact dateOfJson_text d
  | .set query, json, h, htimes, depth, hdepth => by
      obtain ⟨document, hdocument, rfl⟩ := exists_of_map_eq_ok h
      rw [wireDepth] at hdepth
      rw [ofJson_tagged, if_neg (by omega)]
      simp only
      rw [ofJson_toJson query hdocument (htimes.part (.query .whole)) (by omega)]
      rfl

theorem itemsOfJson_itemsToJson {limit : Nat} : (items : List Value) → {documents : List Json} →
    itemsToJson items = .ok documents → (∀ item ∈ items, item.TimestampsReadBack) →
    {depth : Nat} → (¬ items.isEmpty = true → depth + itemsWireDepth items ≤ limit) →
    itemsOfJson limit depth documents = .ok items
  | [], _, rfl, _, _, _ => rfl
  | item :: items, _, h, htimes, depth, hdepth => by
      obtain ⟨document, documents, hdocument, hdocuments, rfl⟩ := itemsToJson_cons h
      have hdepth' := hdepth Bool.false_ne_true
      rw [itemsWireDepth] at hdepth'
      have hitem : ofJson limit depth document = .ok item :=
        ofJson_toJson item hdocument (htimes item List.mem_cons_self) (by omega)
      have hitems : itemsOfJson limit depth documents = .ok items :=
        itemsOfJson_itemsToJson items hdocuments
          (fun i hmem => htimes i (List.mem_cons_of_mem _ hmem)) (fun _ => by omega)
      rw [itemsOfJson, hitem, hitems]
      rfl

theorem membersOfJson_membersToJson {limit : Nat} : {bound : Option String} →
    (members : Entries Value bound) → {documents : Entries Json bound} →
    membersToJson members = .ok documents → (∀ entry ∈ members.toList, entry.2.TimestampsReadBack) →
    {depth : Nat} → (¬ members.keys.isEmpty = true → depth + membersWireDepth members ≤ limit) →
    membersOfJson limit depth documents = .ok members
  | _, .nil, _, h, _, _, _ => by
      cases h
      rfl
  | _, .cons key above member members, _, h, htimes, depth, hdepth => by
      obtain ⟨document, documents, hdocument, hdocuments, rfl⟩ := membersToJson_cons h
      have hdepth' := hdepth Bool.false_ne_true
      rw [membersWireDepth] at hdepth'
      rw [Entries.toList] at htimes
      have hmember : ofJson limit depth document = .ok member :=
        ofJson_toJson member hdocument (htimes _ List.mem_cons_self) (by omega)
      have hmembers : membersOfJson limit depth documents = .ok members :=
        membersOfJson_membersToJson members hdocuments
          (fun entry hmem => htimes entry (List.mem_cons_of_mem _ hmem)) (fun _ => by omega)
      rw [membersOfJson, hmember, hmembers]
      rfl

end

/-! ## Texts -/

/-- A value has a wire form exactly when its doubles are all finite. -/
theorem serialize_isOk_iff {v : Value} : (∃ wire, v.serialize = .ok wire) ↔ v.AllFinite := by
  rw [← toJson_isOk_iff]
  constructor
  · rintro ⟨wire, h⟩
    obtain ⟨json, hjson, -⟩ := exists_of_map_eq_ok h
    exact ⟨json, hjson⟩
  · rintro ⟨json, h⟩
    rw [serialize, h]
    exact ⟨json.text, rfl⟩

/-- The text of every double anywhere in the value is read as the double. -/
def DoublesReadBack (v : Value) : Prop := ∀ d, Part (double d) v → d.ReadsBack

theorem DoublesReadBack.part {p v : Value} (h : v.DoublesReadBack) (part : Part p v) :
    p.DoublesReadBack :=
  fun d hd => h d (hd.trans part)

theorem readsBack_tagged (tag : Tag) {payload : Json} (h : payload.ReadsBack) :
    (tagged tag payload).ReadsBack := by
  apply Json.readsBack_object
  intro entry hmem
  obtain rfl := List.mem_singleton.1 hmem
  exact h

mutual

/-- The numbers of a document are read back when the doubles of its value are. -/
theorem readsBack_toJson : (v : Value) → {json : Json} → v.toJson = .ok json →
    v.DoublesReadBack → json.ReadsBack
  | .null, _, rfl, _ => Json.readsBack_of_tokens rfl trivial
  | .boolean _, _, rfl, _ => Json.readsBack_of_tokens rfl trivial
  | .long _, _, rfl, _ => Json.readsBack_of_tokens rfl trivial
  | .double d, json, h, hback => by
      rw [toJson] at h
      split at h
      · cases h
        exact Json.readsBack_of_tokens rfl (hback d .whole)
      · cases h
  | .string _, _, rfl, _ => Json.readsBack_of_tokens rfl trivial
  | .array items, json, h, hback => by
      obtain ⟨documents, hdocuments, rfl⟩ := exists_of_map_eq_ok h
      exact Json.readsBack_array (readsBack_itemsToJson items hdocuments
        fun item hmem => hback.part (.item hmem .whole))
  | .object members, json, h, hback => by
      obtain ⟨documents, hdocuments, rfl⟩ := exists_of_map_eq_ok h
      have hobject : (Json.object documents).ReadsBack :=
        Json.readsBack_object (readsBack_membersToJson members hdocuments
          fun entry hmem => hback.part (.member hmem .whole))
      -- a tag around the object adds no number
      split
      · exact readsBack_tagged .object hobject
      · exact hobject
  | .ref _, _, rfl, _ => readsBack_tagged .ref (Json.readsBack_of_tokens rfl trivial)
  | .timestamp _, _, rfl, _ => readsBack_tagged .timestamp (Json.readsBack_of_tokens rfl trivial)
  | .date _, _, rfl, _ => readsBack_tagged .date (Json.readsBack_of_tokens rfl trivial)
  | .set query, json, h, hback => by
      obtain ⟨document, hdocument, rfl⟩ := exists_of_map_eq_ok h
      exact readsBack_tagged .set (readsBack_toJson query hdocument (hback.part (.query .whole)))

theorem readsBack_itemsToJson : (items : List Value) → {documents : List Json} →
    itemsToJson items = .ok documents → (∀ item ∈ items, item.DoublesReadBack) →
    ∀ document ∈ documents, document.ReadsBack
  | [], _, rfl, _ => List.forall_mem_nil _
  | item :: items, _, h, hback => by
      obtain ⟨document, documents, hdocument, hdocuments, rfl⟩ := itemsToJson_cons h
      rw [List.forall_mem_cons] at hback ⊢
      exact ⟨readsBack_toJson item hdocument hback.1,
        readsBack_itemsToJson items hdocuments hback.2⟩

theorem readsBack_membersToJson : {bound : Option String} → (members : Entries Value bound) →
    {documents : Entries Json bound} → membersToJson members = .ok documents →
    (∀ entry ∈ members.toList, entry.2.DoublesReadBack) →
    ∀ entry ∈ documents.toList, entry.2.ReadsBack
  | _, .nil, _, h, _ => by
      cases h
      exact List.forall_mem_nil _
  | _, .cons key above member members, _, h, hback => by
      obtain ⟨document, documents, hdocument, hdocuments, rfl⟩ := membersToJson_cons h
      rw [Entries.toList, List.forall_mem_cons] at hback ⊢
      exact ⟨readsBack_toJson member hdocument hback.1,
        readsBack_membersToJson members hdocuments hback.2⟩

end

theorem text_of_serialize {v : Value} {wire : String} (h : v.serialize = .ok wire) :
    v.text = wire := by
  rw [text, h]

/-- Reading the text of a value with a document is converting the document, unless the limit stops
it. -/
theorem parseWith_of_toJson {v : Value} {json : Json} (h : v.toJson = .ok json)
    (hback : v.DoublesReadBack) (limit : Nat) :
    parseWith limit v.text =
      if v.wireDepth ≤ limit then ofJson limit 0 json else .error (.tooDeep limit) := by
  have hserialize : v.serialize = .ok json.text := by
    rw [serialize, h]
    rfl
  -- the text has the tokens of the document, and the document the depth of the value
  have hread := Json.ofTokens_some_tokens limit (.ofJson json)
  rw [Json.Written.tokens_ofJson, Json.Written.depth_ofJson, Json.Written.toJson_ofJson,
    depth_toJson v h] at hread
  rw [text_of_serialize hserialize, parseWith, Json.read,
    Json.scan_document (readsBack_toJson v h hback), hread]
  by_cases hdepth : v.wireDepth ≤ limit
  · rw [if_neg (Nat.not_lt.2 hdepth), if_pos hdepth]
    rfl
  · rw [if_pos (Nat.not_le.1 hdepth), if_neg hdepth]

/-- Reading the text of a value with finite doubles gives the value back, or the error of the limit,
where doubles and timestamps are read back. -/
theorem parseWith_text {v : Value} (hfinite : v.AllFinite) (hback : v.DoublesReadBack)
    (htimes : v.TimestampsReadBack) (limit : Nat) :
    parseWith limit v.text = if v.wireDepth ≤ limit then .ok v else .error (.tooDeep limit) := by
  obtain ⟨json, hjson⟩ := toJson_isOk_iff.2 hfinite
  rw [parseWith_of_toJson hjson hback limit]
  by_cases hdepth : v.wireDepth ≤ limit
  · rw [if_pos hdepth, if_pos hdepth]
    exact ofJson_toJson v hjson htimes (by omega)
  · rw [if_neg hdepth, if_neg hdepth]

/-! ## Values that are not read back -/

/-- The text of a numeral that is no integer is read as the double that the numeral denotes. -/
theorem parseWith_numeral {n : Json.Numeral} (hspelled : n.IsSpelled) (hinteger : ¬ n.IsInteger)
    {d : Binary64} (h : n.toDouble? = some d) (limit : Nat) :
    parseWith limit (String.ofList n.write) = .ok (double d) := by
  have hscan := Json.Token.scan_numeral hspelled (Json.Numeral.toNumber?_of_toDouble? hinteger h)
    Json.Numeral.ends_nil
  rw [List.append_nil] at hscan
  have hread := (Json.ofTokens_some_tokens limit
    (.number (.double d (Json.Numeral.isFinite_of_toDouble? h)))).trans
      (if_neg (Nat.not_lt_zero limit))
  simp only [Json.Written.tokens, Json.Written.toJson] at hread
  rw [parseWith, Json.read, String.toList_ofList, hscan, Json.Token.scan, hread]
  show fromJson limit _ = _
  rw [fromJson, ofJson, if_neg (Nat.not_lt_zero limit), ofNumber]

theorem text_double {d : Binary64} (hd : d.isFinite = true) :
    (double d).text = String.ofList (d.write .wire) := by
  have hserialize : (double d).serialize = .ok (String.ofList (d.write .wire)) := by
    rw [serialize, toJson, dif_pos hd]
    simp [Except.map, Json.text, Json.write, Json.tokens, Json.Token.write, Json.Number.write]
  exact text_of_serialize hserialize

/-- The double of 3e+23 is read as the double below. -/
theorem parseWith_misread (limit : Nat) :
    parseWith limit (double Binary64.misread).text = .ok (double ⟨4958396687196483697⟩) := by
  rw [text_double (by decide), Binary64.write_misread]
  refine parseWith_numeral ?_ ?_ Binary64.toDouble?_misreadNumeral limit
  · refine ⟨List.cons_ne_nil _ _, ?_, by decide, ?_⟩
    · intro c hc
      obtain rfl := List.mem_singleton.1 hc
      rfl
    · rintro ds ⟨⟩
  · rintro ⟨⟨-, hexponent⟩, -⟩
    cases hexponent

/-- Nanoseconds of a leap second at the fourth second of a minute. -/
def earlyLeap : Timestamp := ⟨⟨2024, 1, 1, by decide⟩, 86164, 1333333333, by decide⟩

/-- Its text shows the fifth second, and no leap second within a minute is read from any text. -/
theorem parseWith_earlyLeap_ne (limit : Nat) :
    parseWith limit (timestamp earlyLeap).text ≠ .ok (timestamp earlyLeap) := by
  intro h
  rw [parseWith_of_toJson rfl (by rintro d ⟨⟩)] at h
  split at h
  · have hleaps := leapsEndMinutes_of_ofJson h
    exact absurd (hleaps earlyLeap .whole) (by decide)
  · cases h

/-! ## The round trip -/

/-- **Wire round trip.** A value is written exactly when its doubles are all finite. If they are read
back, what is written is too deep under every limit that leaves no room for its nesting. Under every
other limit it is read as the same value, where years have four digits, exactly when its leap seconds
end minutes. -/
theorem wire_roundTrip (v : Value) :
    ((∃ wire, v.serialize = .ok wire) ↔ v.AllFinite) ∧
      (v.AllFinite → v.DoublesReadBack → ∀ limit, v.serialize = .ok v.text ∧
        (limit < v.wireDepth → parseWith limit v.text = .error (.tooDeep limit)) ∧
        (v.wireDepth ≤ limit → v.InFourDigitYears →
          (parseWith limit v.text = .ok v ↔ v.LeapsEndMinutes))) := by
  refine ⟨serialize_isOk_iff, ?_⟩
  intro hfinite hback limit
  obtain ⟨wire, hwire⟩ := serialize_isOk_iff.2 hfinite
  obtain ⟨json, hjson⟩ := toJson_isOk_iff.2 hfinite
  have hread := parseWith_of_toJson hjson hback limit
  refine ⟨?_, ?_, ?_⟩
  · rw [text_of_serialize hwire, hwire]
  · intro hdepth
    rw [hread, if_neg (Nat.not_le.2 hdepth)]
  · intro hdepth hyears
    rw [if_pos hdepth] at hread
    constructor
    · -- what was read has no other leap seconds
      intro h
      rw [hread] at h
      exact leapsEndMinutes_of_ofJson h
    · intro hleaps
      have htimes := timestampsReadBack_iff.2 ⟨hyears, hleaps⟩
      rw [hread]
      exact ofJson_toJson v hjson htimes (by omega)

/-- A leap second, half a second into it. -/
def leapSecond : Timestamp := ⟨⟨2016, 12, 31, by decide⟩, 86399, 1500000000, by decide⟩

/-- An object with the key of a tag, around a set with a leap second and a double. -/
def lookalike : Value :=
  object (Dict.single "@ref" (set (array [timestamp leapSecond, double Binary64.half])))

theorem part_lookalike {p : Value} (part : Part p lookalike) :
    (∀ d, p = double d → d = Binary64.half) ∧ ∀ t, p = timestamp t → t = leapSecond := by
  cases part with
  | whole => exact ⟨by rintro d ⟨⟩, by rintro t ⟨⟩⟩
  | member mem part =>
      obtain rfl := List.mem_singleton.1 mem
      cases part with
      | whole => exact ⟨by rintro d ⟨⟩, by rintro t ⟨⟩⟩
      | query part =>
          cases part with
          | whole => exact ⟨by rintro d ⟨⟩, by rintro t ⟨⟩⟩
          | item mem part =>
              rcases List.mem_cons.1 mem with rfl | mem
              · cases part
                exact ⟨by rintro d ⟨⟩, by rintro t ⟨⟩; rfl⟩
              · obtain rfl := List.mem_singleton.1 mem
                cases part
                exact ⟨by rintro d ⟨⟩; rfl, by rintro t ⟨⟩⟩

theorem wire_roundTrip_lookalike :
    lookalike.AllFinite ∧ lookalike.DoublesReadBack ∧ lookalike.InFourDigitYears ∧
      lookalike.LeapsEndMinutes ∧ parseWith 5 lookalike.text = .ok lookalike ∧
      parseWith 4 lookalike.text = .error (.tooDeep 4) := by
  have hfinite : lookalike.AllFinite := by
    intro d part
    rw [(part_lookalike part).1 d rfl]
    decide
  have hback : lookalike.DoublesReadBack := by
    intro d part
    rw [(part_lookalike part).1 d rfl]
    exact Binary64.readsBack_half
  have hyears : lookalike.InFourDigitYears := by
    intro t part
    rw [(part_lookalike part).2 t rfl]
    decide
  have hleaps : lookalike.LeapsEndMinutes := by
    intro t part
    rw [(part_lookalike part).2 t rfl]
    decide
  have hdepth : lookalike.wireDepth = 5 := by decide
  refine ⟨hfinite, hback, hyears, hleaps, ?_, ?_⟩
  · have hread := ((wire_roundTrip lookalike).2 hfinite hback 5).2.2
    exact (hread hdepth.le hyears).2 hleaps
  · have hdeep := ((wire_roundTrip lookalike).2 hfinite hback 4).2.1
    apply hdeep
    rw [hdepth]
    decide

/-- Neither leap seconds nor doubles are read back in general: the text of a leap second within a
minute shows the second after it, and the text of a double need not be read as the double. -/
theorem not_wire_roundTrip :
    (¬ ∀ v : Value, v.AllFinite → v.InFourDigitYears → v.DoublesReadBack →
      ∀ limit, v.wireDepth ≤ limit → parseWith limit v.text = .ok v) ∧
    ¬ ∀ v : Value, v.AllFinite → v.InFourDigitYears → v.LeapsEndMinutes →
      ∀ limit, v.wireDepth ≤ limit → parseWith limit v.text = .ok v := by
  constructor
  · intro hall
    have hyears : (timestamp earlyLeap).InFourDigitYears := by
      rintro t ⟨⟩
      decide
    have h := hall (timestamp earlyLeap) (by rintro d ⟨⟩) hyears (by rintro d ⟨⟩) 1 (Nat.le_refl 1)
    exact parseWith_earlyLeap_ne 1 h
  · intro hall
    have hfinite : (double Binary64.misread).AllFinite := by
      rintro d ⟨⟩
      decide
    have h := hall (double Binary64.misread) hfinite (by rintro t ⟨⟩) (by rintro t ⟨⟩) 0
      (Nat.le_refl 0)
    rw [parseWith_misread] at h
    cases h

end DocQuery.Value
