import DocQuery.Proofs.Binary64.Nearest
import DocQuery.Proofs.Calendar.LocalTime
import DocQuery.Proofs.Value.Tags

/-!
# Induction over conversion

A document is converted to a value in one of a few ways: a scalar to a scalar, an array item by item,
an object with the key of a tag as that tag tells, and any other object member by member. What each
of these ways keeps holds of every document and the value it is converted to
(`KeptByConversion.ofJson`), so a fact about converted values is proved way by way, without going
through keys and limits again.

What holds of numbers and timestamps as they are read holds of the parts of a converted value
(`keptByConversion_part`). So its doubles are finite and it has a wire form (`allFinite_of_ofJson`),
and its leap seconds end minutes (`leapsEndMinutes_of_ofJson`).
-/

set_option autoImplicit false

namespace DocQuery

namespace Value

/-! ## Ways to convert -/

theorem exists_ref_of_refOfJson {payload : Json} {v : Value} (h : refOfJson payload = .ok v) :
    ∃ r, v = ref r := by
  obtain ⟨id, -, h⟩ := exists_of_bind_eq_ok h
  cases hid : Ref.ofId? id with
  | none =>
      rw [hid] at h
      cases h
  | some r =>
      rw [hid] at h
      exact ⟨r, (Except.ok.inj h).symm⟩

theorem exists_timestamp_of_timestampOfJson {payload : Json} {v : Value}
    (h : timestampOfJson payload = .ok v) :
    ∃ raw t, Timestamp.parse raw = .ok t ∧ v = timestamp t := by
  obtain ⟨raw, -, h⟩ := exists_of_bind_eq_ok h
  cases hraw : Timestamp.parse raw with
  | error fault =>
      rw [hraw] at h
      cases h
  | ok t =>
      rw [hraw] at h
      exact ⟨raw, t, hraw, (Except.ok.inj h).symm⟩

theorem exists_date_of_dateOfJson {payload : Json} {v : Value} (h : dateOfJson payload = .ok v) :
    ∃ d, v = date d := by
  obtain ⟨raw, -, h⟩ := exists_of_bind_eq_ok h
  cases hraw : Date.parse raw with
  | error fault =>
      rw [hraw] at h
      cases h
  | ok d =>
      rw [hraw] at h
      exact ⟨d, (Except.ok.inj h).symm⟩

/-- Every way to convert a document keeps the relation between documents and values. -/
structure KeptByConversion (holds : Json → Value → Prop) : Prop where
  null : holds .null null
  bool (b : Bool) : holds (.bool b) (boolean b)
  number (n : Json.Number) : holds (.number n) (ofNumber n)
  string (s : String) : holds (.string s) (string s)
  array {items : List Json} {vs : List Value} (parts : List.Forall₂ holds items vs) :
    holds (.array items) (array vs)
  ref (payload : Json) (r : Ref) : holds (tagged .ref payload) (ref r)
  timestamp (payload : Json) {raw : String} {t : Timestamp} (read : Timestamp.parse raw = .ok t) :
    holds (tagged .timestamp payload) (timestamp t)
  date (payload : Json) (d : Date) : holds (tagged .date payload) (date d)
  set {payload : Json} {query : Value} (part : holds payload query) :
    holds (tagged .set payload) (set query)
  /-- Under the tag of objects the keys are taken as they are. -/
  escaped {members : Dict Json} {vs : Dict Value} (parts : Entries.Forall₂ holds members vs) :
    holds (tagged .object (.object members)) (object vs)
  plain {members : Dict Json} {vs : Dict Value} (untagged : tagOf? members = none)
    (parts : Entries.Forall₂ holds members vs) : holds (.object members) (object vs)

/-- **Induction over conversion.** What every way to convert a document keeps holds of a document and
the value it is converted to. -/
theorem KeptByConversion.ofJson {holds : Json → Value → Prop} (kept : KeptByConversion holds)
    {limit depth : Nat} {json : Json} {v : Value} (h : Value.ofJson limit depth json = .ok v) :
    holds json v := by
  -- members that are converted one by one are related one by one
  have hmembers {members : Dict Json} {depth : Nat} {vs : Dict Value}
      (ih : ∀ entry ∈ Entries.toList members, ∀ {depth : Nat} {v : Value},
        Value.ofJson limit depth entry.2 = .ok v → holds entry.2 v)
      (hvs : membersOfJson limit depth members = .ok vs) : Entries.Forall₂ holds members vs :=
    (membersOfJson_eq_ok_iff.1 hvs).imp_of_mem fun entry hmem _ hentry => ih entry hmem hentry
  induction json using recTagged generalizing depth v with
  | null =>
      rw [Value.ofJson] at h
      obtain rfl := Except.ok.inj (eq_ok_of_guard h)
      exact kept.null
  | bool b =>
      rw [Value.ofJson] at h
      obtain rfl := Except.ok.inj (eq_ok_of_guard h)
      exact kept.bool b
  | number n =>
      rw [Value.ofJson] at h
      obtain rfl := Except.ok.inj (eq_ok_of_guard h)
      exact kept.number n
  | string s =>
      rw [Value.ofJson] at h
      obtain rfl := Except.ok.inj (eq_ok_of_guard h)
      exact kept.string s
  | array items ih =>
      rw [Value.ofJson] at h
      obtain ⟨vs, hvs, rfl⟩ := exists_of_map_eq_ok (eq_ok_of_guard h)
      have hboth := (List.forall₂_and_left items vs).2 ⟨ih, itemsOfJson_eq_ok_iff.1 hvs⟩
      exact kept.array (hboth.imp fun item v hitem => hitem.1 hitem.2)
  | tagged tag payload ih ihmembers =>
      rw [ofJson_tagged] at h
      replace h := eq_ok_of_guard h
      cases tag with
      | ref =>
          obtain ⟨r, rfl⟩ := exists_ref_of_refOfJson h
          exact kept.ref payload r
      | timestamp =>
          obtain ⟨raw, t, hraw, rfl⟩ := exists_timestamp_of_timestampOfJson h
          exact kept.timestamp payload hraw
      | date =>
          obtain ⟨d, rfl⟩ := exists_date_of_dateOfJson h
          exact kept.date payload d
      | set =>
          obtain ⟨query, hquery, rfl⟩ := exists_of_map_eq_ok h
          exact kept.set (ih hquery)
      | object =>
          -- under the tag of objects nothing but an object is converted
          cases payload with
          | object members =>
              obtain ⟨vs, hvs, rfl⟩ := exists_of_map_eq_ok h
              exact kept.escaped (hmembers (ihmembers members rfl) hvs)
          | null | bool _ | number _ | string _ | array _ => cases h
  | untagged members htag ih =>
      rw [ofJson_untagged limit depth htag] at h
      obtain ⟨vs, hvs, rfl⟩ := exists_of_map_eq_ok (eq_ok_of_guard h)
      exact kept.plain htag (hmembers ih hvs)

/-! ## The parts of a converted value -/

/-- A number of a document is a value without parts other than itself. -/
theorem eq_of_part_ofNumber {p : Value} {n : Json.Number} (part : Part p (ofNumber n)) :
    p = ofNumber n := by
  cases n with
  | integer n fits =>
      rw [ofNumber] at part ⊢
      by_cases hle : n ≤ Int64.maxValue.toInt
      · rw [if_pos hle] at part ⊢
        cases part
        rfl
      · rw [if_neg hle] at part ⊢
        cases part
        rfl
  | double d finite =>
      cases part
      rfl

/-- What holds of the numbers of documents, of timestamps that were read, and of any other value but
these, holds of every part of a converted value. -/
theorem keptByConversion_part {holds : Value → Prop} (number : ∀ n, holds (ofNumber n))
    (read : ∀ {raw : String} {t : Timestamp}, Timestamp.parse raw = .ok t → holds (timestamp t))
    (other : ∀ p : Value, p.kind ≠ .double → p.kind ≠ .timestamp → holds p) :
    KeptByConversion fun _ v => ∀ p, Part p v → holds p := by
  -- members bring their own parts, and are one part more together
  have hobject {members : Dict Json} {vs : Dict Value}
      (parts : Entries.Forall₂ (fun _ v => ∀ p, Part p v → holds p) members vs) :
      ∀ p, Part p (object vs) → holds p := by
    intro p part
    cases part with
    | whole => exact other _ Kind.noConfusion Kind.noConfusion
    | member mem part =>
        obtain ⟨_, -, hentry⟩ := parts.exists_mem_left mem
        exact hentry p part
  constructor
  case null =>
    rintro p ⟨⟩
    exact other _ Kind.noConfusion Kind.noConfusion
  case bool =>
    rintro b p ⟨⟩
    exact other _ Kind.noConfusion Kind.noConfusion
  case number =>
    intro n p part
    rw [eq_of_part_ofNumber part]
    exact number n
  case string =>
    rintro s p ⟨⟩
    exact other _ Kind.noConfusion Kind.noConfusion
  case array =>
    intro items vs parts p part
    cases part with
    | whole => exact other _ Kind.noConfusion Kind.noConfusion
    | item mem part =>
        obtain ⟨_, -, hitem⟩ := exists_mem_of_forall₂ parts mem
        exact hitem p part
  case ref =>
    rintro payload r p ⟨⟩
    exact other _ Kind.noConfusion Kind.noConfusion
  case timestamp =>
    rintro payload raw t hread p ⟨⟩
    exact read hread
  case date =>
    rintro payload d p ⟨⟩
    exact other _ Kind.noConfusion Kind.noConfusion
  case set =>
    intro payload query hquery p part
    cases part with
    | whole => exact other _ Kind.noConfusion Kind.noConfusion
    | query part => exact hquery p part
  case escaped =>
    intro members vs parts
    exact hobject parts
  case plain =>
    intro members vs _ parts
    exact hobject parts

/-- A number of a document is read as an integer or as a finite double. -/
theorem isFinite_of_ofNumber {n : Json.Number} {d : Binary64} (h : ofNumber n = double d) :
    d.isFinite = true := by
  cases n with
  | integer n fits =>
      rw [ofNumber] at h
      split at h
      · cases h
      · cases h
        apply Binary64.isFinite_ofInt
        have hsize : UInt64.size = 18446744073709551616 := rfl
        have hmin : Int64.minValue.toInt = -9223372036854775808 := rfl
        obtain ⟨hlow, hhigh⟩ := fits
        omega
  | double d' finite =>
      cases h
      exact finite

/-- A number of a document is no timestamp. -/
theorem ofNumber_ne_timestamp (n : Json.Number) (t : Timestamp) : ofNumber n ≠ timestamp t := by
  cases n with
  | integer n fits =>
      rw [ofNumber]
      split <;> exact Value.noConfusion
  | double d finite => exact Value.noConfusion

/-- **The doubles of a converted value are all finite.** -/
theorem allFinite_of_ofJson {limit depth : Nat} {json : Json} {v : Value}
    (h : ofJson limit depth json = .ok v) : v.AllFinite := by
  have hkept : KeptByConversion fun _ v => ∀ p, Part p v → ∀ d, p = double d → d.isFinite = true := by
    apply keptByConversion_part
    · intro n d
      exact isFinite_of_ofNumber
    · rintro raw t - d ⟨⟩
    · rintro p hkind - d rfl
      exact absurd rfl hkind
  intro d part
  exact hkept.ofJson h _ part d rfl

/-- **The leap seconds of a converted value all end minutes.** -/
theorem leapsEndMinutes_of_ofJson {limit depth : Nat} {json : Json} {v : Value}
    (h : ofJson limit depth json = .ok v) : v.LeapsEndMinutes := by
  have hkept : KeptByConversion fun _ v =>
      ∀ p, Part p v → ∀ t, p = timestamp t → t.LeapEndsMinute := by
    apply keptByConversion_part
    · intro n t heq
      exact absurd heq (ofNumber_ne_timestamp n t)
    · rintro raw t hread t' ⟨⟩
      exact Timestamp.leapEndsMinute_of_parse hread
    · rintro p - hkind t rfl
      exact absurd rfl hkind
  intro t part
  exact hkept.ofJson h _ part t rfl

end Value

end DocQuery
