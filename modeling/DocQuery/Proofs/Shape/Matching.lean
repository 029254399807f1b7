import DocQuery.Proofs.Dict.Lookup
import DocQuery.Proofs.Shape.Collecting
import DocQuery.Shape.Codec

/-!
# What decoding by shape reports

A value matches a shape when it does at every position (`Shape.Matches`), and a failure explains why
it does not: a list, a dictionary or a record names exactly the parts that do not match, each once
and with a failure that explains it, in the order of the parts (`Shape.Explains`). Decoding has data
exactly for the values that match, and the failure otherwise is the one that explains it
(`Shape.decides_decode`).
-/

set_option autoImplicit false

namespace DocQuery

/-- The integer fits in 32 bits with a sign. -/
def FitsInt32 (n : Int64) : Prop :=
  Int32.minValue.toInt ≤ n.toInt ∧ n.toInt ≤ Int32.maxValue.toInt

instance (n : Int64) : Decidable (FitsInt32 n) := by
  unfold FitsInt32
  infer_instance

/-- Data of the shape may be missing from a record. -/
def Shape.IsOptional : Shape → Prop
  | .option _ => True
  | .string | .boolean | .int32 | .long | .double | .ref | .timestamp | .date | .value | .set
  | .list _ | .map _ | .record _ _ => False

mutual

/-- The value has the structure that a shape describes, at every position. -/
def Shape.Matches : Shape → Value → Prop
  | .string, v => v.kind = .string
  | .boolean, v => v.kind = .boolean
  | .int32, v => ∃ n, v = .long n ∧ FitsInt32 n
  | .long, v => v.kind = .long
  | .double, v => v.kind = .double ∨ v.kind = .long
  | .ref, v => v.kind = .ref
  | .timestamp, v => v.kind = .timestamp
  | .date, v => v.kind = .date
  | .value, _ => True
  | .set, v => ∃ members, v = .set (.object members)
  | .option content, v => v = .null ∨ content.Matches v
  | .list item, v => ∃ items, v = .array items ∧ ∀ x ∈ items, item.Matches x
  | .map member, v =>
      ∃ members, v = .object members ∧ ∀ key x, members.find? key = some x → member.Matches x
  | .record _ fields, v => ∃ members, v = .object members ∧ fields.Match members

/-- Every field has its member in an object, unless it is optional. -/
def Fields.Match : Fields → Dict Value → Prop
  | .nil, _ => True
  | .cons key shape rest, members =>
      (match members.find? key with
        | some x => shape.Matches x
        | none => shape.IsOptional) ∧ rest.Match members

end

mutual

/-- The failure is the full account of why a value does not match a shape. -/
def Shape.Explains : Shape → Value → FieldError → Prop
  | .string, v, e => v.kind ≠ .string ∧ e = .typeMismatch .string v.kind
  | .boolean, v, e => v.kind ≠ .boolean ∧ e = .typeMismatch .boolean v.kind
  | .int32, v, e =>
      (v.kind ≠ .long ∧ e = .typeMismatch .long v.kind) ∨
        ∃ n, v = .long n ∧ ¬ FitsInt32 n ∧ e = .invalid (outOfRangeText n)
  | .long, v, e => v.kind ≠ .long ∧ e = .typeMismatch .long v.kind
  | .double, v, e => (v.kind ≠ .double ∧ v.kind ≠ .long) ∧ e = .typeMismatch .double v.kind
  | .ref, v, e => v.kind ≠ .ref ∧ e = .typeMismatch .ref v.kind
  | .timestamp, v, e => v.kind ≠ .timestamp ∧ e = .typeMismatch .timestamp v.kind
  | .date, v, e => v.kind ≠ .date ∧ e = .typeMismatch .date v.kind
  | .value, _, _ => False
  | .set, v, e =>
      (v.kind ≠ .set ∧ e = .typeMismatch .set v.kind) ∨
        ∃ query, v = .set query ∧ query.kind ≠ .object ∧ e = .typeMismatch .object query.kind
  | .option content, v, e => v ≠ .null ∧ content.Explains v e
  | .list item, v, e =>
      (v.kind ≠ .array ∧ e = .typeMismatch .array v.kind) ∨
        ∃ items, v = .array items ∧ ∃ failures, e = .collect failures ∧
          Lists ((List.range items.length).map fun position => [.index position])
            (fun path failure => ∃ position x, path = [.index position] ∧
              items[position]? = some x ∧ item.Explains x failure) failures
  | .map member, v, e =>
      (v.kind ≠ .object ∧ e = .typeMismatch .object v.kind) ∨
        ∃ members, v = .object members ∧ ∃ failures, e = .collect failures ∧
          Lists (members.keys.map fun key => [.key key])
            (fun path failure => ∃ key x, path = [.key key] ∧ members.find? key = some x ∧
              member.Explains x failure) failures
  | .record name fields, v, e =>
      (v.kind ≠ .object ∧ e = .typeMismatch .object v.kind) ∨
        ∃ members, v = .object members ∧ ∃ failures, e = .record name failures ∧
          Lists fields.keys (fields.Explain members) failures

/-- The failure explains why the field at a key has no matching member. -/
def Fields.Explain : Fields → Dict Value → String → FieldError → Prop
  | .nil, _, _, _ => False
  | .cons key shape rest, members, k, e =>
      (k = key ∧
        match members.find? key with
        | some x => shape.Explains x e
        | none => ¬ shape.IsOptional ∧ e = .keyNotFound key) ∨ rest.Explain members k e

end

mutual

/-- No record of the shape lists a key twice. -/
def Shape.DistinctKeys : Shape → Prop
  | .option content => content.DistinctKeys
  | .list item => item.DistinctKeys
  | .map member => member.DistinctKeys
  | .record _ fields => fields.keys.Nodup ∧ fields.DistinctKeys
  | .string | .boolean | .int32 | .long | .double | .ref | .timestamp | .date | .value
  | .set => True

/-- No record among the fields lists a key twice. -/
def Fields.DistinctKeys : Fields → Prop
  | .nil => True
  | .cons _ shape rest => shape.DistinctKeys ∧ rest.DistinctKeys

end

/-! ## Scalars -/

/-- The result is data exactly when something holds, and otherwise the failure that a relation
tells. -/
def Decides {α : Type} (result : Except FieldError α) (holds : Prop)
    (explains : FieldError → Prop) : Prop :=
  ((∃ x, result = .ok x) ↔ holds) ∧ ∀ e, result = .error e ↔ explains e

theorem decides_ok {α : Type} {x : α} {holds : Prop} {explains : FieldError → Prop} (h : holds)
    (hnone : ∀ e, ¬ explains e) : Decides (.ok x) holds explains := by
  refine ⟨⟨fun _ => h, fun _ => ⟨x, rfl⟩⟩, fun e => ⟨?_, fun he => absurd he (hnone e)⟩⟩
  rintro ⟨⟩

theorem decides_error {α : Type} {e : FieldError} {holds : Prop} {explains : FieldError → Prop}
    (h : ¬ holds) (he : ∀ e', explains e' ↔ e' = e) :
    Decides (.error e : Except FieldError α) holds explains := by
  refine ⟨⟨?_, fun hholds => absurd hholds h⟩, fun e' => ?_⟩
  · rintro ⟨x, ⟨⟩⟩
  · rw [he, Except.error.injEq]
    exact eq_comm

theorem Decides.congr {α : Type} {result : Except FieldError α} {holds holds' : Prop}
    {explains explains' : FieldError → Prop} (h : Decides result holds explains)
    (hholds : holds ↔ holds') (hexplains : ∀ e, explains e ↔ explains' e) :
    Decides result holds' explains' :=
  ⟨h.1.trans hholds, fun e => (h.2 e).trans (hexplains e)⟩

theorem Decides.map {α β : Type} {result : Except FieldError α} {holds : Prop}
    {explains : FieldError → Prop} (h : Decides result holds explains) (f : α → β) :
    Decides (result.map f) holds explains := by
  cases result with
  | ok x =>
      refine ⟨⟨fun _ => h.1.1 ⟨x, rfl⟩, fun _ => ⟨f x, rfl⟩⟩, fun e => ?_⟩
      refine Iff.trans ⟨?_, ?_⟩ (h.2 e)
      · rintro ⟨⟩
      · rintro ⟨⟩
  | error e =>
      refine ⟨Iff.trans ⟨?_, ?_⟩ h.1, fun e' => Iff.trans ⟨?_, ?_⟩ (h.2 e')⟩
      · rintro ⟨x, ⟨⟩⟩
      · rintro ⟨x, ⟨⟩⟩
      · rintro ⟨⟩
        rfl
      · rintro ⟨⟩
        rfl

/-- The payload of a kind is read from exactly the values that have one. -/
theorem decides_expect {α : Type} (kind : Kind) {payload? : Value → Option α} {v : Value}
    {holds : Prop} (h : (∃ x, payload? v = some x) ↔ holds) :
    Decides (Codec.expect kind payload? v) holds
      (fun e => ¬ holds ∧ e = .typeMismatch kind v.kind) := by
  rw [Codec.expect]
  cases hpayload : payload? v with
  | some x =>
      have hholds : holds := h.1 ⟨x, hpayload⟩
      exact decides_ok hholds fun e he => he.1 hholds
  | none =>
      have hholds : ¬ holds := by
        intro hholds
        obtain ⟨x, hx⟩ := h.2 hholds
        rw [hpayload] at hx
        cases hx
      exact decides_error hholds fun e => ⟨And.right, fun he => ⟨hholds, he⟩⟩

theorem decides_int32 (v : Value) :
    Decides (decodeInt32 v) (Shape.int32.Matches v) (Shape.int32.Explains v) := by
  cases v with
  | long n =>
      by_cases hfits : FitsInt32 n
      · have hdecode : decodeInt32 (.long n) = .ok n.toInt32 := if_pos hfits
        rw [hdecode]
        refine decides_ok ⟨n, rfl, hfits⟩ ?_
        rintro e (⟨hkind, -⟩ | ⟨n', hn, hfits', -⟩)
        · exact hkind rfl
        · cases hn
          exact hfits' hfits
      · have hdecode : decodeInt32 (.long n) = .error (.invalid (outOfRangeText n)) :=
          if_neg hfits
        rw [hdecode]
        refine decides_error ?_ fun e => ⟨?_, ?_⟩
        · rintro ⟨n', hn, hfits'⟩
          cases hn
          exact hfits hfits'
        · rintro (⟨hkind, -⟩ | ⟨n', hn, -, he⟩)
          · exact absurd rfl hkind
          · cases hn
            exact he
        · intro he
          exact .inr ⟨n, rfl, hfits, he⟩
  | _ =>
      refine decides_error ?_ fun e => ⟨?_, fun he => .inl ⟨Kind.noConfusion, he⟩⟩
      · rintro ⟨n, ⟨⟩, -⟩
      · rintro (⟨-, he⟩ | ⟨n, ⟨⟩, -⟩)
        exact he

/-! ## Containers -/

/-- The failures of the parts, as the failure of the whole. -/
theorem decides_mapError {label α : Type} {outcomes : List (label × Option FieldError)}
    {result : Except (List (label × FieldError)) α} (hcollects : Collects outcomes result)
    (hnodup : (outcomes.map Prod.fst).Nodup) {holds : Prop}
    (hholds : (∀ outcome ∈ outcomes, outcome.2 = none) ↔ holds)
    {faults : label → FieldError → Prop} (hfaults : ∀ l e, (l, some e) ∈ outcomes ↔ faults l e)
    (wrap : List (label × FieldError) → FieldError) :
    Decides (result.mapError wrap) holds
      (fun e => ∃ failures, e = wrap failures ∧ Lists (outcomes.map Prod.fst) faults failures) := by
  constructor
  · rw [← hholds, ← hcollects.isOk_iff_forall]
    cases result with
    | ok x => exact ⟨fun _ => ⟨x, rfl⟩, fun _ => ⟨x, rfl⟩⟩
    | error failures =>
        constructor
        · rintro ⟨x, ⟨⟩⟩
        · rintro ⟨x, ⟨⟩⟩
  · intro e
    constructor
    · intro h
      cases hresult : result with
      | ok x =>
          rw [hresult] at h
          cases h
      | error failures =>
          refine ⟨failures, ?_, (hcollects.eq_error_iff_lists hnodup hfaults).1 hresult⟩
          rw [hresult] at h
          cases h
          rfl
    · rintro ⟨failures, rfl, hlists⟩
      rw [(hcollects.eq_error_iff_lists hnodup hfaults).2 hlists]
      rfl

/-- A container is one of the right kind whose parts are decided. -/
theorem decides_bind {α β : Type} (kind : Kind) {payload? : Value → Option α}
    {decode : α → Except FieldError β} {v : Value} {holds : α → Prop}
    {explains : α → FieldError → Prop} {wrap : α → Value}
    (hkind : ∀ v, v.kind = kind ↔ ∃ x, v = wrap x)
    (hpayload : ∀ v x, payload? v = some x ↔ v = wrap x)
    (hdecode : ∀ x, Decides (decode x) (holds x) (explains x)) :
    Decides (Codec.expect kind payload? v >>= decode) (∃ x, v = wrap x ∧ holds x)
      (fun e => (v.kind ≠ kind ∧ e = .typeMismatch kind v.kind) ∨
        ∃ x, v = wrap x ∧ explains x e) := by
  rw [Codec.expect]
  cases hv : payload? v with
  | some x =>
      -- the value has this payload only, so what holds of some payload holds of it
      have hx := (hpayload v x).1 hv
      have hunique (y : α) (hy : v = wrap y) : y = x :=
        Option.some.inj (((hpayload v y).2 hy).symm.trans hv)
      obtain ⟨hok, herror⟩ := hdecode x
      refine ⟨?_, fun e => ?_⟩
      · refine hok.trans ⟨fun h => ⟨x, hx, h⟩, ?_⟩
        rintro ⟨y, hy, h⟩
        rw [hunique y hy] at h
        exact h
      · refine (herror e).trans ⟨fun h => .inr ⟨x, hx, h⟩, ?_⟩
        rintro (⟨hne, -⟩ | ⟨y, hy, h⟩)
        · exact absurd ((hkind v).2 ⟨x, hx⟩) hne
        · rw [hunique y hy] at h
          exact h
  | none =>
      have hnone (y : α) (hy : v = wrap y) : False := by
        have hsome := (hpayload v y).2 hy
        rw [hv] at hsome
        cases hsome
      refine decides_error ?_ fun e => ⟨?_, fun he => .inl ⟨?_, he⟩⟩
      · rintro ⟨y, hy, -⟩
        exact hnone y hy
      · rintro (⟨-, he⟩ | ⟨y, hy, -⟩)
        · exact he
        · exact absurd hy (hnone y)
      · intro hk
        obtain ⟨y, hy⟩ := (hkind v).1 hk
        exact hnone y hy

theorem kind_eq_array_iff (v : Value) : v.kind = .array ↔ ∃ items, v = .array items := by
  cases v <;> simp [Value.kind]

theorem kind_eq_object_iff (v : Value) : v.kind = .object ↔ ∃ members, v = .object members := by
  cases v <;> simp [Value.kind]

theorem kind_eq_set_iff (v : Value) : v.kind = .set ↔ ∃ query, v = .set query := by
  cases v <;> simp [Value.kind]

theorem isNull_iff {v : Value} : v.isNull = true ↔ v = .null := by
  cases v <;> simp [Value.isNull]

theorem asArray?_eq_some_iff (v : Value) (items : List Value) :
    v.asArray? = some items ↔ v = .array items := by
  cases v <;> simp [Value.asArray?]

theorem asObject?_eq_some_iff (v : Value) (members : Dict Value) :
    v.asObject? = some members ↔ v = .object members := by
  cases v <;> simp [Value.asObject?]

theorem asSet?_eq_some_iff (v query : Value) : v.asSet? = some query ↔ v = .set query := by
  cases v <;> simp [Value.asSet?]

/-! ## Items and members -/

/-- The outcomes of items, each at its position. -/
def itemOutcomes {α : Type} (label : Nat → Path) (decode : Value → Except FieldError α)
    (position : Nat) (items : List Value) : List (Path × Option FieldError) :=
  (items.zipIdx position).map fun x => (label x.2, failure? (decode x.1))

theorem collects_decodeItems {α : Type} (label : Nat → Path)
    (decode : Value → Except FieldError α) (position : Nat) (items : List Value) :
    Collects (itemOutcomes label decode position items)
      (decodeItems label decode position items) := by
  induction items generalizing position with
  | nil => exact rfl
  | cons item items ih => exact collects_gather (label position) List.cons (ih (position + 1))

theorem map_fst_itemOutcomes {α : Type} (label : Nat → Path)
    (decode : Value → Except FieldError α) (items : List Value) :
    (itemOutcomes label decode 0 items).map Prod.fst =
      (List.range items.length).map label := by
  rw [itemOutcomes, List.map_map, List.range_eq_range', ← List.zipIdx_map_snd, List.map_map]
  rfl

theorem mem_itemOutcomes_iff {α : Type} {label : Nat → Path}
    {decode : Value → Except FieldError α} {items : List Value} {path : Path}
    {outcome : Option FieldError} :
    (path, outcome) ∈ itemOutcomes label decode 0 items ↔
      ∃ position x, path = label position ∧ items[position]? = some x ∧
        failure? (decode x) = outcome := by
  rw [itemOutcomes, List.mem_map]
  constructor
  · rintro ⟨⟨x, position⟩, hmem, heq⟩
    cases heq
    exact ⟨position, x, rfl, List.mem_zipIdx_iff_getElem?.1 hmem, rfl⟩
  · rintro ⟨position, x, rfl, hx, rfl⟩
    exact ⟨(x, position), List.mem_zipIdx_iff_getElem?.2 hx, rfl⟩

/-- The outcomes of members, each at its key. -/
def memberOutcomes {α : Type} (decode : Value → Except FieldError α) {bound : Option String}
    (members : Entries Value bound) : List (Path × Option FieldError) :=
  members.toList.map fun entry => ([.key entry.1], failure? (decode entry.2))

theorem collects_decodeMembers {α : Type} (decode : Value → Except FieldError α) :
    {bound : Option String} → (members : Entries Value bound) →
      Collects (memberOutcomes decode members) (decodeMembers decode members)
  | _, .nil => rfl
  | _, .cons key above _ members =>
      collects_gather [Segment.key key] (Entries.cons key above)
        (collects_decodeMembers decode members)

theorem map_fst_memberOutcomes {α : Type} (decode : Value → Except FieldError α)
    {bound : Option String} (members : Entries Value bound) :
    (memberOutcomes decode members).map Prod.fst = members.keys.map fun key => [.key key] := by
  rw [memberOutcomes, List.map_map, ← Entries.map_fst_toList, List.map_map]
  rfl

theorem mem_memberOutcomes_iff {α : Type} {decode : Value → Except FieldError α}
    {bound : Option String} {members : Entries Value bound} {path : Path}
    {outcome : Option FieldError} :
    (path, outcome) ∈ memberOutcomes decode members ↔
      ∃ key x, path = [.key key] ∧ members.find? key = some x ∧
        failure? (decode x) = outcome := by
  rw [memberOutcomes, List.mem_map]
  constructor
  · rintro ⟨⟨key, x⟩, hmem, heq⟩
    cases heq
    exact ⟨key, x, rfl, (Entries.mem_toList_iff members).1 hmem, rfl⟩
  · rintro ⟨key, x, rfl, hx, rfl⟩
    exact ⟨(key, x), (Entries.mem_toList_iff members).2 hx, rfl⟩

/-- The outcomes of the fields of a record, each at its key. -/
def Fields.outcomes : Fields → Dict Value → List (String × Option FieldError)
  | .nil, _ => []
  | .cons key shape rest, members =>
      (key, failure? (match members.find? key with
        | some v => shape.decode v
        | none => match shape.absent? with
            | some absent => .ok absent
            | none => .error (.keyNotFound key))) :: rest.outcomes members

theorem collects_decode : (fields : Fields) → (members : Dict Value) →
    Collects (fields.outcomes members) (fields.decode members)
  | .nil, _ => rfl
  | .cons key _ rest, members => collects_gather key Prod.mk (collects_decode rest members)

theorem map_fst_outcomes : (fields : Fields) → (members : Dict Value) →
    (fields.outcomes members).map Prod.fst = fields.keys
  | .nil, _ => rfl
  | .cons key _ rest, members => congrArg (key :: ·) (map_fst_outcomes rest members)

/-! ## Every shape -/

theorem failure?_eq_none_iff_of_decides {α : Type} {result : Except FieldError α} {holds : Prop}
    {explains : FieldError → Prop} (h : Decides result holds explains) :
    failure? result = none ↔ holds :=
  failure?_eq_none_iff.trans h.1

theorem failure?_eq_some_iff_of_decides {α : Type} {result : Except FieldError α} {holds : Prop}
    {explains : FieldError → Prop} (h : Decides result holds explains) {e : FieldError} :
    failure? result = some e ↔ explains e :=
  failure?_eq_some_iff.trans (h.2 e)

theorem decides_list {α : Type} {item : Shape} {decode : Value → Except FieldError α}
    (hitem : ∀ x, Decides (decode x) (item.Matches x) (item.Explains x)) (v : Value) :
    Decides (decodeArray (fun position => [.index position]) decode v)
      ((Shape.list item).Matches v) ((Shape.list item).Explains v) := by
  have hparts (items : List Value) :
      Decides ((decodeItems (fun position => [.index position]) decode 0 items).mapError .collect)
        (∀ x ∈ items, item.Matches x)
        (fun e => ∃ failures, e = .collect failures ∧
          Lists ((List.range items.length).map fun position => [.index position])
            (fun path failure => ∃ position x, path = [.index position] ∧
              items[position]? = some x ∧ item.Explains x failure) failures) := by
    rw [← map_fst_itemOutcomes (fun position => [.index position]) decode items]
    refine decides_mapError (collects_decodeItems _ decode 0 items) ?_ ?_ ?_ .collect
    · rw [map_fst_itemOutcomes]
      refine List.nodup_range.map fun a b h => ?_
      exact Segment.index.inj (List.cons.inj h).1
    · constructor
      · -- an item has an outcome at its position
        intro h x hx
        obtain ⟨position, hposition⟩ := List.mem_iff_getElem?.1 hx
        have hmem : ([.index position], failure? (decode x)) ∈
            itemOutcomes (fun position => [.index position]) decode 0 items :=
          mem_itemOutcomes_iff.2 ⟨position, x, rfl, hposition, rfl⟩
        exact (failure?_eq_none_iff_of_decides (hitem x)).1 (h _ hmem)
      · rintro h ⟨path, outcome⟩ hmem
        obtain ⟨position, x, -, hx, rfl⟩ := mem_itemOutcomes_iff.1 hmem
        exact (failure?_eq_none_iff_of_decides (hitem x)).2 (h x (List.mem_of_getElem? hx))
    · intro path e
      rw [mem_itemOutcomes_iff]
      simp only [failure?_eq_some_iff_of_decides (hitem _)]
  exact decides_bind .array kind_eq_array_iff asArray?_eq_some_iff hparts

theorem decides_members {α : Type} {member : Shape} {decode : Value → Except FieldError α}
    (hmember : ∀ x, Decides (decode x) (member.Matches x) (member.Explains x)) (v : Value) :
    Decides (decodeObject decode v) ((Shape.map member).Matches v)
      ((Shape.map member).Explains v) := by
  have hparts (members : Dict Value) :
      Decides ((decodeMembers decode members).mapError .collect)
        (∀ key x, members.find? key = some x → member.Matches x)
        (fun e => ∃ failures, e = .collect failures ∧
          Lists (members.keys.map fun key => [.key key])
            (fun path failure => ∃ key x, path = [.key key] ∧ members.find? key = some x ∧
              member.Explains x failure) failures) := by
    rw [← map_fst_memberOutcomes decode members]
    refine decides_mapError (collects_decodeMembers decode members) ?_ ?_ ?_ .collect
    · rw [map_fst_memberOutcomes]
      refine (Entries.nodup_keys members).map fun a b h => ?_
      exact Segment.key.inj (List.cons.inj h).1
    · constructor
      · intro h key x hx
        have hmem : ([.key key], failure? (decode x)) ∈ memberOutcomes decode members :=
          mem_memberOutcomes_iff.2 ⟨key, x, rfl, hx, rfl⟩
        exact (failure?_eq_none_iff_of_decides (hmember x)).1 (h _ hmem)
      · rintro h ⟨path, outcome⟩ hmem
        obtain ⟨key, x, -, hx, rfl⟩ := mem_memberOutcomes_iff.1 hmem
        exact (failure?_eq_none_iff_of_decides (hmember x)).2 (h key x hx)
    · intro path e
      rw [mem_memberOutcomes_iff]
      simp only [failure?_eq_some_iff_of_decides (hmember _)]
  exact decides_bind .object kind_eq_object_iff asObject?_eq_some_iff hparts

/-- The members of the query of a set are taken as they are. -/
theorem decides_set (v : Value) :
    Decides (decodeSet v) (Shape.set.Matches v) (Shape.set.Explains v) := by
  have hquery (query : Value) :
      Decides (decodeObject .ok query) (∃ members, query = .object members)
        (fun e => query.kind ≠ .object ∧ e = .typeMismatch .object query.kind) := by
    have hvalue (x : Value) :
        Decides (.ok x : Except FieldError Value) (Shape.value.Matches x)
          (Shape.value.Explains x) :=
      decides_ok trivial fun _ => id
    refine (decides_members hvalue query).congr ?_ fun e => ?_
    · constructor
      · rintro ⟨members, h, -⟩
        exact ⟨members, h⟩
      · rintro ⟨members, h⟩
        exact ⟨members, h, fun _ _ _ => trivial⟩
    · constructor
      · rintro (h | ⟨members, -, failures, -, hne, -, hfaults⟩)
        · exact h
        · -- a list of failures is not empty, but no member is a fault
          obtain ⟨⟨path, failure⟩, hmem⟩ := List.exists_mem_of_ne_nil failures hne
          obtain ⟨key, x, -, -, hfalse⟩ := (hfaults path failure).1 hmem
          exact hfalse.elim
      · exact .inl
  refine (decides_bind .set kind_eq_set_iff asSet?_eq_some_iff hquery).congr ?_ fun e => Iff.rfl
  constructor
  · rintro ⟨query, rfl, members, rfl⟩
    exact ⟨members, rfl⟩
  · rintro ⟨members, rfl⟩
    exact ⟨_, rfl, members, rfl⟩

theorem decides_option {α : Type} {content : Shape} {decode : Value → Except FieldError α}
    (hcontent : ∀ x, Decides (decode x) (content.Matches x) (content.Explains x)) (v : Value) :
    Decides (if v.isNull then .ok none else (decode v).map some)
      ((Shape.option content).Matches v) ((Shape.option content).Explains v) := by
  by_cases hnull : v = .null
  · subst hnull
    exact decides_ok (.inl rfl) fun e he => he.1 rfl
  · rw [if_neg fun h => hnull (isNull_iff.1 h)]
    refine ((hcontent v).map some).congr ?_ fun e => ?_
    · exact ⟨.inr, fun h => h.resolve_left hnull⟩
    · exact ⟨fun h => ⟨hnull, h⟩, And.right⟩

/-- A missing member is data exactly when it is optional. -/
theorem decides_missing (shape : Shape) (key : String) :
    Decides (match shape.absent? with
      | some absent => .ok absent
      | none => .error (.keyNotFound key)) shape.IsOptional
      (fun e => ¬ shape.IsOptional ∧ e = .keyNotFound key) := by
  cases shape with
  | option content => exact decides_ok trivial fun e he => he.1 trivial
  | _ => exact decides_error id fun e => ⟨And.right, fun he => ⟨id, he⟩⟩

theorem exists_asString?_iff (v : Value) : (∃ x, v.asString? = some x) ↔ v.kind = .string := by
  cases v <;> simp [Value.asString?, Value.kind]

theorem exists_asBoolean?_iff (v : Value) : (∃ x, v.asBoolean? = some x) ↔ v.kind = .boolean := by
  cases v <;> simp [Value.asBoolean?, Value.kind]

theorem exists_asLong?_iff (v : Value) : (∃ x, v.asLong? = some x) ↔ v.kind = .long := by
  cases v <;> simp [Value.asLong?, Value.kind]

theorem exists_asDouble?_iff (v : Value) :
    (∃ x, v.asDouble? = some x) ↔ v.kind = .double ∨ v.kind = .long := by
  cases v <;> simp [Value.asDouble?, Value.kind]

theorem exists_asRef?_iff (v : Value) : (∃ x, v.asRef? = some x) ↔ v.kind = .ref := by
  cases v <;> simp [Value.asRef?, Value.kind]

theorem exists_asTimestamp?_iff (v : Value) :
    (∃ x, v.asTimestamp? = some x) ↔ v.kind = .timestamp := by
  cases v <;> simp [Value.asTimestamp?, Value.kind]

theorem exists_asDate?_iff (v : Value) : (∃ x, v.asDate? = some x) ↔ v.kind = .date := by
  cases v <;> simp [Value.asDate?, Value.kind]

mutual

/-- **Decoding has data exactly for the values that match, and otherwise the failure that explains
why the value does not.** -/
theorem Shape.decides_decode : (shape : Shape) → shape.DistinctKeys → (v : Value) →
    Decides (shape.decode v) (shape.Matches v) (shape.Explains v)
  | .string, _, v => decides_expect .string (exists_asString?_iff v)
  | .boolean, _, v => decides_expect .boolean (exists_asBoolean?_iff v)
  | .int32, _, v => decides_int32 v
  | .long, _, v => decides_expect .long (exists_asLong?_iff v)
  | .double, _, v =>
      (decides_expect .double (exists_asDouble?_iff v)).congr Iff.rfl
        fun _ => and_congr_left fun _ => not_or
  | .ref, _, v => decides_expect .ref (exists_asRef?_iff v)
  | .timestamp, _, v => decides_expect .timestamp (exists_asTimestamp?_iff v)
  | .date, _, v => decides_expect .date (exists_asDate?_iff v)
  | .value, _, _ => decides_ok trivial fun _ => id
  | .set, _, v => decides_set v
  | .option content, h, v => decides_option (Shape.decides_decode content h) v
  | .list item, h, v => decides_list (Shape.decides_decode item h) v
  | .map member, h, v => decides_members (Shape.decides_decode member h) v
  | .record name fields, h, v => by
      have hparts (members : Dict Value) :
          Decides ((fields.decode members).mapError (.record name)) (fields.Match members)
            (fun e => ∃ failures, e = .record name failures ∧
              Lists fields.keys (fields.Explain members) failures) := by
        obtain ⟨hmatch, hexplain⟩ := Fields.outcomes_spec fields h.2 members
        rw [← map_fst_outcomes fields members]
        refine decides_mapError (collects_decode fields members) ?_ hmatch hexplain (.record name)
        rw [map_fst_outcomes]
        exact h.1
      exact decides_bind .object kind_eq_object_iff asObject?_eq_some_iff hparts

/-- The outcomes of the fields of a record are the faults of its members. -/
theorem Fields.outcomes_spec : (fields : Fields) → fields.DistinctKeys → (members : Dict Value) →
    ((∀ outcome ∈ fields.outcomes members, outcome.2 = none) ↔ fields.Match members) ∧
      ∀ k e, (k, some e) ∈ fields.outcomes members ↔ fields.Explain members k e
  | .nil, _, _ => by
      refine ⟨⟨fun _ => trivial, fun _ outcome h => absurd h List.not_mem_nil⟩, fun k e => ?_⟩
      exact ⟨fun h => absurd h List.not_mem_nil, False.elim⟩
  | .cons key shape rest, h, members => by
      obtain ⟨hmatch, hexplain⟩ := Fields.outcomes_spec rest h.2 members
      -- the member is decided by its shape, and a missing one by whether it is optional
      have hmember : Decides (match members.find? key with
          | some v => shape.decode v
          | none => match shape.absent? with
              | some absent => .ok absent
              | none => .error (.keyNotFound key))
          (match members.find? key with
            | some x => shape.Matches x
            | none => shape.IsOptional)
          (fun e => match members.find? key with
            | some x => shape.Explains x e
            | none => ¬ shape.IsOptional ∧ e = .keyNotFound key) := by
        cases members.find? key with
        | some x => exact Shape.decides_decode shape h.1 x
        | none => exact decides_missing shape key
      constructor
      · rw [Fields.outcomes, List.forall_mem_cons, hmatch]
        exact and_congr_left fun _ => failure?_eq_none_iff_of_decides hmember
      · intro k e
        rw [Fields.outcomes, List.mem_cons, hexplain, Prod.mk.injEq]
        refine or_congr_left (and_congr_right fun _ => ?_)
        exact eq_comm.trans (failure?_eq_some_iff_of_decides hmember)

end

end DocQuery
