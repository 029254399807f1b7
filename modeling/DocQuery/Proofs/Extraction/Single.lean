import DocQuery.Extraction
import DocQuery.Proofs.Binary64.Closest
import DocQuery.Proofs.Field.Collection
import DocQuery.Proofs.Shape.Stability
import DocQuery.Proofs.Value.Conversion
import DocQuery.Proofs.Value.Reading
import DocQuery.Proofs.Value.RoundTrip

/-!
# What is extracted is what is there

A reading asks for values of one kind, a reading as a value for any, and a reading as a double takes
integers too. What a reading takes is shown as it is, except that an integer read as a double becomes
the double nearest to it (`Reading.Shows`). Writing it again can fail for a double that is not finite
only, and a parsed document has none. So extraction from a document gives what lies at the path, or
says that there is nothing there or something of another kind (`extract_exact`).
-/

set_option autoImplicit false

namespace DocQuery

open Value (Part)

/-! ## Parts at paths -/

theorem Segment.part_of_step {segment : Segment} {v next : Value} (h : segment.step v = .ok next) :
    Part next v := by
  cases segment with
  | key name =>
      obtain ⟨members, rfl, hfind⟩ := step_key_eq_ok_iff.1 h
      have hmem := (Entries.mem_toList_iff members).2 hfind
      exact .member hmem .whole
  | index position =>
      obtain ⟨items, rfl, hitem⟩ := step_index_eq_ok_iff.1 h
      exact .item (List.mem_of_getElem? hitem) .whole

/-- What a path leads to is a part of the value. -/
theorem Path.part_of_get {path : Path} {root v : Value} (h : path.get root = .ok v) :
    Part v root := by
  rw [get_eq_ok_iff] at h
  induction path generalizing root with
  | nil =>
      obtain rfl := Except.ok.inj h
      exact .whole
  | cons segment path ih =>
      obtain ⟨next, hstep, hwalk⟩ := exists_of_bind_eq_ok h
      exact (ih hwalk).trans (Segment.part_of_step hstep)

/-! ## Readings -/

namespace Reading

/-- The kind of values that a reading asks for; a reading as a value asks for none. -/
def kind? : Reading → Option Kind
  | value => none
  | string => some .string
  | long => some .long
  | double => some .double
  | boolean => some .boolean
  | ref => some .ref
  | timestamp => some .timestamp
  | date => some .date
  | array => some .array
  | object => some .object

/-- Values of the kind can be read: it is the kind asked for, or integers are read as doubles. -/
def Accepts (reading : Reading) (kind : Kind) : Prop :=
  ∀ asked, reading.kind? = some asked → kind = asked ∨ (asked = .double ∧ kind = .long)

/-- Why a value can not be read: the kind that is asked for does not match its own. -/
def Mismatches (reading : Reading) (v : Value) (cause : FieldError) : Prop :=
  ∃ asked, reading.kind? = some asked ∧ ¬ reading.Accepts v.kind ∧
    cause = .typeMismatch asked v.kind

/-- What is shown of a value that can be read. -/
inductive Shows : Reading → Value → Value → Prop where
  | value (v : Value) : Shows value v v
  | ofKind {reading : Reading} {v : Value} (kind : reading.kind? = some v.kind) : Shows reading v v
  /-- An integer that is read as a double is shown as the nearest one. -/
  | widened {n : Int64} {d : Binary64} (nearest : d.IsNearest n.toInt) :
      Shows double (.long n) (.double d)

theorem accepts_iff {reading : Reading} {asked kind : Kind} (h : reading.kind? = some asked) :
    reading.Accepts kind ↔ kind = asked ∨ (asked = .double ∧ kind = .long) := by
  constructor
  · intro haccepts
    exact haccepts asked h
  · intro hkind asked' h'
    obtain rfl := Option.some.inj (h.symm.trans h')
    exact hkind

theorem Shows.accepts {reading : Reading} {v out : Value} (h : reading.Shows v out) :
    reading.Accepts v.kind := by
  cases h with
  | value =>
      rintro asked ⟨⟩
  | ofKind kind => exact (accepts_iff kind).2 (.inl rfl)
  | widened nearest => exact (accepts_iff rfl).2 (.inr ⟨rfl, rfl⟩)

/-- One result is shown of a value. -/
theorem Shows.unique {reading : Reading} {v out out' : Value} (h : reading.Shows v out)
    (h' : reading.Shows v out') : out = out' := by
  cases h with
  | value =>
      cases h' with
      | value => rfl
      | ofKind => rfl
  | ofKind kind =>
      cases h' with
      | value => rfl
      | ofKind => rfl
      | widened nearest => cases kind
  | widened nearest =>
      cases h' with
      | ofKind kind => cases kind
      | widened nearest' => rw [nearest.unique nearest']

/-! ## Reading and writing again -/

section

variable {reading : Reading} {asked : Kind}

theorem accepts_iff_eq (h : reading.kind? = some asked) (hne : asked ≠ .double) {kind : Kind} :
    reading.Accepts kind ↔ kind = asked := by
  rw [accepts_iff h]
  simp [hne]

section

variable (hasked : reading.kind? = some asked) {α : Type} {payload? : Value → Option α} {v : Value}

include hasked

/-- A mismatch is one of the kind that the reading asks for. -/
theorem decides_of_kind (h : (∃ x, payload? v = some x) ↔ reading.Accepts v.kind) :
    Decides (Codec.expect asked payload? v) (reading.Accepts v.kind) (reading.Mismatches v) := by
  apply (decides_expect asked h).congr Iff.rfl
  intro e
  simp [Mismatches, hasked]

theorem decides_of_ne_double (hne : asked ≠ .double)
    (h : (∃ x, payload? v = some x) ↔ v.kind = asked) :
    Decides (Codec.expect asked payload? v) (reading.Accepts v.kind) (reading.Mismatches v) := by
  apply decides_of_kind hasked
  rw [accepts_iff_eq hasked hne]
  exact h

end

end

/-- **A reading has data of exactly the values whose kind it accepts, and otherwise the two kinds do
not match.** -/
theorem decides_decode (reading : Reading) (v : Value) :
    Decides (reading.codec.decode v) (reading.Accepts v.kind) (reading.Mismatches v) := by
  cases reading with
  | value =>
      refine decides_ok ?_ ?_
      · rintro asked ⟨⟩
      · rintro e ⟨asked, ⟨⟩, -⟩
  | double =>
      have hdouble : (∃ d, v.asDouble? = some d) ↔ double.Accepts v.kind := by
        rw [exists_asDouble?_iff, accepts_iff rfl]
        simp
      exact decides_of_kind rfl hdouble
  | string => exact decides_of_ne_double rfl Kind.noConfusion (exists_asString?_iff v)
  | long => exact decides_of_ne_double rfl Kind.noConfusion (exists_asLong?_iff v)
  | boolean => exact decides_of_ne_double rfl Kind.noConfusion (exists_asBoolean?_iff v)
  | ref => exact decides_of_ne_double rfl Kind.noConfusion (exists_asRef?_iff v)
  | timestamp => exact decides_of_ne_double rfl Kind.noConfusion (exists_asTimestamp?_iff v)
  | date => exact decides_of_ne_double rfl Kind.noConfusion (exists_asDate?_iff v)
  | array =>
      have harray : (∃ items, v.asArray? = some items) ↔ v.kind = .array := by
        simp only [asArray?_eq_some_iff, kind_eq_array_iff]
      exact decides_of_ne_double rfl Kind.noConfusion harray
  | object =>
      have hobject : (∃ members, v.asObject? = some members) ↔ v.kind = .object := by
        simp only [asObject?_eq_some_iff, kind_eq_object_iff]
      exact decides_of_ne_double rfl Kind.noConfusion hobject

/-- Unless it is read as a double, a value is shown as it is. -/
theorem Accepts.shows_self {reading : Reading} {v : Value} (h : reading.Accepts v.kind)
    (hne : reading ≠ .double) : reading.Shows v v := by
  cases reading with
  | value => exact .value v
  | double => exact absurd rfl hne
  | _ => exact .ofKind (congrArg some ((accepts_iff_eq rfl Kind.noConfusion).1 h).symm)

theorem Accepts.exists_shows {reading : Reading} {v : Value} (h : reading.Accepts v.kind) :
    ∃ out, reading.Shows v out := by
  by_cases hdouble : reading = .double
  · subst hdouble
    cases v with
    | double d => exact ⟨_, .ofKind rfl⟩
    | long n => exact ⟨_, .widened (Binary64.isNearest_ofInt (Binary64.natAbs_toInt_lt n))⟩
    | _ => simp [accepts_iff, kind?, Value.kind] at h
  · exact ⟨v, h.shows_self hdouble⟩

/-- The payload of a kind is written as the value that it was read from. -/
theorem encode_ofKind {α : Type} {kind : Kind} {payload? : Value → Option α} {wrap : α → Value}
    (hpayload : ∀ v x, payload? v = some x → v = wrap x) {v : Value} {x : α}
    (h : (Codec.ofKind kind payload? wrap).decode v = .ok x) :
    (Codec.ofKind kind payload? wrap).encode x = .ok v := by
  rw [hpayload v x (expect_eq_ok_iff.1 h)]
  rfl

/-- Unless it is a double, what was read is written as the value that it was read from. -/
theorem encode_of_ne_double {reading : Reading} (hne : reading ≠ .double) {v : Value}
    {data : reading.Data} (h : reading.codec.decode v = .ok data) :
    reading.codec.encode data = .ok v := by
  cases reading with
  | value =>
      rw [Except.ok.inj h]
      rfl
  | double => exact absurd rfl hne
  | string | long | boolean | ref | timestamp | date =>
      exact encode_ofKind (fun v x hx => by cases v <;> cases hx; rfl) h
  | array => exact encode_ofKind (fun v items => (asArray?_eq_some_iff v items).1) h
  | object => exact encode_ofKind (fun v members => (asObject?_eq_some_iff v members).1) h

theorem encode_double_of_isFinite {d : Binary64} (h : d.isFinite = true) :
    Codec.double.encode d = .ok (.double d) :=
  if_pos h

/-- A finite double is written, and an integer is read as one. -/
theorem encode_double {v : Value} (hv : v.AllFinite) {d : Binary64}
    (h : Codec.double.decode v = .ok d) :
    ∃ out, Codec.double.encode d = .ok out ∧ Shows double v out := by
  refine ⟨.double d, encode_double_of_isFinite (isFinite_of_decode_double h hv), ?_⟩
  have hpayload : v.asDouble? = some d := expect_eq_ok_iff.1 h
  cases v with
  | double d' =>
      obtain rfl := Option.some.inj hpayload
      exact .ofKind rfl
  | long n =>
      obtain rfl := Option.some.inj hpayload
      exact .widened (Binary64.isNearest_ofInt (Binary64.natAbs_toInt_lt n))
  | _ => cases hpayload

/-- **What was read of a value with finite doubles is written again, as what is shown of the
value.** -/
theorem exists_encode_of_decode {reading : Reading} {v : Value} (hv : v.AllFinite)
    {data : reading.Data} (h : reading.codec.decode v = .ok data) :
    ∃ out, reading.codec.encode data = .ok out ∧ reading.Shows v out := by
  by_cases hdouble : reading = .double
  · subst hdouble
    exact encode_double hv h
  · have haccepts := (decides_decode reading v).1.1 ⟨data, h⟩
    exact ⟨v, encode_of_ne_double hdouble h, haccepts.shows_self hdouble⟩

end Reading

/-! ## Extraction -/

/-- The field that is extracted: the value at a path, as it is read. -/
def Reading.field (reading : Reading) (path : Path) : Field reading.Data :=
  (Field.atPath path).withCodec reading.codec

theorem Reading.field_get_eq_ok_iff {reading : Reading} {path : Path} {root : Value}
    {data : reading.Data} :
    (reading.field path).get root = .ok data ↔
      ∃ v, path.get root = .ok v ∧ reading.codec.decode v = .ok data := by
  constructor
  · intro h
    exact exists_of_bind_eq_ok h
  · rintro ⟨v, hv, hdata⟩
    rw [Field.get_of_path_ok (reading.field path) hv]
    exact hdata

section

variable {reading : Reading} {path : Path} {root : Value}

/-- A reading fails where its path does, or where the value there is not of the kind it asks for. -/
theorem Reading.field_get_eq_error_iff {cause : FieldError} :
    (reading.field path).get root = .error cause ↔
      path.get root = .error cause ∨ ∃ v, path.get root = .ok v ∧ reading.Mismatches v cause := by
  cases hpath : path.get root with
  | error e =>
      rw [Field.get_of_path_error (reading.field path) hpath]
      simp
  | ok v =>
      rw [Field.get_of_path_ok (reading.field path) hpath]
      refine ((reading.decides_decode v).2 cause).trans ?_
      simp

theorem extract_of_unread {e : FieldError} (h : (reading.field path).get root = .error e) :
    extract reading path none root = .error (.unread e) := by
  show ((reading.field path).get root).mapError ExtractionError.unread >>= _ = _
  rw [h]
  rfl

theorem extract_of_read {data : reading.Data} (h : (reading.field path).get root = .ok data) :
    extract reading path none root = (reading.codec.encode data).mapError .unwritten := by
  show ((reading.field path).get root).mapError ExtractionError.unread >>= _ = _
  rw [h]
  rfl

/-- What is extracted is what the data at the path is written as. -/
theorem extract_eq_ok_iff {out : Value} :
    extract reading path none root = .ok out ↔
      ∃ data, (reading.field path).get root = .ok data ∧ reading.codec.encode data = .ok out := by
  cases hget : (reading.field path).get root with
  | error e =>
      rw [extract_of_unread hget]
      simp
  | ok data =>
      rw [extract_of_read hget, mapError_eq_ok_iff]
      simp

theorem extract_eq_unread_iff {cause : FieldError} :
    extract reading path none root = .error (.unread cause) ↔
      (reading.field path).get root = .error cause := by
  cases hget : (reading.field path).get root with
  | error e =>
      rw [extract_of_unread hget]
      simp
  | ok data =>
      rw [extract_of_read hget, mapError_eq_error_iff]
      simp

theorem extract_eq_unwritten_iff {cause : EncodeError} :
    extract reading path none root = .error (.unwritten cause) ↔
      ∃ data, (reading.field path).get root = .ok data ∧
        reading.codec.encode data = .error cause := by
  cases hget : (reading.field path).get root with
  | error e =>
      rw [extract_of_unread hget]
      simp
  | ok data =>
      rw [extract_of_read hget, mapError_eq_error_iff]
      simp

end

section

variable {root : Value} (hfinite : root.AllFinite) (reading : Reading) (path : Path)

include hfinite

/-- Where all doubles are finite, what was read is written as what is shown of the value at the
path. -/
theorem exists_encode_of_get {data : reading.Data}
    (hget : (reading.field path).get root = .ok data) :
    ∃ v out, path.get root = .ok v ∧ reading.codec.encode data = .ok out ∧ reading.Shows v out := by
  obtain ⟨v, hv, hdecode⟩ := Reading.field_get_eq_ok_iff.1 hget
  have hpart := hfinite.part (Path.part_of_get hv)
  obtain ⟨out, hencode, hshows⟩ := Reading.exists_encode_of_decode hpart hdecode
  exact ⟨v, out, hv, hencode, hshows⟩

theorem extract_eq_ok_iff_shows (out : Value) :
    extract reading path none root = .ok out ↔
      ∃ v, path.get root = .ok v ∧ reading.Shows v out := by
  rw [extract_eq_ok_iff]
  constructor
  · rintro ⟨data, hget, hencode⟩
    obtain ⟨v, out', hv, hencode', hshows⟩ := exists_encode_of_get hfinite reading path hget
    obtain rfl := Except.ok.inj (hencode.symm.trans hencode')
    exact ⟨v, hv, hshows⟩
  · rintro ⟨v, hv, hshows⟩
    obtain ⟨data, hdecode⟩ := (reading.decides_decode v).1.2 hshows.accepts
    have hget := Reading.field_get_eq_ok_iff.2 ⟨v, hv, hdecode⟩
    obtain ⟨v', out', hv', hencode, hshows'⟩ := exists_encode_of_get hfinite reading path hget
    obtain rfl := Except.ok.inj (hv.symm.trans hv')
    rw [hshows.unique hshows']
    exact ⟨data, hget, hencode⟩

theorem extract_ne_unwritten (cause : EncodeError) :
    extract reading path none root ≠ .error (.unwritten cause) := by
  intro h
  obtain ⟨data, hget, hrefused⟩ := extract_eq_unwritten_iff.1 h
  obtain ⟨-, out, -, hencode, -⟩ := exists_encode_of_get hfinite reading path hget
  rw [hencode] at hrefused
  cases hrefused

end

/-- **Extraction from a document.** No double of a document is infinite or not a number. Something is
extracted exactly when the path leads to a value of a kind that the reading accepts, and it is what
the reading shows of that value. Otherwise the path leads nowhere, or the kind that was asked for
does not match. -/
theorem extract_exact {text : String} {root : Value} (h : Value.parse text = .ok root)
    (reading : Reading) (path : Path) :
    root.AllFinite ∧
    ((∃ out, extract reading path none root = .ok out) ↔
      ∃ v, path.get root = .ok v ∧ reading.Accepts v.kind) ∧
    (∀ out, extract reading path none root = .ok out ↔
      ∃ v, path.get root = .ok v ∧ reading.Shows v out) ∧
    ∀ e, extract reading path none root = .error e ↔
      ∃ cause, e = .unread cause ∧
        (path.get root = .error cause ∨
          ∃ v, path.get root = .ok v ∧ reading.Mismatches v cause) := by
  have hfinite : root.AllFinite := by
    obtain ⟨w, -, -, hroot⟩ := Value.parseWith_eq_ok_iff.1 h
    exact Value.allFinite_of_ofJson hroot
  refine ⟨hfinite, ?_, extract_eq_ok_iff_shows hfinite reading path, ?_⟩
  · constructor
    · rintro ⟨out, hout⟩
      obtain ⟨v, hv, hshows⟩ := (extract_eq_ok_iff_shows hfinite reading path out).1 hout
      exact ⟨v, hv, hshows.accepts⟩
    · rintro ⟨v, hv, haccepts⟩
      obtain ⟨out, hshows⟩ := haccepts.exists_shows
      exact ⟨out, (extract_eq_ok_iff_shows hfinite reading path out).2 ⟨v, hv, hshows⟩⟩
  · intro e
    cases e with
    | unread cause =>
        rw [extract_eq_unread_iff, Reading.field_get_eq_error_iff]
        simp
    | unwritten cause =>
        have hne := extract_ne_unwritten hfinite reading path cause
        simp [hne]

/-- An array of an integer and a string. -/
def mixedItems : Value := .array [.long 3, .string "x"]

theorem part_mixedItems {p : Value} (part : Value.Part p mixedItems) :
    (∀ d, p ≠ .double d) ∧ ∀ t, p ≠ .timestamp t := by
  rw [mixedItems] at part
  cases part with
  | whole => exact ⟨fun _ => Value.noConfusion, fun _ => Value.noConfusion⟩
  | item mem part =>
      rcases List.mem_pair.1 mem with rfl | rfl
      · cases part
        exact ⟨fun _ => Value.noConfusion, fun _ => Value.noConfusion⟩
      · cases part
        exact ⟨fun _ => Value.noConfusion, fun _ => Value.noConfusion⟩

/-- An integer of a document is shown as the double nearest to it when it is read as one. A string is
not read as a double, and there is nothing behind the string. -/
theorem extract_exact_widened :
    Value.parse mixedItems.text = .ok mixedItems ∧ mixedItems.AllFinite ∧
      (∃ out, extract .double [.index 0] none mixedItems = .ok out ∧
        Reading.Shows .double (.long 3) out) ∧
      extract .double [.index 1] none mixedItems =
        .error (.unread (.typeMismatch .double .string)) ∧
      ∃ cause, extract .value [.index 2] none mixedItems = .error (.unread cause) := by
  have hparse : Value.parse mixedItems.text = .ok mixedItems := by
    have hback : mixedItems.DoublesReadBack := fun d part => absurd rfl ((part_mixedItems part).1 d)
    have htimes : mixedItems.TimestampsReadBack := fun t part =>
      absurd rfl ((part_mixedItems part).2 t)
    have hread := Value.parseWith_text (Value.toJson_isOk_iff.1 ⟨_, rfl⟩) hback htimes
    exact (hread _).trans (if_pos (by decide))
  obtain ⟨hfinite, hsome, hshows, -⟩ := extract_exact hparse .double [.index 0]
  obtain ⟨-, -, -, hstring⟩ := extract_exact hparse .double [.index 1]
  obtain ⟨-, -, -, hbehind⟩ := extract_exact hparse .value [.index 2]
  have hlong : Path.get [.index 0] mixedItems = .ok (.long 3) := rfl
  refine ⟨hparse, hfinite, ?_, ?_, ?_⟩
  · obtain ⟨out, hout⟩ := hsome.2 ⟨_, hlong, (Reading.accepts_iff rfl).2 (.inr ⟨rfl, rfl⟩)⟩
    obtain ⟨v, hv, hshown⟩ := (hshows out).1 hout
    obtain rfl := Except.ok.inj (hlong.symm.trans hv)
    exact ⟨out, hout, hshown⟩
  · refine (hstring _).2 ⟨_, rfl, .inr ⟨_, rfl, .double, rfl, ?_, rfl⟩⟩
    rw [Reading.accepts_iff rfl]
    decide
  · exact ⟨_, (hbehind _).2 ⟨_, rfl, .inl rfl⟩⟩

end DocQuery
