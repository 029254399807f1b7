import DocQuery.Proofs.Extraction.Single

/-!
# Extraction inside each element

Extracting inside each element of an array is extracting once for each position, at the path that
leads through it (`extractEach_eq_ok_iff`). It reads all elements before it writes any: elements that
can not be read are reported together, each at its path from the root, and only when all of them were
read the first one that can not be written (`EachFails`).
-/

set_option autoImplicit false

namespace DocQuery

/-- The path through a position of the array at one path and on along another. -/
def Path.through (path each : Path) (position : Nat) : Path := path ++ [.index position] ++ each

/-- The same failure, with another path where it names the path that leads nowhere. -/
def FieldError.withPath (path : Path) : FieldError → FieldError
  | .pathNotFound _ cause => .pathNotFound path cause
  | e => e

section

variable {reading : Reading} {path each : Path} {root : Value}

/-! ## Reading elements -/

section

variable {items : List Value} (hitems : path.get root = .ok (.array items))

include hitems

/-- An element is read as the value at its path from the root is; only the path that a failure names
is that inside the element. -/
theorem get_item_eq {position : Nat} {item : Value} (hitem : items[position]? = some item) :
    (reading.field each).get item =
      ((reading.field (path.through each position)).get root).mapError (.withPath each) := by
  have hplace : (Field.atPath path).path.get root = .ok (.array items) := hitems
  have hwalk : (path.through each position).walk root = each.walk item :=
    Field.walk_elementPath hplace (reading.field each) hitem
  cases hinside : each.walk item with
  | error cause =>
      have hitem' := Path.get_eq_pathNotFound_iff.2 hinside
      have hroot := Path.get_eq_pathNotFound_iff.2 (hwalk.trans hinside)
      rw [Field.get_of_path_error (reading.field each) hitem',
        Field.get_of_path_error (reading.field (path.through each position)) hroot]
      rfl
  | ok v =>
      have hitem' := Path.get_eq_ok_iff.2 hinside
      have hroot := Path.get_eq_ok_iff.2 (hwalk.trans hinside)
      rw [Field.get_of_path_ok (reading.field each) hitem',
        Field.get_of_path_ok (reading.field (path.through each position)) hroot]
      show reading.codec.decode v = (reading.codec.decode v).mapError _
      cases hdecode : reading.codec.decode v with
      | ok data => rfl
      | error e =>
          -- the mismatch of a reading names no path
          obtain ⟨kind, -, -, rfl⟩ := ((reading.decides_decode v).2 e).1 hdecode
          rfl

end

/-- The field that is read for all elements at once. -/
def Reading.elements (reading : Reading) (path each : Path) : Field (List reading.Data) :=
  (Field.atPath path).collect (reading.field each)

/-- All elements are read together exactly when each is read at its path from the root. -/
theorem elements_get_eq_ok_iff {data : List reading.Data} :
    (reading.elements path each).get root = .ok data ↔
      ∃ items, path.get root = .ok (.array items) ∧ data.length = items.length ∧
        ∀ (position : Nat) (x : reading.Data), data[position]? = some x →
          (reading.field (path.through each position)).get root = .ok x := by
  constructor
  · intro h
    obtain ⟨v, hv, hdecode⟩ := exists_of_bind_eq_ok h
    obtain ⟨items, rfl, hread⟩ := decodeArray_eq_ok_iff.1 hdecode
    obtain ⟨hlength, hread⟩ := forall₂_iff_getElem?.1 hread
    refine ⟨items, hv, hlength, ?_⟩
    intro position x hx
    obtain ⟨item, hitem, hget⟩ := hread position x hx
    rw [get_item_eq hv hitem] at hget
    exact mapError_eq_ok_iff.1 hget
  · rintro ⟨items, hitems, hlength, hread⟩
    have hplace : (Field.atPath path).path.get root = .ok (.array items) := hitems
    apply (Field.collect_eq_ok_iff hplace (reading.field each) data).2
    apply forall₂_iff_getElem?.2
    refine ⟨hlength, ?_⟩
    intro position x hx
    have hlt : position < items.length := by
      rw [← hlength]
      exact (List.getElem?_eq_some_iff.1 hx).1
    have hitem := List.getElem?_eq_getElem hlt
    refine ⟨items[position], hitem, ?_⟩
    rw [get_item_eq hitems hitem, mapError_eq_ok_iff]
    exact hread position x hx

/-- The elements are read together when none of them fails. -/
theorem exists_elements_get {items : List Value} (hitems : path.get root = .ok (.array items))
    (h : ∀ position < items.length,
      ∃ x, (reading.field (path.through each position)).get root = .ok x) :
    ∃ data, (reading.elements path each).get root = .ok data := by
  have hplace : (Field.atPath path).path.get root = .ok (.array items) := hitems
  apply (Field.collect_isOk_iff hplace (reading.field each)).2
  intro item hmem
  obtain ⟨position, hitem⟩ := List.mem_iff_getElem?.1 hmem
  obtain ⟨x, hx⟩ := h position (List.getElem?_eq_some_iff.1 hitem).1
  refine ⟨x, ?_⟩
  rw [get_item_eq hitems hitem, hx]
  rfl

/-! ## Extracting elements -/

theorem extractEach_of_unread {cause : FieldError}
    (h : (reading.elements path each).get root = .error cause) :
    extract reading path (some each) root = .error (.unread cause) := by
  show ((reading.elements path each).get root).mapError ExtractionError.unread >>= _ = _
  rw [h]
  rfl

theorem extractEach_of_read {data : List reading.Data}
    (h : (reading.elements path each).get root = .ok data) :
    extract reading path (some each) root =
      ((encodeItems reading.codec.encode data).map Value.array).mapError .unwritten := by
  show ((reading.elements path each).get root).mapError ExtractionError.unread >>= _ = _
  rw [h]
  show (encodeItems reading.codec.encode data).mapError ExtractionError.unwritten >>= _ = _
  cases encodeItems reading.codec.encode data <;> rfl

section

variable {data : List reading.Data} (hget : (reading.elements path each).get root = .ok data)

include hget

/-- Once the elements are read, a single extraction is writing the data of one of them. -/
theorem extract_of_element {position : Nat} {x : reading.Data} (hx : data[position]? = some x) :
    extract reading (path.through each position) none root =
      (reading.codec.encode x).mapError .unwritten := by
  obtain ⟨items, -, -, hread⟩ := elements_get_eq_ok_iff.1 hget
  exact extract_of_read (hread position x hx)

theorem length_of_elements {items : List Value} (hitems : path.get root = .ok (.array items)) :
    data.length = items.length := by
  obtain ⟨items', hitems', hlength, -⟩ := elements_get_eq_ok_iff.1 hget
  obtain rfl := Value.array.inj (Except.ok.inj (hitems.symm.trans hitems'))
  exact hlength

end

/-- **Something is extracted inside each element exactly when it is extracted at each path through
the array**, and it is the array of what is extracted there. -/
theorem extractEach_eq_ok_iff {out : Value} :
    extract reading path (some each) root = .ok out ↔
      ∃ items vs, path.get root = .ok (.array items) ∧ out = .array vs ∧
        vs.length = items.length ∧
        ∀ (position : Nat) (v : Value), vs[position]? = some v →
          extract reading (path.through each position) none root = .ok v := by
  constructor
  · intro h
    cases hget : (reading.elements path each).get root with
    | error cause =>
        rw [extractEach_of_unread hget] at h
        cases h
    | ok data =>
        rw [extractEach_of_read hget, mapError_eq_ok_iff] at h
        obtain ⟨vs, hvs, rfl⟩ := exists_of_map_eq_ok h
        obtain ⟨items, hitems, hlength, -⟩ := elements_get_eq_ok_iff.1 hget
        obtain ⟨hwritten, hencode⟩ := forall₂_iff_getElem?.1 (encodeItems_eq_ok_iff.1 hvs)
        refine ⟨items, vs, hitems, rfl, hwritten.trans hlength, ?_⟩
        intro position v hv
        obtain ⟨x, hx, hencode⟩ := hencode position v hv
        rw [extract_of_element hget hx, mapError_eq_ok_iff]
        exact hencode
  · rintro ⟨items, vs, hitems, rfl, hlength, hsingle⟩
    -- each of the single extractions has read its element, so all of them are read together
    have hread : ∀ position < items.length,
        ∃ x, (reading.field (path.through each position)).get root = .ok x := by
      intro position hlt
      rw [← hlength] at hlt
      obtain ⟨x, hx, -⟩ := extract_eq_ok_iff.1 (hsingle position _ (List.getElem?_eq_getElem hlt))
      exact ⟨x, hx⟩
    obtain ⟨data, hget⟩ := exists_elements_get hitems hread
    have hlength' := length_of_elements hget hitems
    have hwritten : encodeItems reading.codec.encode data = .ok vs := by
      apply encodeItems_eq_ok_iff.2
      apply forall₂_iff_getElem?.2
      refine ⟨hlength.trans hlength'.symm, ?_⟩
      intro position v hv
      have hlt : position < data.length := by
        rw [hlength', ← hlength]
        exact (List.getElem?_eq_some_iff.1 hv).1
      have hx := List.getElem?_eq_getElem hlt
      have hencode := hsingle position v hv
      rw [extract_of_element hget hx, mapError_eq_ok_iff] at hencode
      exact ⟨_, hx, hencode⟩
    rw [extractEach_of_read hget, hwritten]
    rfl

/-! ## Failing elements -/

/-- The list holds exactly the positions, ascending, where a single extraction can not read its data,
each with the failure of the element there. -/
structure FailingPositions (reading : Reading) (path each : Path) (root : Value) (count : Nat)
    (failed : List (Nat × FieldError)) : Prop where
  ascending : failed.Pairwise fun a b => a.1 < b.1
  mem_iff : ∀ position e, (position, e) ∈ failed ↔
    position < count ∧ ∃ cause,
      extract reading (path.through each position) none root = .error (.unread cause) ∧
        e = cause.withPath each

/-- How extraction inside each element fails. -/
inductive EachFails (reading : Reading) (path each : Path) (root : Value) :
    ExtractionError → Prop where
  /-- The path to the array leads nowhere. -/
  | unreached {cause : FieldError} (failed : path.get root = .error cause) :
      EachFails reading path each root (.unread cause)
  /-- The path leads to something else than an array. -/
  | noArray {v : Value} (reached : path.get root = .ok v) (kind : v.kind ≠ .array) :
      EachFails reading path each root (.unread (.typeMismatch .array v.kind))
  /-- Elements can not be read: they are named, each by its path from the root. -/
  | elements {items : List Value} {failed : List (Nat × FieldError)}
      (reached : path.get root = .ok (.array items))
      (failing : FailingPositions reading path each root items.length failed) (ne : failed ≠ []) :
      EachFails reading path each root
        (.unread (.collect (failed.map fun failure => (path.through each failure.1, failure.2))))
  /-- All elements can be read, and this is the first one that can not be written. -/
  | unwritten {items : List Value} {position : Nat} {cause : EncodeError}
      (reached : path.get root = .ok (.array items))
      (read : ∀ other < items.length, ∀ e,
        extract reading (path.through each other) none root ≠ .error (.unread e))
      (before : ∀ other < position,
        ∃ v, extract reading (path.through each other) none root = .ok v)
      (inside : position < items.length)
      (refused : extract reading (path.through each position) none root =
        .error (.unwritten cause)) :
      EachFails reading path each root (.unwritten cause)

theorem failingPositions_iff {items : List Value} (hitems : path.get root = .ok (.array items))
    {failed : List (Nat × FieldError)} :
    FailingPositions reading path each root items.length failed ↔
      FailingItems (reading.field each).get items failed := by
  -- an element fails as the single extraction does
  have hmem (position : Nat) (e : FieldError) :
      (position < items.length ∧ ∃ cause,
        extract reading (path.through each position) none root = .error (.unread cause) ∧
          e = cause.withPath each) ↔
        ∃ item, items[position]? = some item ∧ (reading.field each).get item = .error e := by
    constructor
    · rintro ⟨hlt, cause, hcause, rfl⟩
      have hitem := List.getElem?_eq_getElem hlt
      refine ⟨items[position], hitem, ?_⟩
      rw [get_item_eq hitems hitem, extract_eq_unread_iff.1 hcause]
      rfl
    · rintro ⟨item, hitem, he⟩
      rw [get_item_eq hitems hitem] at he
      obtain ⟨cause, hcause, rfl⟩ := mapError_eq_error_iff.1 he
      exact ⟨(List.getElem?_eq_some_iff.1 hitem).1, cause, extract_eq_unread_iff.2 hcause, rfl⟩
  constructor
  · intro h
    exact ⟨h.ascending, fun position e => (h.mem_iff position e).trans (hmem position e)⟩
  · intro h
    exact ⟨h.ascending, fun position e => (h.mem_iff position e).trans (hmem position e).symm⟩

/-- The elements are not read together where there is no array, or where one of them fails. -/
theorem eachFails_unread_iff {cause : FieldError} :
    EachFails reading path each root (.unread cause) ↔
      (reading.elements path each).get root = .error cause := by
  constructor
  · intro h
    cases h with
    | unreached failed => exact Field.get_of_path_error (reading.elements path each) failed
    | noArray reached kind => exact Field.collect_of_kind_ne (reading.field each) reached kind
    | elements reached failing ne =>
        apply (Field.collect_eq_error_iff reached (reading.field each) _).2
        exact ⟨_, (failingPositions_iff reached).1 failing, ne, rfl⟩
  · intro h
    cases hpath : path.get root with
    | error e =>
        rw [Field.get_of_path_error (reading.elements path each) hpath] at h
        obtain rfl := Except.error.inj h
        exact .unreached hpath
    | ok v =>
        by_cases hkind : v.kind = .array
        · obtain ⟨items, rfl⟩ := (kind_eq_array_iff v).1 hkind
          obtain ⟨failed, hfailed, hne, rfl⟩ :=
            (Field.collect_eq_error_iff hpath (reading.field each) cause).1 h
          exact .elements hpath ((failingPositions_iff hpath).2 hfailed) hne
        · have hmismatch : (reading.elements path each).get root =
              .error (.typeMismatch .array v.kind) :=
            Field.collect_of_kind_ne (reading.field each) hpath hkind
          obtain rfl := Except.error.inj (hmismatch.symm.trans h)
          exact .noArray hpath hkind

/-- When all elements are read, the first one that can not be written is refused. -/
theorem eachFails_unwritten_iff {cause : EncodeError} :
    EachFails reading path each root (.unwritten cause) ↔
      ∃ data, (reading.elements path each).get root = .ok data ∧
        encodeItems reading.codec.encode data = .error cause := by
  constructor
  · intro h
    cases h with
    | @unwritten items position _ reached read before inside refused =>
        -- what is not left unread is read
        have hread : ∀ other < items.length,
            ∃ x, (reading.field (path.through each other)).get root = .ok x := by
          intro other hother
          cases hget : (reading.field (path.through each other)).get root with
          | ok x => exact ⟨x, rfl⟩
          | error e => exact absurd (extract_of_unread hget) (read other hother e)
        obtain ⟨data, hget⟩ := exists_elements_get reached hread
        rw [← length_of_elements hget reached] at inside
        have hx := List.getElem?_eq_getElem inside
        refine ⟨data, hget, encodeItems_eq_error_iff.2 ⟨position, _, hx, ?_, ?_⟩⟩
        · rw [extract_of_element hget hx] at refused
          obtain ⟨cause', hrefused, ⟨⟩⟩ := mapError_eq_error_iff.1 refused
          exact hrefused
        · intro other hother y hy
          obtain ⟨v, hv⟩ := before other hother
          rw [extract_of_element hget hy, mapError_eq_ok_iff] at hv
          exact ⟨v, hv⟩
  · rintro ⟨data, hget, hencode⟩
    obtain ⟨items, hitems, hlength, -⟩ := elements_get_eq_ok_iff.1 hget
    obtain ⟨position, x, hx, hrefused, hbefore⟩ := encodeItems_eq_error_iff.1 hencode
    have hinside := (List.getElem?_eq_some_iff.1 hx).1
    refine .unwritten hitems ?_ ?_ (hlength ▸ hinside) ?_
    · intro other hother e he
      rw [← hlength] at hother
      rw [extract_of_element hget (List.getElem?_eq_getElem hother)] at he
      obtain ⟨_, -, ⟨⟩⟩ := mapError_eq_error_iff.1 he
    · intro other hother
      have hy := List.getElem?_eq_getElem (hother.trans hinside)
      obtain ⟨v, hv⟩ := hbefore other hother _ hy
      exact ⟨v, by rw [extract_of_element hget hy, hv]; rfl⟩
    · rw [extract_of_element hget hx, hrefused]
      rfl

/-- **Extraction inside each element fails exactly in these ways.** -/
theorem extractEach_eq_error_iff {e : ExtractionError} :
    extract reading path (some each) root = .error e ↔ EachFails reading path each root e := by
  cases hget : (reading.elements path each).get root with
  | error cause =>
      rw [extractEach_of_unread hget]
      cases e with
      | unread cause' => rw [eachFails_unread_iff, hget]; simp
      | unwritten cause' => rw [eachFails_unwritten_iff, hget]; simp
  | ok data =>
      rw [extractEach_of_read hget, mapError_eq_error_iff]
      cases e with
      | unread cause => rw [eachFails_unread_iff, hget]; simp
      | unwritten cause =>
          rw [eachFails_unwritten_iff, hget]
          simp [map_eq_error_iff]

/-- **Extraction inside each element is single extraction at each path through the array.** It gives
an array exactly when the first path leads to an array and there is something to extract at each path
through it, and these are the items. In all other cases it fails, and when elements can not be read,
exactly their paths are named. A single extraction can not read its data exactly when its path leads
nowhere or to a value of a kind that the reading does not accept. -/
theorem extractEach_exact (reading : Reading) (path each : Path) (root : Value) :
    (∀ out, extract reading path (some each) root = .ok out ↔
      ∃ items vs, path.get root = .ok (.array items) ∧ out = .array vs ∧
        vs.length = items.length ∧
        ∀ (position : Nat) (v : Value), vs[position]? = some v →
          extract reading (path.through each position) none root = .ok v) ∧
    (∀ e, extract reading path (some each) root = .error e ↔
      EachFails reading path each root e) ∧
    ∀ (place : Path) (cause : FieldError),
      extract reading place none root = .error (.unread cause) ↔
        place.get root = .error cause ∨
          ∃ v, place.get root = .ok v ∧ reading.Mismatches v cause := by
  refine ⟨?_, ?_, ?_⟩
  · intro out
    exact extractEach_eq_ok_iff
  · intro e
    exact extractEach_eq_error_iff
  · intro place cause
    rw [extract_eq_unread_iff]
    exact Reading.field_get_eq_error_iff

/-- Objects with a member, under a key. -/
def numbered (members : List Value) : Value :=
  .ofMembers [("data", .array (members.map fun v => .ofMembers [("n", v)]))]

/-- Two integers are widened as each is on its own. With a string between them exactly the path of the
string is named, and the integer in front of it is still read on its own. An infinity behind an
integer is read and not written. -/
theorem extractEach_exact_numbered :
    let infinity := Binary64.ofMagnitude false Binary64.infinityMagnitude
    let mixed := numbered [.long 1, .string "x", .long 2]
    extract .double [.key "data"] (some [.key "n"]) (numbered [.long 1, .long 2]) =
        .ok (.array [.double (Binary64.ofInt 1), .double (Binary64.ofInt 2)]) ∧
      EachFails .double [.key "data"] [.key "n"] mixed
        (.unread (.collect [([.key "data", .index 1, .key "n"], .typeMismatch .double .string)])) ∧
      (∀ cause, extract .double [.key "data", .index 0, .key "n"] none mixed ≠
        .error (.unread cause)) ∧
      extract .double [.key "data"] (some [.key "n"]) (numbered [.long 1, .double infinity]) =
        .error (.unwritten (.nonFinite infinity)) := by
  intro infinity mixed
  -- an integer is extracted as the double nearest to it, at whatever path it stands
  have hinteger {root : Value} {place : Path} {n : Int} (hn : n.natAbs < UInt64.size)
      (hget : (Reading.double.field place).get root = .ok (Binary64.ofInt n)) :
      extract .double place none root = .ok (.double (Binary64.ofInt n)) :=
    extract_eq_ok_iff.2
      ⟨_, hget, Reading.encode_double_of_isFinite (Binary64.isFinite_ofInt hn)⟩
  obtain ⟨hwidened, -, -⟩ :=
    extractEach_exact .double [.key "data"] [.key "n"] (numbered [.long 1, .long 2])
  obtain ⟨-, hmixed, -⟩ := extractEach_exact .double [.key "data"] [.key "n"] mixed
  obtain ⟨-, hinfinity, -⟩ :=
    extractEach_exact .double [.key "data"] [.key "n"] (numbered [.long 1, .double infinity])
  refine ⟨?_, (hmixed _).1 rfl, ?_, ?_⟩
  · refine (hwidened _).2 ⟨_, [.double (Binary64.ofInt 1), .double (Binary64.ofInt 2)], rfl, rfl,
      rfl, ?_⟩
    intro position v hv
    match position with
    | 0 =>
        obtain rfl := Option.some.inj hv
        exact hinteger (by decide) rfl
    | 1 =>
        obtain rfl := Option.some.inj hv
        exact hinteger (by decide) rfl
    | _ + 2 => cases hv
  · have hfirst : extract .double [.key "data", .index 0, .key "n"] none mixed =
        .ok (.double (Binary64.ofInt 1)) := hinteger (by decide) rfl
    intro cause hcause
    cases hfirst.symm.trans hcause
  · have hfirst : extract .double (Path.through [.key "data"] [.key "n"] 0) none
        (numbered [.long 1, .double infinity]) = .ok (.double (Binary64.ofInt 1)) :=
      hinteger (by decide) rfl
    have hrefused : extract .double (Path.through [.key "data"] [.key "n"] 1) none
        (numbered [.long 1, .double infinity]) = .error (.unwritten (.nonFinite infinity)) :=
      extract_eq_unwritten_iff.2 ⟨infinity, rfl, if_neg (by decide)⟩
    refine (hinfinity _).2 (@EachFails.unwritten _ _ _ _ _ 1 _ rfl ?_ ?_ Nat.one_lt_two hrefused)
    · intro other hother e he
      match other with
      | 0 => cases hfirst.symm.trans he
      | 1 => cases hrefused.symm.trans he
      | n + 2 => exact absurd hother (by simp)
    · intro other hother
      obtain rfl := Nat.lt_one_iff.1 hother
      exact ⟨_, hfirst⟩

end

end DocQuery
