import DocQuery.Field
import DocQuery.Proofs.Path.Walking
import DocQuery.Proofs.Shape.Matching
import Mathlib.Data.List.Sort

/-!
# Collecting the elements of an array

A field that collects reads every element of the array at its path through another field. It has the
list of their data when every element has data, and otherwise one failure that names exactly the
elements that fail, in the order of their positions (`Field.collect_exact`). The path of such an
element is the one that leads from the root to where the element fails.

The paths are those of the array as it was when the collection was made. Walking on to a collection
from another field does not put that field's path in front of them, and that is the only difference
to collecting behind both fields (`Field.get_collect_andThen`).
-/

set_option autoImplicit false

namespace DocQuery

/-! ## Failing items -/

/-- The list holds exactly the positions of the items that fail, ascending, each with its failure. -/
structure FailingItems {α : Type} (decode : Value → Except FieldError α) (items : List Value)
    (failed : List (Nat × FieldError)) : Prop where
  ascending : failed.Pairwise fun a b => a.1 < b.1
  mem_iff : ∀ position e, (position, e) ∈ failed ↔
    ∃ item, items[position]? = some item ∧ decode item = .error e

theorem FailingItems.unique {α : Type} {decode : Value → Except FieldError α} {items : List Value}
    {a b : List (Nat × FieldError)} (ha : FailingItems decode items a)
    (hb : FailingItems decode items b) : a = b := by
  have : Std.Irrefl fun x y : Nat × FieldError => x.1 < y.1 := ⟨fun x => Nat.lt_irrefl x.1⟩
  have : Std.Antisymm fun x y : Nat × FieldError => x.1 < y.1 :=
    ⟨fun x y hxy hyx => absurd hxy (Nat.lt_asymm hyx)⟩
  refine ha.ascending.eq_of_mem_iff hb.ascending ?_
  rintro ⟨position, e⟩
  rw [ha.mem_iff, hb.mem_iff]

/-- A list of failing items is empty when no item fails. -/
theorem FailingItems.eq_nil_iff {α : Type} {decode : Value → Except FieldError α}
    {items : List Value} {failed : List (Nat × FieldError)} (h : FailingItems decode items failed) :
    failed = [] ↔ ∀ item ∈ items, ∃ x, decode item = .ok x := by
  rw [List.eq_nil_iff_forall_not_mem]
  constructor
  · intro hnone item hmem
    obtain ⟨position, hposition⟩ := List.mem_iff_getElem?.1 hmem
    cases hitem : decode item with
    | ok x => exact ⟨x, rfl⟩
    | error e => exact absurd ((h.mem_iff position e).2 ⟨item, hposition, hitem⟩) (hnone _)
  · rintro hok ⟨position, e⟩ hmem
    obtain ⟨item, hposition, hitem⟩ := (h.mem_iff position e).1 hmem
    obtain ⟨x, hx⟩ := hok item (List.mem_iff_getElem?.2 ⟨position, hposition⟩)
    rw [hitem] at hx
    cases hx

/-- Other labels label the failures otherwise, and change nothing else. -/
theorem failuresOf_map_label {label label' ε : Type} (relabel : label → label')
    (outcomes : List (label × Option ε)) :
    failuresOf (outcomes.map fun outcome => (relabel outcome.1, outcome.2)) =
      (failuresOf outcomes).map fun failure => (relabel failure.1, failure.2) := by
  induction outcomes with
  | nil => rfl
  | cons outcome outcomes ih =>
      rcases outcome with ⟨l, _ | e⟩
      · exact ih
      · exact congrArg (List.cons (relabel l, e)) ih

section

variable {α : Type} (decode : Value → Except FieldError α) (items : List Value)

/-- The outcomes of items, each under its position. -/
def positionOutcomes : List (Nat × Option FieldError) :=
  items.zipIdx.map fun x => (x.2, failure? (decode x.1))

theorem map_fst_positionOutcomes :
    (positionOutcomes decode items).map Prod.fst = List.range items.length := by
  rw [positionOutcomes, List.map_map, List.range_eq_range', ← List.zipIdx_map_snd]
  rfl

theorem itemOutcomes_eq (label : Nat → Path) :
    itemOutcomes label decode 0 items =
      (positionOutcomes decode items).map fun outcome => (label outcome.1, outcome.2) := by
  rw [itemOutcomes, positionOutcomes, List.map_map]
  rfl

/-- The failures under their positions are the failing items. -/
theorem failingItems_failuresOf :
    FailingItems decode items (failuresOf (positionOutcomes decode items)) := by
  constructor
  · -- the positions are some of those of all items, which ascend
    have hsublist := failuresOf_sublist (positionOutcomes decode items)
    rw [map_fst_positionOutcomes] at hsublist
    exact List.pairwise_map.1 (List.pairwise_lt_range.sublist hsublist)
  · intro position e
    rw [mem_failuresOf_iff, positionOutcomes, List.mem_map]
    constructor
    · rintro ⟨⟨item, position'⟩, hmem, heq⟩
      obtain ⟨rfl, hitem⟩ := Prod.mk.inj heq
      exact ⟨item, List.mem_zipIdx_iff_getElem?.1 hmem, failure?_eq_some_iff.1 hitem⟩
    · rintro ⟨item, hposition, hitem⟩
      refine ⟨(item, position), List.mem_zipIdx_iff_getElem?.2 hposition, ?_⟩
      rw [failure?_eq_some_iff.2 hitem]

end

/-- Decoding items fails exactly with the failing items, each under the label of its position. -/
theorem decodeItems_eq_error_iff {α : Type} {label : Nat → Path}
    {decode : Value → Except FieldError α} {items : List Value}
    {failures : List (Path × FieldError)} :
    decodeItems label decode 0 items = .error failures ↔
      ∃ failed, FailingItems decode items failed ∧ failed ≠ [] ∧
        failures = failed.map fun failure => (label failure.1, failure.2) := by
  have hspec := failingItems_failuresOf decode items
  rw [(collects_decodeItems label decode 0 items).eq_error_iff, itemOutcomes_eq,
    failuresOf_map_label]
  constructor
  · rintro ⟨rfl, hne⟩
    exact ⟨_, hspec, fun hnil => hne (by rw [hnil]; rfl), rfl⟩
  · rintro ⟨failed, hfailed, hne, rfl⟩
    rw [hspec.unique hfailed]
    exact ⟨rfl, fun hnil => hne (List.map_eq_nil_iff.1 hnil)⟩

/-- What is no array is not decoded item by item. -/
theorem decodeArray_of_kind_ne {α : Type} (label : Nat → Path)
    (decode : Value → Except FieldError α) {v : Value} (hkind : v.kind ≠ .array) :
    decodeArray label decode v = .error (.typeMismatch .array v.kind) := by
  have hnone : v.asArray? = none := by
    refine Option.eq_none_iff_forall_ne_some.2 fun items hitems => hkind ?_
    exact (kind_eq_array_iff v).2 ⟨items, (asArray?_eq_some_iff v items).1 hitems⟩
  have hexpect : Codec.array.decode v = .error (.typeMismatch .array v.kind) := by
    show Codec.expect .array Value.asArray? v = _
    rw [Codec.expect, hnone]
  rw [decodeArray, hexpect]
  rfl

/-! ## Reading a field -/

namespace Field

variable {α β γ : Type}

theorem get_of_path_error (field : Field α) {root : Value} {e : FieldError}
    (h : field.path.get root = .error e) : field.get root = .error e := by
  rw [get, h]
  rfl

theorem get_of_path_ok (field : Field α) {root v : Value} (h : field.path.get root = .ok v) :
    field.get root = field.codec.decode v := by
  rw [get, h]
  rfl

/-- A field fails when its path does, or else as its codec does on what the path leads to. -/
theorem get_eq_error_iff {field : Field α} {root : Value} {e : FieldError} :
    field.get root = .error e ↔
      (∃ cause, field.path.walk root = .error cause ∧ e = .pathNotFound field.path cause) ∨
        ∃ v, field.path.walk root = .ok v ∧ field.codec.decode v = .error e := by
  cases hwalk : field.path.walk root with
  | error cause =>
      have hpath := Path.get_eq_error_iff.2 ⟨cause, hwalk, rfl⟩
      rw [get_of_path_error field hpath]
      simp [eq_comm]
  | ok v =>
      rw [get_of_path_ok field (Path.get_eq_ok_iff.2 hwalk)]
      simp

/-! ## Collecting -/

/-- The path of what an element is read from: through the array, the position of the element and the
path inside it. -/
def elementPath (field : Field α) (element : Field β) (position : Nat) : Path :=
  field.path ++ [.index position] ++ element.path

/-- Where there is no array, there is nothing to collect. -/
theorem collect_of_kind_ne {field : Field α} (element : Field β) {root v : Value}
    (h : field.path.get root = .ok v) (hkind : v.kind ≠ .array) :
    (field.collect element).get root = .error (.typeMismatch .array v.kind) := by
  rw [get_of_path_ok (field.collect element) h]
  exact decodeArray_of_kind_ne _ element.get hkind

section

variable {field : Field α} {root : Value} {items : List Value}
  (hitems : field.path.get root = .ok (.array items))

include hitems

theorem collect_eq_decodeItems (element : Field β) :
    (field.collect element).get root =
      (decodeItems (field.elementPath element) element.get 0 items).mapError .collect := by
  rw [get_of_path_ok (field.collect element) hitems]
  rfl

/-- The data of an array are those of its elements, in order. -/
theorem collect_eq_ok_iff (element : Field β) (data : List β) :
    (field.collect element).get root = .ok data ↔
      List.Forall₂ (fun item x => element.get item = .ok x) items data := by
  rw [collect_eq_decodeItems hitems, mapError_eq_ok_iff, decodeItems_eq_ok_iff]

/-- The failure of an array names exactly the failing positions, each by its path from the root. -/
theorem collect_eq_error_iff (element : Field β) (e : FieldError) :
    (field.collect element).get root = .error e ↔
      ∃ failed, FailingItems element.get items failed ∧ failed ≠ [] ∧
        e = .collect (failed.map fun failure =>
          (field.elementPath element failure.1, failure.2)) := by
  rw [collect_eq_decodeItems hitems, mapError_eq_error_iff]
  constructor
  · rintro ⟨failures, hfailures, rfl⟩
    obtain ⟨failed, hfailed, hne, rfl⟩ := decodeItems_eq_error_iff.1 hfailures
    exact ⟨failed, hfailed, hne, rfl⟩
  · rintro ⟨failed, hfailed, hne, rfl⟩
    exact ⟨_, decodeItems_eq_error_iff.2 ⟨failed, hfailed, hne, rfl⟩, rfl⟩

theorem collect_isOk_iff (element : Field β) :
    (∃ data, (field.collect element).get root = .ok data) ↔
      ∀ item ∈ items, ∃ x, element.get item = .ok x := by
  have hspec := failingItems_failuresOf element.get items
  rw [← hspec.eq_nil_iff]
  cases hresult : (field.collect element).get root with
  | ok data =>
      refine iff_of_true ⟨data, rfl⟩ ?_
      by_contra hne
      have herror := (collect_eq_error_iff hitems element _).2 ⟨_, hspec, hne, rfl⟩
      rw [hresult] at herror
      cases herror
  | error e =>
      obtain ⟨failed, hfailed, hne, -⟩ := (collect_eq_error_iff hitems element e).1 hresult
      refine iff_of_false ?_ fun hnil => hne ((hfailed.unique hspec).trans hnil)
      rintro ⟨data, ⟨⟩⟩

/-- Walking to an element and on is walking on inside the element. -/
theorem walk_elementPath (element : Field β) {position : Nat} {item : Value}
    (hitem : items[position]? = some item) :
    (field.elementPath element position).walk root = element.path.walk item := by
  have hstep : Path.walk [.index position] (.array items) = .ok item := by
    rw [Path.walk_singleton, step_index_eq_ok_iff]
    exact ⟨items, rfl, hitem⟩
  rw [elementPath, List.append_assoc, Path.walk_append_of_get hitems, Path.walk_append, hstep]
  rfl

/-- The failure of an element is that of a walk from the root, or that of the codec on what the walk
leads to. -/
theorem failure_of_element {element : Field β} {position : Nat} {item : Value}
    (hitem : items[position]? = some item) {e : FieldError} (he : element.get item = .error e) :
    let place := field.elementPath element position
    (∃ cause, place.get root = .error (.pathNotFound place cause) ∧
        e = .pathNotFound element.path cause) ∨
      ∃ v, place.get root = .ok v ∧ element.codec.decode v = .error e := by
  intro place
  have hwalk : place.walk root = element.path.walk item := walk_elementPath hitems element hitem
  rcases get_eq_error_iff.1 he with ⟨cause, hcause, rfl⟩ | ⟨v, hv, hdecode⟩
  · exact .inl ⟨cause, Path.get_eq_pathNotFound_iff.2 (hwalk.trans hcause), rfl⟩
  · exact .inr ⟨v, Path.get_eq_ok_iff.2 (hwalk.trans hv), hdecode⟩

end

/-- **Collecting is exact.** A collecting field fails as its path does, and with a mismatch where
there is no array. On an array it has the list of the data of all elements exactly when each of them
has data; otherwise it names exactly the failing positions, ascending, with the failures of their
elements, and the path of each is the one that leads from the root to where the element fails. -/
theorem collect_exact (field : Field α) (element : Field β) (root : Value) :
    (∀ e, field.path.get root = .error e → (field.collect element).get root = .error e) ∧
    (∀ v, field.path.get root = .ok v → v.kind ≠ .array →
      (field.collect element).get root = .error (.typeMismatch .array v.kind)) ∧
    ∀ items, field.path.get root = .ok (.array items) →
      ((∃ data, (field.collect element).get root = .ok data) ↔
        ∀ item ∈ items, ∃ x, element.get item = .ok x) ∧
      (∀ data, (field.collect element).get root = .ok data ↔
        List.Forall₂ (fun item x => element.get item = .ok x) items data) ∧
      (∀ e, (field.collect element).get root = .error e ↔
        ∃ failed, FailingItems element.get items failed ∧ failed ≠ [] ∧
          e = .collect (failed.map fun failure =>
            (field.elementPath element failure.1, failure.2))) ∧
      ∀ position item e, items[position]? = some item → element.get item = .error e →
        let place := field.elementPath element position
        (∃ cause, place.get root = .error (.pathNotFound place cause) ∧
            e = .pathNotFound element.path cause) ∨
          ∃ v, place.get root = .ok v ∧ element.codec.decode v = .error e := by
  refine ⟨fun e => get_of_path_error (field.collect element),
    fun v => collect_of_kind_ne element, ?_⟩
  intro items hitems
  refine ⟨collect_isOk_iff hitems element, collect_eq_ok_iff hitems element,
    collect_eq_error_iff hitems element, ?_⟩
  intro position item e hitem he
  exact failure_of_element hitems hitem he

/-- Of three elements, the second lacks its member and the third holds a string there; an object is no
array, and a key that is missing ends the walk to the array. -/
theorem collect_exact_numbers :
    let items := [Value.ofMembers [("n", .long 1)], Value.ofMembers [("m", .long 2)],
      Value.ofMembers [("n", .string "x")]]
    let root := Value.ofMembers [("items", .array items)]
    let field := Field.keys ["items"]
    let element := (Field.keys ["n"]).withCodec Codec.long
    let place := field.elementPath element 2
    (∃ failed, FailingItems element.get items failed ∧ failed ≠ [] ∧
      FieldError.collect
          [([.key "items", .index 1, .key "n"], .pathNotFound [.key "n"] (.keyNotFound "n")),
            ([.key "items", .index 2, .key "n"], .typeMismatch .long .string)] =
        .collect (failed.map fun failure =>
          (field.elementPath element failure.1, failure.2))) ∧
      ((∃ cause, place.get root = .error (.pathNotFound place cause) ∧
          FieldError.typeMismatch .long .string = .pathNotFound element.path cause) ∨
        ∃ v, place.get root = .ok v ∧
          element.codec.decode v = .error (.typeMismatch .long .string)) ∧
      (Field.root.collect element).get root = .error (.typeMismatch .array .object) ∧
      ((Field.keys ["data"]).collect element).get root =
        .error (.pathNotFound [.key "data"] (.keyNotFound "data")) := by
  intro items root field element place
  obtain ⟨-, -, harray⟩ := collect_exact field element root
  obtain ⟨-, -, herror, hplace⟩ := harray items rfl
  refine ⟨(herror _).1 rfl, hplace 2 _ _ rfl rfl, ?_, ?_⟩
  · exact (collect_exact Field.root element root).2.1 root rfl Kind.noConfusion
  · exact (collect_exact (Field.keys ["data"]) element root).1 _ rfl

end Field

/-! ## Walking on to a collection -/

/-- The failures of elements, with a path put in front of the path of each. Any other failure stays
as it is. -/
def FieldError.under (place : Path) : FieldError → FieldError
  | .collect failures => .collect (failures.map fun failure => (place ++ failure.1, failure.2))
  | e => e

theorem FieldError.under_nil (e : FieldError) : e.under [] = e := by
  cases e with
  | collect failures =>
      rw [under]
      exact congrArg FieldError.collect (List.map_id' failures)
  | _ => rfl

theorem FieldError.under_of_ne_collect (place : Path) {e : FieldError}
    (h : ∀ failures, e ≠ .collect failures) : e.under place = e := by
  cases e with
  | collect failures => exact absurd rfl (h failures)
  | _ => rfl

/-- A path in front of all labels comes in front of the paths of all failures. -/
theorem decodeItems_append_label {α : Type} (place : Path) (label : Nat → Path)
    (decode : Value → Except FieldError α) (position : Nat) (items : List Value) :
    decodeItems (fun n => place ++ label n) decode position items =
      (decodeItems label decode position items).mapError
        (List.map fun failure => (place ++ failure.1, failure.2)) := by
  induction items generalizing position with
  | nil => rfl
  | cons item items ih =>
      rw [decodeItems, decodeItems, ih]
      cases decode item <;> cases decodeItems label decode (position + 1) items <;> rfl

theorem Codec.collection_append {α : Type} (place path : Path) (element : Field α) (v : Value) :
    (Codec.collection (place ++ path) element).decode v =
      ((Codec.collection path element).decode v).mapError (.under place) := by
  have hlabel : (fun position => place ++ path ++ [.index position] ++ element.path) =
      fun position => place ++ (path ++ [.index position] ++ element.path) := by
    funext position
    simp only [List.append_assoc]
  show decodeArray _ element.get v = (decodeArray _ element.get v).mapError _
  rw [hlabel, decodeArray, decodeArray]
  cases hitems : Codec.array.decode v with
  | error e =>
      -- what is no array is a mismatch
      have he : ∀ failures, e ≠ .collect failures := by
        rintro failures rfl
        cases v <;> cases hitems
      exact congrArg Except.error (FieldError.under_of_ne_collect place he).symm
  | ok items =>
      show (decodeItems _ element.get 0 items).mapError _ = _
      rw [decodeItems_append_label]
      show _ = ((decodeItems _ element.get 0 items).mapError _).mapError _
      cases decodeItems _ element.get 0 items <;> rfl

/-- A failure that names elements names at least one. -/
theorem Codec.collection_failures_ne_nil {α : Type} {place : Path} {element : Field α} {v : Value}
    {failures : List (Path × FieldError)}
    (h : (Codec.collection place element).decode v = .error (.collect failures)) :
    failures ≠ [] := by
  cases v with
  | array items =>
      obtain ⟨failures', hfailures, heq⟩ := mapError_eq_error_iff.1 h
      rw [FieldError.collect.inj heq]
      exact ((collects_decodeItems _ element.get 0 items).eq_error_iff.1 hfailures).2
  | _ => cases h

namespace Field

variable {α β γ : Type}

theorem get_collect_andThen (field : Field α) (other : Field β) (element : Field γ) (root : Value) :
    ((field.andThen other).collect element).get root =
      ((field.andThen (other.collect element)).get root).mapError (.under field.path) := by
  cases hpath : (field.path ++ other.path).get root with
  | error e =>
      obtain ⟨cause, -, rfl⟩ := Path.get_eq_error_iff.1 hpath
      rw [get_of_path_error ((field.andThen other).collect element) hpath,
        get_of_path_error (field.andThen (other.collect element)) hpath]
      rfl
  | ok v =>
      rw [get_of_path_ok ((field.andThen other).collect element) hpath,
        get_of_path_ok (field.andThen (other.collect element)) hpath]
      exact Codec.collection_append field.path other.path element v

theorem collect_failures_ne_nil {field : Field α} {other : Field β} {element : Field γ}
    {root : Value} {failures : List (Path × FieldError)}
    (h : (field.andThen (other.collect element)).get root = .error (.collect failures)) :
    failures ≠ [] := by
  rcases get_eq_error_iff.1 h with ⟨cause, -, hcause⟩ | ⟨v, -, hv⟩
  · cases hcause
  · exact Codec.collection_failures_ne_nil hv

/-- **A collection keeps the path that it was made with.** Walking on to it from another field is
collecting behind both fields, except that the failures of elements lack the path of the first one.
So the two are the same exactly when that path is empty or no element fails. -/
theorem andThen_collect (field : Field α) (other : Field β) (element : Field γ) (root : Value) :
    ((field.andThen other).collect element).get root =
        ((field.andThen (other.collect element)).get root).mapError (.under field.path) ∧
      ((field.andThen (other.collect element)).get root =
          ((field.andThen other).collect element).get root ↔
        field.path = [] ∨
          ∀ failures, (field.andThen (other.collect element)).get root ≠
            .error (.collect failures)) := by
  have hunder := get_collect_andThen field other element root
  refine ⟨hunder, ?_⟩
  rw [hunder]
  cases hget : (field.andThen (other.collect element)).get root with
  | ok data => exact iff_of_true rfl (.inr fun failures => by rintro ⟨⟩)
  | error e =>
      show Except.error e = Except.error (e.under field.path) ↔ _
      rw [Except.error.injEq]
      constructor
      · intro heq
        by_contra hno
        rw [not_or] at hno
        obtain ⟨hne, hcollect⟩ := hno
        obtain ⟨failures, hfailures⟩ := not_forall.1 hcollect
        obtain rfl := Except.error.inj (not_not.1 hfailures)
        -- the path of the first failure is its own path with the field's path in front
        cases failures with
        | nil => exact collect_failures_ne_nil hget rfl
        | cons failure failures =>
            rw [FieldError.under, FieldError.collect.injEq, List.map_cons, List.cons.injEq] at heq
            have hpath : failure.1 = field.path ++ failure.1 := congrArg Prod.fst heq.1
            exact hne (List.self_eq_append_left.1 hpath)
      · rintro (hnil | hcollect)
        · rw [hnil, FieldError.under_nil]
        · refine (FieldError.under_of_ne_collect field.path fun failures => ?_).symm
          rintro rfl
          exact hcollect failures rfl

/-- Behind the key of an object, a collection names a failing element without that key. -/
theorem andThen_collect_ne :
    ¬ ∀ (field other : Field Value) (element : Field Int64) (root : Value),
      (field.andThen (other.collect element)).get root =
        ((field.andThen other).collect element).get root := by
  intro hall
  let root := Value.ofMembers [("data", Value.ofMembers [("items", .array [.string "x"])])]
  have hthen : ((Field.keys ["data"]).andThen ((Field.keys ["items"]).collect
      (Field.of Codec.long))).get root =
        .error (.collect [([.key "items", .index 0], .typeMismatch .long .string)]) := rfl
  have hboth : (((Field.keys ["data"]).andThen (Field.keys ["items"])).collect
      (Field.of Codec.long)).get root =
        .error (.collect [([.key "data", .key "items", .index 0],
          .typeMismatch .long .string)]) := rfl
  have h := hall (Field.keys ["data"]) (Field.keys ["items"]) (Field.of Codec.long) root
  rw [hthen, hboth] at h
  simp at h

end Field

end DocQuery
