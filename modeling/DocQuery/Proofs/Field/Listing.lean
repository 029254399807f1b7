import DocQuery.Proofs.Field.Collection

/-!
# Two ways to read an array

The array at a path can be read by a field that collects its elements, each as a whole through a
codec, or by the codec of the lists of such elements. The two read the same data and fail on the same
values. Where elements fail, both list the same elements with the same failures; the field that
collects puts its path in front of their positions (`Field.collect_readAlike`).
-/

set_option autoImplicit false

namespace DocQuery

/-- The codec of lists. The failure of an item is labelled with its position. -/
def Codec.list {α : Type} (item : Codec α) : Codec (List α) :=
  ⟨decodeArray (fun position => [.index position]) item.decode,
    fun items => (encodeItems item.encode items).map .array⟩

/-- The shape of lists has the codec of lists. -/
theorem Shape.codec_list (item : Shape) : (Shape.list item).codec = item.codec.list := by
  have hdecode : (Shape.list item).decode =
      decodeArray (fun position => [.index position]) item.decode := by
    funext v
    rw [Shape.decode]
  have hencode : (Shape.list item).encode =
      fun items => (encodeItems item.encode items).map .array := by
    funext items
    rw [Shape.encode]
  rw [Shape.codec, hdecode, hencode]
  rfl

/-- Two results of reading the array at a path, with the reason for both: the data of all items; the
failure of the path; a mismatch where there is no array; or the items that fail, with the path in
front of their positions on the left and without it on the right. -/
inductive ReadAlike {α : Type} (path : Path) (decode : Value → Except FieldError α) (root : Value) :
    Except FieldError (List α) → Except FieldError (List α) → Prop where
  | data {items : List Value} {xs : List α} (reached : path.get root = .ok (.array items))
      (decoded : List.Forall₂ (fun item x => decode item = .ok x) items xs) :
      ReadAlike path decode root (.ok xs) (.ok xs)
  | unreached {cause : FieldError} (stops : path.walk root = .error cause) :
      ReadAlike path decode root (.error (.pathNotFound path cause))
        (.error (.pathNotFound path cause))
  | mismatch {v : Value} (reached : path.get root = .ok v) (ne : v.kind ≠ .array) :
      ReadAlike path decode root (.error (.typeMismatch .array v.kind))
        (.error (.typeMismatch .array v.kind))
  | failures {items : List Value} {failed : List (Nat × FieldError)}
      (reached : path.get root = .ok (.array items)) (failing : FailingItems decode items failed)
      (ne : failed ≠ []) :
      ReadAlike path decode root
        (.error (.collect (failed.map fun failure => (path ++ [.index failure.1], failure.2))))
        (.error (.collect (failed.map fun failure => ([.index failure.1], failure.2))))

namespace Field

variable {α β : Type}

/-- Reading a whole value through a codec is decoding it. -/
theorem get_root_withCodec (item : Codec β) : (root.withCodec item).get = item.decode := by
  funext v
  exact get_of_path_ok (root.withCodec item) rfl

theorem elementPath_root_withCodec (field : Field α) (item : Codec β) :
    field.elementPath (root.withCodec item) = fun position => field.path ++ [.index position] := by
  funext position
  exact List.append_nil _

section

variable {field : Field α} {tree v : Value} (hpath : field.path.get tree = .ok v)

include hpath

theorem get_collect_of_path_ok (item : Codec β) :
    (field.collect (root.withCodec item)).get tree =
      decodeArray (fun position => field.path ++ [.index position]) item.decode v := by
  rw [get_of_path_ok (field.collect (root.withCodec item)) hpath, ← get_root_withCodec item,
    ← elementPath_root_withCodec field item]
  rfl

theorem get_list_of_path_ok (item : Codec β) :
    (field.withCodec item.list).get tree =
      decodeArray (fun position => [.index position]) item.decode v :=
  get_of_path_ok (field.withCodec item.list) hpath

end

theorem readAlike_of_array {path : Path} {tree : Value} {items : List Value}
    (reached : path.get tree = .ok (.array items)) (decode : Value → Except FieldError β) :
    ReadAlike path decode tree
      (decodeArray (fun position => path ++ [.index position]) decode (.array items))
      (decodeArray (fun position => [.index position]) decode (.array items)) := by
  have harray (label : Nat → Path) : decodeArray label decode (.array items) =
      (decodeItems label decode 0 items).mapError .collect := rfl
  rw [harray, harray]
  cases hbare : decodeItems (fun position => [.index position]) decode 0 items with
  | ok xs =>
      -- whether the items have data does not depend on the labels
      have hdecoded := decodeItems_eq_ok_iff.1 hbare
      rw [decodeItems_eq_ok_iff.2 hdecoded]
      exact .data reached hdecoded
  | error failures =>
      obtain ⟨failed, hfailing, hne, rfl⟩ := decodeItems_eq_error_iff.1 hbare
      rw [decodeItems_eq_error_iff.2 ⟨failed, hfailing, hne, rfl⟩]
      exact .failures reached hfailing hne

theorem readAlike_collect_list (field : Field α) (item : Codec β) (tree : Value) :
    ReadAlike field.path item.decode tree ((field.collect (root.withCodec item)).get tree)
      ((field.withCodec item.list).get tree) := by
  cases hpath : field.path.get tree with
  | error e =>
      obtain ⟨cause, hstops, rfl⟩ := Path.get_eq_error_iff.1 hpath
      rw [get_of_path_error (field.collect (root.withCodec item)) hpath,
        get_of_path_error (field.withCodec item.list) hpath]
      exact .unreached hstops
  | ok v =>
      rw [get_collect_of_path_ok hpath, get_list_of_path_ok hpath]
      by_cases hkind : v.kind = .array
      · obtain ⟨items, rfl⟩ := (kind_eq_array_iff v).1 hkind
        exact readAlike_of_array hpath item.decode
      · rw [decodeArray_of_kind_ne _ item.decode hkind, decodeArray_of_kind_ne _ item.decode hkind]
        exact .mismatch hpath hkind

/-- **Collecting and listing agree.** To collect the elements of an array through a codec and to read
the array by the codec of lists is to have the same data, the same failure of the path, the same
mismatch, or the same failures of the same elements, in the same order; the elements are named by
their paths from the root in one case and by their positions in the other. This holds of any codec,
and so of the codecs of shapes. -/
theorem collect_readAlike (field : Field α) (tree : Value) :
    (∀ (β : Type) (item : Codec β),
      ReadAlike field.path item.decode tree ((field.collect (root.withCodec item)).get tree)
        ((field.withCodec item.list).get tree)) ∧
      ∀ item : Shape,
        ReadAlike field.path item.decode tree ((field.collect (root.withShape item)).get tree)
          ((field.withShape (.list item)).get tree) := by
  refine ⟨fun β item => readAlike_collect_list field item tree, ?_⟩
  intro item
  have hlist := readAlike_collect_list field item.codec tree
  rw [← Shape.codec_list] at hlist
  exact hlist

end Field

end DocQuery
