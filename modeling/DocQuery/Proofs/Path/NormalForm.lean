import DocQuery.Path.Basic
import DocQuery.Proofs.Text.Digits
import Mathlib.Tactic.MkIffOfInductiveProp

/-!
# The text of a path as a normal form

To normalize a path is to write it and to read the text back. Empty keys vanish, a key with slashes
falls apart at them, and a key that is the numeral of an index becomes that index. What is left are
the segments that a text can stand for: reading a text gives no others (`expressible_of_mem_read`),
and a path is its own normal form exactly when it has no others (`read_write_eq_self_iff`). A text is
read in parts at any of its slashes, and a path is normalized segment by segment
(`Path.normalize_exact`).
-/

set_option autoImplicit false

namespace DocQuery

open Text (AllDigits)

/-! ## Segments and their texts -/

namespace Segment

/-- The text is read as an index: it consists of digits, and they denote a number in range. -/
def IsIndexText (part : List Char) : Prop := AllDigits part ∧ Text.value part < indexBound

/-- A key that a text can stand for. -/
@[mk_iff]
structure PlainKey (name : String) : Prop where
  ne_empty : name ≠ ""
  slash_not_mem : '/' ∉ name.toList
  not_isIndexText : ¬ IsIndexText name.toList

/-- A segment that a text can stand for. -/
def Expressible : Segment → Prop
  | key name => PlainKey name
  | index position => position < indexBound

instance (part : List Char) : Decidable (IsIndexText part) :=
  decidable_of_iff (part.all Char.isDigit = true ∧ Text.value part < indexBound)
    (and_congr_left' List.all_eq_true)

instance (name : String) : Decidable (PlainKey name) := decidable_of_iff _ (plainKey_iff name).symm

instance : (segment : Segment) → Decidable segment.Expressible
  | key name => inferInstanceAs (Decidable (PlainKey name))
  | index position => inferInstanceAs (Decidable (position < indexBound))

section

variable {part : List Char}

theorem ofText_of_isIndexText (h : IsIndexText part) : ofText part = .index (Text.value part) := by
  have hdigits : part.all Char.isDigit = true := List.all_eq_true.2 h.1
  rw [ofText, hdigits, decide_eq_true h.2]
  rfl

theorem ofText_of_not_isIndexText (h : ¬ IsIndexText part) :
    ofText part = .key (String.ofList part) := by
  rw [ofText, if_neg]
  intro hindex
  rw [Bool.and_eq_true, List.all_eq_true, decide_eq_true_eq] at hindex
  exact h hindex

/-- A part of a text without slashes is read as a segment that a text can stand for. -/
theorem expressible_ofText (hne : part ≠ []) (hslash : '/' ∉ part) :
    (ofText part).Expressible := by
  by_cases hindex : IsIndexText part
  · rw [ofText_of_isIndexText hindex]
    exact hindex.2
  · rw [ofText_of_not_isIndexText hindex]
    constructor
    · intro hempty
      apply hne
      rw [← String.toList_ofList (l := part), hempty]
      rfl
    · rwa [String.toList_ofList]
    · rwa [String.toList_ofList]

end

theorem isIndexText_digits {position : Nat} (h : position < indexBound) :
    IsIndexText (Text.digits position) := by
  refine ⟨Text.allDigits_digits position, ?_⟩
  rw [Text.value_digits]
  exact h

namespace Expressible

variable {segment : Segment}

theorem ofText_write (h : segment.Expressible) : ofText segment.write = segment := by
  cases segment with
  | key name =>
      rw [write, ofText_of_not_isIndexText h.not_isIndexText, String.ofList_toList]
  | index position =>
      rw [write, ofText_of_isIndexText (isIndexText_digits h), Text.value_digits]

theorem write_ne_nil (h : segment.Expressible) : segment.write ≠ [] := by
  cases segment with
  | key name =>
      intro hnil
      apply h.ne_empty
      rw [← String.ofList_toList (s := name)]
      exact congrArg String.ofList hnil
  | index position => exact Text.digits_ne_nil position

theorem slash_not_mem_write (h : segment.Expressible) : '/' ∉ segment.write := by
  cases segment with
  | key name => exact h.slash_not_mem
  | index position =>
      intro hslash
      have hdigit := Text.isDigit_of_mem_digits hslash
      simp at hdigit

end Expressible

end Segment

namespace Path

/-! ## Reading part by part -/

theorem parts_eq_splitOn (cs : List Char) : parts cs = cs.splitOn '/' := by
  induction cs with
  | nil => rfl
  | cons c cs ih =>
      rw [parts, ih, List.splitOn_cons_eq_if_modifyHead]
      by_cases hc : c = '/'
      · simp [hc]
      · cases hparts : cs.splitOn '/' with
        | nil => exact absurd hparts (List.splitOn_ne_nil _ _)
        | cons part rest => simp [hc]

theorem slash_not_mem_of_mem_parts {cs part : List Char} (h : part ∈ parts cs) : '/' ∉ part := by
  induction cs generalizing part with
  | nil =>
      rw [List.mem_singleton.1 h]
      exact List.not_mem_nil
  | cons c cs ih =>
      rw [parts] at h
      by_cases hc : c = '/'
      · rw [if_pos hc] at h
        rcases List.mem_cons.1 h with rfl | htail
        · exact List.not_mem_nil
        · exact ih htail
      · rw [if_neg hc] at h
        cases hparts : parts cs with
        | nil =>
            rw [hparts] at h
            simp [List.mem_singleton.1 h, Ne.symm hc]
        | cons first rest =>
            -- the character joins the first part of the rest
            rw [hparts] at h ih
            rcases List.mem_cons.1 h with rfl | htail
            · simp [Ne.symm hc, ih List.mem_cons_self]
            · exact ih (List.mem_cons_of_mem _ htail)

/-- A slash takes the text apart, whatever stands around it. -/
theorem read_append_slash (cs ds : List Char) : read (cs ++ '/' :: ds) = read cs ++ read ds := by
  simp only [read, parts_eq_splitOn, List.splitOn_append_cons_self, List.filter_append,
    List.map_append]

/-- A text without slashes is the text of one segment. -/
theorem read_of_slash_not_mem {part : List Char} (hne : part ≠ []) (hslash : '/' ∉ part) :
    read part = [Segment.ofText part] := by
  have hempty : part.isEmpty = false := List.isEmpty_eq_false_iff.2 hne
  rw [read, parts_eq_splitOn, List.splitOn_eq_singleton hslash]
  simp [hempty]

theorem expressible_of_mem_read {cs : List Char} {segment : Segment} (h : segment ∈ read cs) :
    segment.Expressible := by
  rw [read, List.mem_map] at h
  obtain ⟨part, hpart, rfl⟩ := h
  obtain ⟨hmem, hne⟩ := List.mem_filter.1 hpart
  apply Segment.expressible_ofText
  · simpa using hne
  · exact slash_not_mem_of_mem_parts hmem

/-! ## Reading what was written -/

theorem read_write_cons (segment : Segment) (path : Path) :
    read (write (segment :: path)) = read segment.write ++ read (write path) := by
  cases path with
  | nil =>
      rw [write, write]
      exact (List.append_nil _).symm
  | cons next path => rw [write, read_append_slash]

/-- A path is written and read segment by segment. -/
theorem read_write_append (first second : Path) :
    read (write (first ++ second)) = read (write first) ++ read (write second) := by
  induction first with
  | nil => rfl
  | cons segment first ih =>
      rw [List.cons_append, read_write_cons, read_write_cons, ih, List.append_assoc]

theorem read_write_of_expressible {path : Path} (h : ∀ segment ∈ path, segment.Expressible) :
    read (write path) = path := by
  induction path with
  | nil => rfl
  | cons segment path ih =>
      have hsegment := h segment List.mem_cons_self
      have hpath : ∀ s ∈ path, s.Expressible := fun s hs => h s (List.mem_cons_of_mem _ hs)
      rw [read_write_cons, ih hpath,
        read_of_slash_not_mem hsegment.write_ne_nil hsegment.slash_not_mem_write,
        hsegment.ofText_write, List.singleton_append]

/-- Just the paths whose segments texts can stand for are read back. -/
theorem read_write_eq_self_iff {path : Path} :
    read (write path) = path ↔ ∀ segment ∈ path, segment.Expressible := by
  constructor
  · intro h segment hmem
    -- the segments of the path have been read from a text
    rw [← h] at hmem
    exact expressible_of_mem_read hmem
  · exact read_write_of_expressible

/-! ## The normal form -/

/-- Every index of the path is in range. -/
def Addressable (path : Path) : Prop :=
  ∀ position, Segment.index position ∈ path → position < Segment.indexBound

/-- Every key of the path is one that a text can stand for. -/
def PlainKeys (path : Path) : Prop := ∀ name, Segment.key name ∈ path → Segment.PlainKey name

/-- The path that the text of a path is read as. -/
def normalize (path : Path) : Path := parse path.text

theorem normalize_eq_read_write (path : Path) : normalize path = read (write path) := by
  rw [normalize, parse, text, String.toList_ofList]

theorem forall_expressible_iff {path : Path} :
    (∀ segment ∈ path, segment.Expressible) ↔ path.Addressable ∧ path.PlainKeys := by
  constructor
  · intro h
    exact ⟨fun position hmem => h _ hmem, fun name hmem => h _ hmem⟩
  · rintro ⟨hindexes, hkeys⟩ segment hmem
    cases segment with
    | key name => exact hkeys name hmem
    | index position => exact hindexes position hmem

/-- Whatever text a path is read from, its indexes are in range and its keys are plain. -/
theorem expressible_parse (text : String) : (parse text).Addressable ∧ (parse text).PlainKeys :=
  forall_expressible_iff.1 fun _ hmem => expressible_of_mem_read hmem

/-- **The text of a path is a normal form.** Normalizing twice is normalizing once, and a path is
normalized part by part. A path with indexes in range is its own normal form exactly when each of its
keys is not empty, holds no slash and is no numeral of an index; every path that is read from a text
is such a path. A text is read in two parts at any slash. -/
theorem normalize_exact :
    (∀ path, normalize (normalize path) = normalize path) ∧
      (∀ first second, normalize (first ++ second) = normalize first ++ normalize second) ∧
      (∀ path, Addressable path → (normalize path = path ↔ PlainKeys path)) ∧
      (∀ text, Addressable (parse text) ∧ PlainKeys (parse text)) ∧
      ∀ first second, parse (first ++ "/" ++ second) = parse first ++ parse second := by
  simp only [normalize_eq_read_write]
  refine ⟨?_, read_write_append, ?_, expressible_parse, ?_⟩
  · intro path
    exact read_write_of_expressible fun _ hmem => expressible_of_mem_read hmem
  · intro path haddressable
    rw [read_write_eq_self_iff, forall_expressible_iff]
    exact and_iff_right haddressable
  · intro first second
    have htext : (first ++ "/" ++ second).toList = first.toList ++ '/' :: second.toList := by
      simp
    rw [parse, htext]
    exact read_append_slash first.toList second.toList

/-- A sign makes a key of digits, and so does a number beyond the range; the greatest index is one. -/
def nearIndexes : Path := [.key "+1", .key "18446744073709551616", .index 18446744073709551615]

/-- Leading zeros do not make a key of digits. -/
theorem normalize_exact_nearIndexes :
    Addressable nearIndexes ∧ normalize nearIndexes = nearIndexes ∧
      Addressable [.key "007"] ∧ normalize [.key "007"] ≠ [.key "007"] := by
  obtain ⟨-, -, hnormal, -, -⟩ := normalize_exact
  obtain ⟨hnear, hplain⟩ := forall_expressible_iff.1 (by decide : ∀ s ∈ nearIndexes, s.Expressible)
  have hseven : Addressable [.key "007"] := by
    intro position hmem
    cases List.mem_singleton.1 hmem
  refine ⟨hnear, (hnormal nearIndexes hnear).2 hplain, hseven, ?_⟩
  rw [Ne, hnormal _ hseven]
  intro h
  have hnot : ¬ Segment.PlainKey "007" := by decide
  exact hnot (h "007" List.mem_cons_self)

end Path

end DocQuery
