import DocQuery.Proofs.Value.Conversion
import DocQuery.Proofs.Value.Reading
import DocQuery.Proofs.Value.RoundTrip

/-!
# Reading again what was read

A value that was read from a text can be written and read again. Its wire form need not nest as the
text did. The tag of objects goes where no key needs it, and it comes around every object with a
reserved key, also around one that the text holds without the tag. Such an object takes a level more
than it took in the text (`wireDepth_le_of_ofJson`), so under the limit of the text the wire form may
be too deep (`not_reread`). How many of these objects lie inside one another bounds what has to be
added to the limit, and where there is none the limit of the text is enough (`reread_exact`). Leap
seconds that are read end minutes, so they come back; doubles may not.
-/

set_option autoImplicit false

namespace DocQuery.Value

open Json (Written)

mutual

/-- How many objects with a reserved key lie inside one another at most, of those that have no tag
around them yet. An object under the tag of objects has one. -/
def addedTags : Json → Nat
  | .null | .bool _ | .number _ | .string _ => 0
  | .array items => itemsAddedTags items
  | .object .nil => 0
  | .object (.cons key _ payload .nil) =>
      match Tag.ofKey? key with
      | some .ref | some .timestamp | some .date => 0
      | some .set => addedTags payload
      | some .object =>
          match payload with
          | .object members => membersAddedTags members
          | _ => 0
      | none => (if isReserved key then 1 else 0) + addedTags payload
  | .object (.cons key _ member (.cons key' above' member' members)) =>
      (if (key :: key' :: members.keys).any isReserved then 1 else 0) +
        max (addedTags member) (membersAddedTags (.cons key' above' member' members))

/-- The largest number of such objects in an item. -/
def itemsAddedTags : List Json → Nat
  | [] => 0
  | item :: items => max (addedTags item) (itemsAddedTags items)

/-- The largest number of such objects in a member. -/
def membersAddedTags : {bound : Option String} → Entries Json bound → Nat
  | _, .nil => 0
  | _, .cons _ _ member members => max (addedTags member) (membersAddedTags members)

end

theorem addedTags_of_untagged {members : Dict Json} (h : tagOf? members = none) :
    addedTags (.object members) =
      (if members.keys.any isReserved then 1 else 0) + membersAddedTags members := by
  match members, h with
  | .nil, _ => rfl
  | .cons key _ payload .nil, h =>
      have htag : Tag.ofKey? key = none := h
      rw [addedTags.eq_def]
      simp [htag, Entries.keys, membersAddedTags]
  | .cons key _ member (.cons key' _ member' members), _ => rfl

/-! ## The depth of the wire form -/

/-- What the wire form of a value needs is at most the depth of a document, and a level for each
object that gets a tag. -/
def Fits (json : Json) (v : Value) : Prop := v.wireDepth ≤ json.depth + addedTags json

theorem itemsWireDepth_le {items : List Json} {vs : List Value} (h : List.Forall₂ Fits items vs) :
    (array vs).wireDepth ≤ Json.itemsDepth items + itemsAddedTags items := by
  rw [wireDepth]
  induction h with
  | nil => exact Nat.zero_le _
  | @cons item v items vs hitem _ ih =>
      unfold Fits at hitem
      rw [Json.itemsDepth, itemsAddedTags, itemsWireDepth]
      -- the bound on the further items is one only when there are any
      cases vs with
      | nil =>
          simp only [List.isEmpty_cons, Bool.false_eq_true, if_false, itemsWireDepth]
          omega
      | cons _ _ =>
          simp only [List.isEmpty_cons, Bool.false_eq_true, if_false] at ih ⊢
          omega

theorem membersWireDepth_le {bound : Option String} {members : Entries Json bound}
    {vs : Entries Value bound} (h : Entries.Forall₂ Fits members vs) :
    (if vs.keys.isEmpty then 0 else 1 + membersWireDepth vs) ≤
      Json.membersDepth members + membersAddedTags members := by
  induction h with
  | nil => exact Nat.zero_le _
  | @cons _ key above member v members vs hmember _ ih =>
      unfold Fits at hmember
      rw [Json.membersDepth, membersAddedTags, membersWireDepth]
      cases vs with
      | nil =>
          simp only [Entries.keys, List.isEmpty_cons, Bool.false_eq_true, if_false, membersWireDepth]
          omega
      | cons _ _ _ _ =>
          simp only [Entries.keys, List.isEmpty_cons, Bool.false_eq_true, if_false] at ih ⊢
          omega

/-- An object takes a level more than its members when it gets a tag. -/
theorem objectWireDepth_le {members : Dict Json} {vs : Dict Value}
    (h : Entries.Forall₂ Fits members vs) :
    (object vs).wireDepth ≤ Json.membersDepth members +
      ((if members.keys.any isReserved then 1 else 0) + membersAddedTags members) := by
  have hmembers := membersWireDepth_le h
  rw [wireDepth, h.keys_eq]
  split
  · exact Nat.zero_le _
  · rename_i hempty
    rw [if_neg hempty] at hmembers
    split <;> omega

theorem keptByConversion_fits : KeptByConversion Fits where
  null := Nat.le_refl 0
  bool b := Nat.le_refl 0
  number n := by
    cases n with
    | integer n fits =>
        rw [ofNumber]
        split <;> exact Nat.le_refl 0
    | double d finite => exact Nat.le_refl 0
  string s := Nat.le_refl 0
  array parts := itemsWireDepth_le parts
  ref payload r := by
    rw [Fits, depth_tagged, wireDepth]
    omega
  timestamp payload _ _ _ := by
    rw [Fits, depth_tagged, wireDepth]
    omega
  date payload d := by
    rw [Fits, depth_tagged, wireDepth]
    omega
  set {payload query} part := by
    have htags : addedTags (tagged .set payload) = addedTags payload := rfl
    unfold Fits at part ⊢
    rw [depth_tagged, wireDepth, htags]
    omega
  escaped {members vs} parts := by
    -- the tag that the text has pays for the tag that is written
    have htags : addedTags (tagged .object (.object members)) = membersAddedTags members := rfl
    have hobject := objectWireDepth_le parts
    rw [Fits, depth_tagged, Json.depth, htags]
    split at hobject <;> omega
  plain untagged parts := by
    rw [Fits, addedTags_of_untagged untagged]
    exact objectWireDepth_le parts

/-- **A converted value is written no deeper than its document, but for the tags that are added.** -/
theorem wireDepth_le_of_ofJson {limit depth : Nat} {json : Json} {v : Value}
    (h : ofJson limit depth json = .ok v) : v.wireDepth ≤ json.depth + addedTags json :=
  keptByConversion_fits.ofJson h

/-! ## Texts -/

/-- **What was read is read again,** if its doubles are read back. Under the limit of the text, the
wire form of a value that was read gives the value back when it nests within the limit, and is too
deep otherwise. It does give the value back under every limit that is larger by as many levels as tags
of objects are added inside one another; where none is added, under the limit of the text itself. -/
theorem reread_exact {limit : Nat} {text : String} {v : Value} (h : parseWith limit text = .ok v)
    (hyears : v.InFourDigitYears) (hback : v.DoublesReadBack) :
    ∃ json, Json.read none text = .ok json ∧
      (parseWith limit v.text = if v.wireDepth ≤ limit then .ok v else .error (.tooDeep limit)) ∧
      ∀ limit', limit + addedTags json ≤ limit' → parseWith limit' v.text = .ok v := by
  obtain ⟨w, hw, hdepth, hv⟩ := parseWith_eq_ok_iff.1 h
  have htimes := timestampsReadBack_iff.2 ⟨hyears, leapsEndMinutes_of_ofJson hv⟩
  have hread := parseWith_text (allFinite_of_ofJson hv) hback htimes
  refine ⟨w.toJson, Json.read_none_eq_ok_iff.2 ⟨w, hw, rfl⟩, hread limit, ?_⟩
  intro limit' hlimit
  -- the tree of the text is no deeper than the text
  have hwire := wireDepth_le_of_ofJson hv
  have htree := Json.depth_toJson_le w
  rw [hread limit', if_pos (by omega)]

/-- An object with a reserved key that is no tag. -/
def bare : Value := object (Dict.single "@x" (double Binary64.half))

/-- Its document when it is read without the tag of objects. -/
def bareJson : Json := .object (Dict.single "@x" (.number (.double Binary64.half (by decide))))

theorem part_bare {p : Value} (part : Part p bare) :
    (∀ d, p = double d → d = Binary64.half) ∧ ∀ t, p ≠ timestamp t := by
  cases part with
  | whole => exact ⟨by rintro d ⟨⟩, by rintro t ⟨⟩⟩
  | member mem part =>
      obtain rfl := List.mem_singleton.1 mem
      cases part
      exact ⟨by rintro d ⟨⟩; rfl, by rintro t ⟨⟩⟩

theorem inFourDigitYears_bare : bare.InFourDigitYears :=
  fun t part => absurd rfl ((part_bare part).2 t)

theorem doublesReadBack_bare : bare.DoublesReadBack := by
  intro d part
  rw [(part_bare part).1 d rfl]
  exact Binary64.readsBack_half

theorem text_bareJson : bareJson.text = "\x7b\"@x\":0.5\x7d" := by
  have hwrite : Json.Token.write (.number (.double Binary64.half (by decide))) = ['0', '.', '5'] :=
    Binary64.write_half
  have htokens : bareJson.tokens = [.openObject, .string "@x", .colon,
      .number (.double Binary64.half (by decide)), .closeObject] := rfl
  rw [Json.text, Json.write, htokens]
  simp only [List.flatMap_cons, hwrite]
  rfl

/-- The object is read without the tag of objects. -/
theorem standsIn_bare :
    (Written.object [("@x", .number (.double Binary64.half (by decide)))]).StandsIn
      "\x7b\"@x\":0.5\x7d" := by
  have hback : bareJson.ReadsBack := by
    apply Json.readsBack_object
    intro entry hmem
    obtain rfl := List.mem_singleton.1 hmem
    exact Json.readsBack_of_tokens rfl Binary64.readsBack_half
  rw [← text_bareJson]
  exact (Json.scan_document hback).symm

theorem parseWith_bare : parseWith 1 "\x7b\"@x\":0.5\x7d" = .ok bare :=
  parseWith_eq_ok_iff.2 ⟨_, standsIn_bare, Nat.le_refl 1, rfl⟩

/-- Under the limit of the text the object is too deep when it is written, and one level more is
enough. -/
theorem reread_exact_bare :
    parseWith 1 "\x7b\"@x\":0.5\x7d" = .ok bare ∧ bare.InFourDigitYears ∧
      bare.DoublesReadBack ∧ parseWith 1 bare.text = .error (.tooDeep 1) ∧
      parseWith 2 bare.text = .ok bare := by
  obtain ⟨json, hjson, hlimit, hmore⟩ :=
    reread_exact parseWith_bare inFourDigitYears_bare doublesReadBack_bare
  have hread := Json.read_none_eq_ok_iff.2 ⟨_, standsIn_bare, rfl⟩
  rw [hjson] at hread
  obtain rfl := Except.ok.inj hread
  refine ⟨parseWith_bare, inFourDigitYears_bare, doublesReadBack_bare,
    hlimit.trans (if_neg (by decide)), ?_⟩
  exact hmore 2 (by decide)

/-- The numeral 30e+22, whose digits and power are doubles. -/
def shiftedNumeral : Json.Numeral := ⟨false, ['3', '0'], none, some 22⟩

/-- It is read as the double nearest to 3e+23. -/
theorem parseWith_shiftedNumeral (limit : Nat) :
    parseWith limit "30e+22" = .ok (double Binary64.misread) := by
  have hsignificand : shiftedNumeral.significand = 30 := by rfl
  have hpower : shiftedNumeral.power = 22 := by rfl
  have hdouble : shiftedNumeral.toDouble? = some Binary64.misread := by
    rw [Json.Numeral.toDouble?, hsignificand, hpower, Binary64.scale10?, if_pos (by decide),
      if_pos (by decide)]
    rfl
  have hspelled : shiftedNumeral.IsSpelled := by
    refine ⟨List.cons_ne_nil _ _, ?_, by decide, ?_⟩
    · intro c hc
      rcases List.mem_pair.1 hc with rfl | rfl <;> rfl
    · rintro ds ⟨⟩
  have hinteger : ¬ shiftedNumeral.IsInteger := by
    rintro ⟨⟨-, hexponent⟩, -⟩
    cases hexponent
  have hwrite : shiftedNumeral.write = ['3', '0', 'e', '+', '2', '2'] := by
    have hexponent : Text.digits (22 : Int).natAbs = ['2', '2'] := by
      rw [Text.digits_of_ge (by decide), Text.digits_of_lt (by decide)]
      rfl
    rw [Json.Numeral.write, shiftedNumeral, Json.Numeral.writeExponent, hexponent]
    rfl
  have hread := parseWith_numeral hspelled hinteger hdouble limit
  rwa [hwrite] at hread

/-- The limit of a text need not be enough for what was read from it, and where it is, a double that
was read need not be read again. -/
theorem not_reread :
    (¬ ∀ (limit : Nat) (text : String) (v : Value), parseWith limit text = .ok v →
      v.InFourDigitYears → v.DoublesReadBack → parseWith limit v.text = .ok v) ∧
    ¬ ∀ (limit : Nat) (text : String) (v : Value), parseWith limit text = .ok v →
      v.InFourDigitYears → v.wireDepth ≤ limit → parseWith limit v.text = .ok v := by
  constructor
  · intro hall
    have h := hall 1 _ bare parseWith_bare inFourDigitYears_bare doublesReadBack_bare
    have hfinite : bare.AllFinite := toJson_isOk_iff.1 ⟨_, rfl⟩
    have htimes : bare.TimestampsReadBack := fun t part => absurd rfl ((part_bare part).2 t)
    rw [parseWith_text hfinite doublesReadBack_bare htimes, if_neg (by decide)] at h
    cases h
  · intro hall
    have h := hall 0 _ _ (parseWith_shiftedNumeral 0) (by rintro t ⟨⟩) (Nat.le_refl 0)
    rw [parseWith_misread] at h
    cases h

end DocQuery.Value
