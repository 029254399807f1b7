import DocQuery.Client.Connection
import DocQuery.Proofs.Dict.Lookup
import DocQuery.Proofs.LastGiven
import Mathlib

/-!
# Headers of a reply

Headers are stored one after another, each under its name in lower case. A header whose value can
not be read stores nothing, and one that can be read takes the place of the header that was stored
under its name before (`Header.find?_store`). So the value of a header is the last readable one that
was received under its name, in whatever case the names are written (`Received.header?_exact`).
-/

set_option autoImplicit false

namespace DocQuery

namespace Header

/-! ## Names in any case -/

/-- The characters are the same, or they are the two cases of a letter of basic Latin. -/
def SameLetter (c d : Char) : Prop :=
  c = d ∨ ('A' ≤ c ∧ c ≤ 'Z' ∧ d.toNat = c.toNat + 32) ∨
    ('A' ≤ d ∧ d ≤ 'Z' ∧ c.toNat = d.toNat + 32)

instance (c d : Char) : Decidable (SameLetter c d) :=
  inferInstanceAs (Decidable (_ ∨ _))

/-- The names differ at most in the case of letters. -/
def SameName (a b : String) : Prop := List.Forall₂ SameLetter a.toList b.toList

instance (a b : String) : Decidable (SameName a b) :=
  inferInstanceAs (Decidable (List.Forall₂ _ _ _))

theorem toNat_toLower (c : Char) :
    c.toLower.toNat = if 'A' ≤ c ∧ c ≤ 'Z' then c.toNat + 32 else c.toNat := by
  rw [Char.toLower]
  split
  · rename_i h
    have hlast : c.val.toNat ≤ 90 := UInt32.le_iff_toNat_le.1 h.2
    rw [if_pos (show 'A' ≤ c ∧ c ≤ 'Z' from h)]
    show (c.val + 32).toNat = c.val.toNat + 32
    rw [UInt32.toNat_add, Nat.mod_eq_of_lt]
    · rfl
    · show c.val.toNat + 32 < 4294967296
      omega
  · rename_i h
    rw [if_neg (show ¬ ('A' ≤ c ∧ c ≤ 'Z') from h)]

theorem toLower_eq_toLower_iff (c d : Char) : c.toLower = d.toLower ↔ SameLetter c d := by
  have hbounds (c : Char) : ('A' ≤ c ∧ c ≤ 'Z') ↔ 65 ≤ c.toNat ∧ c.toNat ≤ 90 := by
    rw [Char.le_def, Char.le_def, UInt32.le_iff_toNat_le, UInt32.le_iff_toNat_le]
    rfl
  rw [SameLetter, ← Char.toNat_inj, toNat_toLower, toNat_toLower, ← Char.toNat_inj]
  simp only [← and_assoc, hbounds]
  -- the codes of upper and lower case do not overlap
  split <;> split <;> omega

/-- Names are stored under the same key exactly when they are the same name. -/
theorem lower_eq_lower_iff (a b : String) : lower a = lower b ↔ SameName a b := by
  rw [lower, lower, String.ofList_inj, SameName, ← List.forall₂_eq_eq_eq,
    List.forall₂_map_left_iff, List.forall₂_map_right_iff]
  simp only [toLower_eq_toLower_iff]

/-! ## Readable values -/

/-- The value of the header reads as the text: its bytes are those of the text, and each is a
visible character of basic Latin, a blank or a tab. -/
def Reads (header : Header) (text : String) : Prop :=
  (∀ b ∈ header.value, b = 9 ∨ (32 ≤ b ∧ b ≤ 126)) ∧ text.toUTF8 = header.value.toByteArray

theorem isReadable_iff (b : UInt8) : isReadable b = true ↔ b = 9 ∨ (32 ≤ b ∧ b ≤ 126) := by
  simp only [isReadable, decide_eq_true_eq]
  grind

/-- A byte of basic Latin is all there is of its character in UTF-8. -/
theorem utf8EncodeChar_ofNat {b : UInt8} (h : b ≤ 127) :
    String.utf8EncodeChar (Char.ofNat b.toNat) = [b] := by
  have hall : ∀ n < 128, String.utf8EncodeChar (Char.ofNat n) = [UInt8.ofNat n] := by decide
  have hbyte := hall b.toNat (Nat.lt_succ_of_le (UInt8.le_iff_toNat_le.1 h))
  rw [hbyte, UInt8.ofNat_toNat]

theorem toUTF8_ofList {bytes : List UInt8} (h : ∀ b ∈ bytes, b ≤ 127) :
    (String.ofList (bytes.map fun b => Char.ofNat b.toNat)).toUTF8 = bytes.toByteArray := by
  rw [String.toUTF8_eq_toByteArray, String.toByteArray_ofList, List.utf8Encode]
  congr 1
  induction bytes with
  | nil => rfl
  | cons b bytes ih =>
      rw [List.forall_mem_cons] at h
      rw [List.map_cons, List.flatMap_cons, utf8EncodeChar_ofNat h.1, ih h.2,
        List.singleton_append]

/-- The reader of values gives the text that a value reads as. -/
theorem text?_eq_some_iff {header : Header} {text : String} :
    header.text? = some text ↔ header.Reads text := by
  have hall : header.value.all isReadable = true ↔
      ∀ b ∈ header.value, b = 9 ∨ (32 ≤ b ∧ b ≤ 126) := by
    simp only [List.all_eq_true, isReadable_iff]
  rw [text?, Reads]
  by_cases h : header.value.all isReadable = true
  · have hreadable := hall.1 h
    have hlatin : ∀ b ∈ header.value, b ≤ 127 := by
      intro b hb
      have hb' := hreadable b hb
      grind
    have hbytes := toUTF8_ofList hlatin
    rw [if_pos h, Option.some.injEq, ← hbytes]
    simp only [String.toUTF8_eq_toByteArray, String.toByteArray_inj]
    constructor
    · intro htext
      exact ⟨hreadable, htext.symm⟩
    · rintro ⟨-, htext⟩
      exact htext.symm
  · rw [if_neg h]
    constructor
    · intro htext
      cases htext
    · rintro ⟨hreadable, -⟩
      exact absurd (hall.2 hreadable) h

theorem text?_eq_none_iff {header : Header} :
    header.text? = none ↔ ¬ ∃ text, header.Reads text := by
  simp only [← text?_eq_some_iff, ← Option.isSome_iff_exists, Option.not_isSome_iff_eq_none]

/-! ## One header, and all of them -/

/-- The value that a header gives to a name. -/
def valueFor? (name : String) (header : Header) : Option String :=
  if SameName header.name name then header.text? else none

theorem valueFor?_eq_some_iff {name value : String} {header : Header} :
    header.valueFor? name = some value ↔ SameName header.name name ∧ header.Reads value := by
  rw [valueFor?, Option.ite_none_right_eq_some, text?_eq_some_iff]

theorem valueFor?_eq_none_iff {name : String} {header : Header} :
    header.valueFor? name = none ↔ (SameName header.name name → ¬ ∃ text, header.Reads text) := by
  rw [valueFor?, ← text?_eq_none_iff]
  split <;> simp_all

/-- Store a header, if it can be read. -/
def store (stored : Dict String) (header : Header) : Dict String :=
  match header.text? with
  | some text => stored.insert (lower header.name) text
  | none => stored

/-- **A header decides what is stored under its name if it can be read, and nothing else.** -/
theorem find?_store (name : String) (stored : Dict String) (header : Header) :
    (store stored header).find? (lower name) =
      (header.valueFor? name).or (stored.find? (lower name)) := by
  rw [store, valueFor?]
  cases header.text? with
  | none => rw [ite_self, Option.none_or]
  | some text =>
      rw [Dict.find?_insert]
      by_cases h : SameName header.name name
      · rw [if_pos h, if_pos ((lower_eq_lower_iff _ _).2 h).symm, Option.some_or]
      · have hne : lower name ≠ lower header.name := by
          intro heq
          exact h ((lower_eq_lower_iff _ _).1 heq.symm)
        rw [if_neg h, if_neg hne, Option.none_or]

theorem collect_eq_foldl (headers : List Header) : collect headers = headers.foldl store .nil := by
  rw [collect, Dict.ofList, List.foldl_filterMap]
  congr 1
  funext stored header
  rw [store]
  cases header.text? <;> rfl

/-- Under a name stands the last value that the headers give to it. -/
theorem find?_collect (headers : List Header) (name : String) :
    (collect headers).find? (lower name) = lastGiven? (valueFor? name) headers := by
  have hfold := get_foldl (fun stored : Dict String => stored.find? (lower name))
    (find?_store name) headers .nil
  rw [collect_eq_foldl, hfold]
  exact Option.or_none

end Header

/-! ## Replies as they are received -/

/-- What comes back from a server, as a reply. -/
def Received.reply (received : Received) : Reply :=
  ⟨received.status, Header.collect received.headers, received.body⟩

namespace Received

open Header

theorem header?_reply (received : Received) (name : String) :
    received.reply.header? name = lastGiven? (valueFor? name) received.headers :=
  find?_collect received.headers name

theorem header?_eq_some_iff {received : Received} {name value : String} :
    received.reply.header? name = some value ↔
      ∃ earlier header later, received.headers = earlier ++ header :: later ∧
        (SameName header.name name ∧ header.Reads value) ∧
        ∀ other ∈ later, SameName other.name name → ¬ ∃ text, other.Reads text := by
  rw [header?_reply, lastGiven?_eq_some_iff, LastGiven]
  simp only [valueFor?_eq_some_iff, valueFor?_eq_none_iff]

theorem header?_eq_none_iff {received : Received} {name : String} :
    received.reply.header? name = none ↔
      ∀ header ∈ received.headers, SameName header.name name → ¬ ∃ text, header.Reads text := by
  rw [header?_reply, lastGiven?_eq_none_iff]
  simp only [valueFor?_eq_none_iff]

/-- Headers with the same names and values are stored alike. -/
theorem collect_congr {headers others : List Header}
    (h : List.Forall₂ (fun a b => SameName a.name b.name ∧ a.value = b.value) headers others) :
    collect headers = collect others := by
  rw [collect, collect]
  congr 1
  induction h with
  | nil => rfl
  | @cons a b headers others hab hrest ih =>
      obtain ⟨hname, hvalue⟩ := hab
      have htext : a.text? = b.text? := by rw [text?, text?, hvalue]
      rw [List.filterMap_cons, List.filterMap_cons, htext, (lower_eq_lower_iff _ _).2 hname, ih]

/-- **The headers of a reply.** A reply is made of whatever comes back. Looked up by name, a header
has the value of the last header received under that name that can be read, and none if there is no
such header. The case of names does not matter, neither of the one that is looked up nor of those
that were received, and a header that can not be read or has another name might as well not have
been received. -/
theorem header?_exact :
    (∀ (addressing : Addressing) (network : Network) (connection : Connection) (request : Request)
        (received : Received),
      network (connection.sign addressing request) = some received →
        connection.send addressing network request = .ok received.reply) ∧
    (∀ (received : Received) (name value : String),
      received.reply.header? name = some value ↔
        ∃ earlier header later, received.headers = earlier ++ header :: later ∧
          (SameName header.name name ∧ header.Reads value) ∧
          ∀ other ∈ later, SameName other.name name → ¬ ∃ text, other.Reads text) ∧
    (∀ (received : Received) (name : String), received.reply.header? name = none ↔
      ∀ header ∈ received.headers, SameName header.name name → ¬ ∃ text, header.Reads text) ∧
    (∀ (received : Received) (name other : String), SameName name other →
      received.reply.header? name = received.reply.header? other) ∧
    (∀ (received other : Received),
      List.Forall₂ (fun a b => SameName a.name b.name ∧ a.value = b.value)
        received.headers other.headers →
      ∀ name, received.reply.header? name = other.reply.header? name) ∧
    ∀ (status : Nat) (earlier : List Header) (header : Header) (later : List Header)
      (body name : String),
      (¬ SameName header.name name ∨ ¬ ∃ text, header.Reads text) →
      (Received.mk status (earlier ++ header :: later) body).reply.header? name =
        (Received.mk status (earlier ++ later) body).reply.header? name := by
  refine ⟨?_, ?_, ?_, ?_, ?_, ?_⟩
  · intro addressing network connection request received hanswer
    rw [Connection.send, hanswer]
    rfl
  · intro received name value
    exact header?_eq_some_iff
  · intro received name
    exact header?_eq_none_iff
  · intro received name other hname
    rw [Reply.header?, (lower_eq_lower_iff _ _).2 hname]
    rfl
  · intro received other hheaders name
    rw [Reply.header?, reply, collect_congr hheaders]
    rfl
  · intro status earlier header later body name hskip
    rw [header?_reply, header?_reply]
    apply lastGiven?_drop
    rw [valueFor?_eq_none_iff]
    intro hname
    rcases hskip with hother | hunreadable
    · exact absurd hname hother
    · exact hunreadable

/-- A header that comes twice; another header stands in between. -/
def twice : List Header := [⟨"X-Build", [52, 49]⟩, ⟨"Date", [49]⟩, ⟨"x-build", [52, 50]⟩]

/-- The same headers, with their names in other cases. -/
def twiceRecased : List Header := [⟨"x-BUILD", [52, 49]⟩, ⟨"DATE", [49]⟩, ⟨"X-Build", [52, 50]⟩]

/-- A header with a byte that is no text. -/
def unreadable : Header := ⟨"X-BUILD", [255]⟩

/-- The second value is the last one that can be read. It is found under the name in any case, it is
found when the names come in other cases, and a header that can not be read does not hide it. -/
theorem header?_exact_twice :
    Connection.send (fun url _ => url) (fun _ => some ⟨200, twice, ""⟩) ⟨"", ""⟩ (.get "/" []) =
        .ok (Received.mk 200 twice "").reply ∧
      (Received.mk 200 twice "").reply.header? "X-BuilD" = some "42" ∧
      (SameName "X-BuilD" "x-build" ∧
        (Received.mk 200 twice "").reply.header? "X-BuilD" =
          (Received.mk 200 twice "").reply.header? "x-build") ∧
      (List.Forall₂ (fun a b => SameName a.name b.name ∧ a.value = b.value) twice twiceRecased ∧
        (Received.mk 200 twice "").reply.header? "date" =
          (Received.mk 200 twiceRecased "").reply.header? "date") ∧
      (¬ ∃ text, unreadable.Reads text) ∧
        (Received.mk 200 (twice ++ [unreadable]) "").reply.header? "X-BuilD" =
          (Received.mk 200 twice "").reply.header? "X-BuilD" := by
  obtain ⟨hsend, hvalue, -, hcase, hrecased, hskip⟩ := header?_exact
  have hname : SameName "X-BuilD" "x-build" := by decide
  have hname' : SameName "x-build" "X-BuilD" := by decide
  have hreads : Header.Reads ⟨"x-build", [52, 50]⟩ "42" := ⟨by simp, rfl⟩
  have hheaders : List.Forall₂ (fun a b : Header => SameName a.name b.name ∧ a.value = b.value)
      twice twiceRecased := by decide
  have hunreadable : ¬ ∃ text, unreadable.Reads text := by
    rintro ⟨text, hbytes, -⟩
    exact absurd (hbytes 255 List.mem_cons_self) (by decide)
  refine ⟨hsend _ _ _ _ _ rfl, ?_, ⟨hname, hcase _ _ _ hname⟩, ⟨hheaders, ?_⟩, hunreadable, ?_⟩
  · -- nothing comes after the second value
    refine (hvalue _ _ _).2 ⟨[⟨"X-Build", [52, 49]⟩, ⟨"Date", [49]⟩], ⟨"x-build", [52, 50]⟩, [],
      rfl, ⟨hname', hreads⟩, ?_⟩
    intro other hmem
    cases hmem
  · exact hrecased ⟨200, twice, ""⟩ ⟨200, twiceRecased, ""⟩ hheaders "date"
  · exact hskip 200 twice unreadable [] "" "X-BuilD" (.inr hunreadable)

end Received

end DocQuery
