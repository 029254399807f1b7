import DocQuery.Path.Walk
import DocQuery.Proofs.Results
import Mathlib.Data.List.Infix

/-!
# Walking a path

A segment fails for want of an object or an array, or of the member or item it names
(`Segment.Fails`). A walk that fails stops after exactly one prefix of its path, and the failure has
the cause found there (`Path.get_eq_error_iff`, `Path.StopsAfter.unique`). Walking a path that is put
together from two is walking the first and then the second, failures included
(`Path.get_append_exact`).
-/

set_option autoImplicit false

namespace DocQuery

/-! ## Members and items -/

namespace Value

/-- The value is an object with a member. -/
def HasMember (tree : Value) (name : String) (member : Value) : Prop :=
  ∃ members : Dict Value, tree = object members ∧ members.find? name = some member

/-- Why the value has no member of a name: it is no object, or an object without that key. -/
def LacksMember (tree : Value) (name : String) (cause : FieldError) : Prop :=
  (tree.kind ≠ .object ∧ cause = .typeMismatch .object tree.kind) ∨
    ∃ members : Dict Value, tree = object members ∧ members.find? name = none ∧
      cause = .keyNotFound name

/-- The value is an array with an item at a position. -/
def HasItem (tree : Value) (position : Nat) (item : Value) : Prop :=
  ∃ items, tree = array items ∧ items[position]? = some item

/-- Why the value has no item at a position: it is no array, or an array that is too short. -/
def LacksItem (tree : Value) (position : Nat) (cause : FieldError) : Prop :=
  (tree.kind ≠ .array ∧ cause = .typeMismatch .array tree.kind) ∨
    ∃ items, tree = array items ∧ items.length ≤ position ∧ cause = .indexNotFound position

end Value

section

variable {name : String} {position : Nat} {tree : Value}

theorem step_key_eq_ok_iff {member : Value} :
    (Segment.key name).step tree = .ok member ↔ tree.HasMember name member := by
  cases tree with
  | object members =>
      cases hfind : members.find? name with
      | none => simp [Segment.step, Value.asObject?, Value.HasMember, hfind]
      | some found => simp [Segment.step, Value.asObject?, Value.HasMember, hfind]
  | _ => simp [Segment.step, Value.asObject?, Value.HasMember]

theorem step_key_eq_error_iff {cause : FieldError} :
    (Segment.key name).step tree = .error cause ↔ tree.LacksMember name cause := by
  cases tree with
  | object members =>
      cases hfind : members.find? name with
      | none => simp [Segment.step, Value.asObject?, Value.LacksMember, Value.kind, hfind, eq_comm]
      | some found => simp [Segment.step, Value.asObject?, Value.LacksMember, Value.kind, hfind]
  | _ => simp [Segment.step, Value.asObject?, Value.LacksMember, Value.kind, eq_comm]

theorem step_index_eq_ok_iff {item : Value} :
    (Segment.index position).step tree = .ok item ↔ tree.HasItem position item := by
  cases tree with
  | array items =>
      cases hitem : items[position]? with
      | none => simp [Segment.step, Value.asArray?, Value.HasItem, hitem]
      | some found => simp [Segment.step, Value.asArray?, Value.HasItem, hitem]
  | _ => simp [Segment.step, Value.asArray?, Value.HasItem]

theorem step_index_eq_error_iff {cause : FieldError} :
    (Segment.index position).step tree = .error cause ↔ tree.LacksItem position cause := by
  cases tree with
  | array items =>
      cases hitem : items[position]? with
      | none =>
          have hshort := List.getElem?_eq_none_iff.1 hitem
          simp [Segment.step, Value.asArray?, Value.LacksItem, Value.kind, hshort, eq_comm]
      | some found =>
          have hlong := Nat.not_le.2 (List.getElem?_eq_some_iff.1 hitem).1
          simp [Segment.step, Value.asArray?, Value.LacksItem, Value.kind, hitem, hlong]
  | _ => simp [Segment.step, Value.asArray?, Value.LacksItem, Value.kind, eq_comm]

/-- A member is there, or there is a reason why it is not, and not both. -/
theorem exists_lacksMember_iff :
    (∃ cause, tree.LacksMember name cause) ↔ ¬ ∃ member, tree.HasMember name member := by
  simp only [← step_key_eq_ok_iff, ← step_key_eq_error_iff]
  cases (Segment.key name).step tree with
  | ok member => simp
  | error cause => simp

end

/-! ## Segments that fail -/

namespace Segment

/-- Why a segment leads nowhere: what it names is missing, or the value is not of the kind that has
such parts. -/
def Fails : Segment → Value → FieldError → Prop
  | key name, v, cause => v.LacksMember name cause
  | index position, v, cause => v.LacksItem position cause

theorem step_eq_error_iff {segment : Segment} {v : Value} {cause : FieldError} :
    segment.step v = .error cause ↔ segment.Fails v cause := by
  cases segment with
  | key name => exact step_key_eq_error_iff
  | index position => exact step_index_eq_error_iff

/-- The failure of one segment names no path. -/
theorem Fails.ne_pathNotFound {segment : Segment} {v : Value} {cause : FieldError}
    (h : segment.Fails v cause) (path : Path) (inner : FieldError) :
    cause ≠ .pathNotFound path inner := by
  cases segment with
  | key name =>
      rcases h with ⟨-, rfl⟩ | ⟨members, -, -, rfl⟩
      · rintro ⟨⟩
      · rintro ⟨⟩
  | index position =>
      rcases h with ⟨-, rfl⟩ | ⟨items, -, -, rfl⟩
      · rintro ⟨⟩
      · rintro ⟨⟩

end Segment

/-! ## Walks -/

namespace Path

/-- The second part of a path is walked from where the first one leads. -/
theorem walk_append (first second : Path) (v : Value) :
    walk (first ++ second) v = walk first v >>= walk second := by
  induction first generalizing v with
  | nil => rfl
  | cons segment first ih =>
      rw [List.cons_append, walk, walk]
      cases segment.step v with
      | error e => rfl
      | ok next => exact ih next

/-- A path of one segment is one step. -/
theorem walk_singleton (segment : Segment) (v : Value) : walk [segment] v = segment.step v := by
  rw [walk]
  cases segment.step v <;> rfl

theorem get_eq_ok_iff {path : Path} {root v : Value} :
    path.get root = .ok v ↔ path.walk root = .ok v :=
  mapError_eq_ok_iff

theorem get_eq_error_iff {path : Path} {root : Value} {e : FieldError} :
    path.get root = .error e ↔
      ∃ cause, path.walk root = .error cause ∧ e = .pathNotFound path cause :=
  mapError_eq_error_iff

/-- The failure of a path names the path, so only its cause can differ. -/
theorem get_eq_pathNotFound_iff {path : Path} {root : Value} {cause : FieldError} :
    path.get root = .error (.pathNotFound path cause) ↔ path.walk root = .error cause := by
  rw [get_eq_error_iff]
  constructor
  · rintro ⟨_, hwalk, ⟨⟩⟩
    exact hwalk
  · intro hwalk
    exact ⟨cause, hwalk, rfl⟩

/-- From where the first part of a path leads, the second part goes on as the whole path does. -/
theorem walk_append_of_get {first second : Path} {root v : Value} (h : first.get root = .ok v) :
    walk (first ++ second) root = walk second v := by
  rw [walk_append, get_eq_ok_iff.1 h]
  rfl

/-! ## Where a walk stops -/

/-- The walk of a path stops after a prefix of it: the prefix leads to a value, and the segment after
the prefix fails there. -/
def StopsAfter (path : Path) (root : Value) (before : Path) (cause : FieldError) : Prop :=
  ∃ segment after v, path = before ++ segment :: after ∧ before.get root = .ok v ∧
    segment.Fails v cause

/-- A walk fails when it stops somewhere, and with the failure of the segment there. -/
theorem walk_eq_error_iff_stopsAfter {path : Path} {root : Value} {cause : FieldError} :
    path.walk root = .error cause ↔ ∃ before, path.StopsAfter root before cause := by
  constructor
  · intro h
    induction path generalizing root with
    | nil => cases h
    | cons segment path ih =>
        rw [walk] at h
        cases hstep : segment.step root with
        | error e =>
            -- the walk stops where it starts
            rw [hstep] at h
            obtain rfl := Except.error.inj h
            exact ⟨[], segment, path, root, rfl, rfl, Segment.step_eq_error_iff.1 hstep⟩
        | ok next =>
            -- the walk stops further on, and the segment that was walked lengthens the prefix
            rw [hstep] at h
            obtain ⟨before, last, after, v, rfl, hget, hfails⟩ := ih h
            refine ⟨segment :: before, last, after, v, rfl, ?_, hfails⟩
            rw [get_eq_ok_iff] at hget ⊢
            rw [walk, hstep]
            exact hget
  · rintro ⟨before, segment, after, v, rfl, hget, hfails⟩
    rw [walk_append_of_get hget, walk, Segment.step_eq_error_iff.2 hfails]
    rfl

/-- No prefix leads past the place where a walk stops. -/
theorem StopsAfter.prefix_of_get {path before reached : Path} {root v : Value} {cause : FieldError}
    (h : path.StopsAfter root before cause) (hreached : reached <+: path)
    (hget : reached.get root = .ok v) : reached <+: before := by
  obtain ⟨segment, after, v', rfl, hbefore, hfails⟩ := h
  rcases List.prefix_or_prefix_of_prefix hreached (List.prefix_append before _) with hle | ⟨rest, rfl⟩
  · exact hle
  cases rest with
  | nil => simp
  | cons next rest =>
      -- a longer prefix would have walked the segment that fails
      obtain ⟨rfl, -⟩ := List.cons_prefix_cons.1 ((List.prefix_append_right_inj before).1 hreached)
      have hwalk := walk_eq_error_iff_stopsAfter.2
        ⟨before, next, rest, v', rfl, hbefore, hfails⟩
      rw [get_eq_ok_iff, hwalk] at hget
      cases hget

/-- A walk stops in one place. -/
theorem StopsAfter.unique {path before before' : Path} {root : Value} {cause cause' : FieldError}
    (h : path.StopsAfter root before cause) (h' : path.StopsAfter root before' cause') :
    before = before' := by
  -- what is in front of either place leads somewhere, so it does not reach past the other
  have hle {a b : Path} {c c' : FieldError} (ha : path.StopsAfter root a c)
      (hb : path.StopsAfter root b c') : a <+: b := by
    obtain ⟨segment, after, v, hpath, hget, -⟩ := ha
    exact hb.prefix_of_get ⟨segment :: after, hpath.symm⟩ hget
  exact (hle h h').eq_of_length_le (hle h' h).length_le

/-- **Walking one path after another.** From where the first path leads, the whole path leads where
the second one does and fails as it does; and it fails as the first one does. A walk that fails names
its path and the failure of one segment, and there is exactly one prefix of the path that leads
somewhere while the segment after it fails there. -/
theorem get_append_exact (first second : Path) (root : Value) :
    (∀ m, first.get root = .ok m →
      (∀ x, (first ++ second).get root = .ok x ↔ second.get m = .ok x) ∧
      ∀ cause, (first ++ second).get root = .error (.pathNotFound (first ++ second) cause) ↔
        second.get m = .error (.pathNotFound second cause)) ∧
    (∀ cause, first.get root = .error (.pathNotFound first cause) →
      (first ++ second).get root = .error (.pathNotFound (first ++ second) cause)) ∧
    ∀ (path : Path) (e : FieldError), path.get root = .error e →
      ∃ cause, e = .pathNotFound path cause ∧ (∀ inner c, cause ≠ .pathNotFound inner c) ∧
        (∃! before, ∃ c, path.StopsAfter root before c) ∧
        ∀ before c, path.StopsAfter root before c → c = cause := by
  refine ⟨?_, ?_, ?_⟩
  · intro m hm
    refine ⟨?_, ?_⟩
    · intro x
      rw [get_eq_ok_iff, get_eq_ok_iff, walk_append_of_get hm]
    · intro cause
      rw [get_eq_pathNotFound_iff, get_eq_pathNotFound_iff, walk_append_of_get hm]
  · intro cause h
    rw [get_eq_pathNotFound_iff] at h ⊢
    rw [walk_append, h]
    rfl
  · intro path e h
    obtain ⟨cause, hwalk, rfl⟩ := get_eq_error_iff.1 h
    obtain ⟨before, hstops⟩ := walk_eq_error_iff_stopsAfter.1 hwalk
    refine ⟨cause, rfl, ?_, ⟨before, ⟨cause, hstops⟩, ?_⟩, ?_⟩
    · obtain ⟨segment, after, v, -, -, hfails⟩ := hstops
      exact hfails.ne_pathNotFound
    · rintro other ⟨c, hother⟩
      exact hother.unique hstops
    · intro other c hother
      have hcause := walk_eq_error_iff_stopsAfter.2 ⟨other, hother⟩
      rw [hwalk] at hcause
      exact (Except.error.inj hcause).symm

/-- An object with an array of one item. -/
def oneItem : Value := .ofMembers [("items", .array [.null])]

/-- The array has no item after its first, and another key fails before its array is looked into. -/
theorem get_append_exact_oneItem :
    (Path.ofKeys ["items"] ++ Path.ofIndexes [0]).get oneItem = .ok .null ∧
      (Path.ofKeys ["items"] ++ Path.ofIndexes [1]).get oneItem =
        .error (.pathNotFound [.key "items", .index 1] (.indexNotFound 1)) ∧
      (Path.ofKeys ["item"] ++ Path.ofIndexes [0]).get oneItem =
        .error (.pathNotFound [.key "item", .index 0] (.keyNotFound "item")) ∧
      ∃! before, ∃ c, StopsAfter [.key "items", .index 1] oneItem before c := by
  have hitems : (Path.ofKeys ["items"]).get oneItem = .ok (.array [.null]) := rfl
  obtain ⟨hfirst, -, -⟩ := get_append_exact (Path.ofKeys ["items"]) (Path.ofIndexes [0]) oneItem
  obtain ⟨hsecond, -, hstops⟩ :=
    get_append_exact (Path.ofKeys ["items"]) (Path.ofIndexes [1]) oneItem
  obtain ⟨-, hother, -⟩ := get_append_exact (Path.ofKeys ["item"]) (Path.ofIndexes [0]) oneItem
  have hshort := ((hsecond _ hitems).2 (.indexNotFound 1)).2 rfl
  obtain ⟨cause, -, -, hunique, -⟩ := hstops _ _ hshort
  exact ⟨((hfirst _ hitems).1 .null).2 rfl, hshort, hother _ rfl, hunique⟩

end Path

end DocQuery
