import DocQuery.Proofs.Query.Unambiguous

/-!
# Pages and the choices behind them

A page gets its options by choices made one after another. Every choice is about one setting, and the
two cursors are about the same one. A choice decides what is written for its setting and leaves the
other settings as they are (`Paginate.written_choose`), so after any number of choices the last one
about each setting counts (`Paginate.written_run_of_isLast`). The call of the page has the set, the
members of these last choices, and no other members (`Paginate.build_run_exact`).
-/

set_option autoImplicit false

namespace DocQuery.Paginate

/-- What a choice is about. -/
inductive Setting where
  /-- Where the page starts. -/
  | cursor
  | ts
  | size
  | events
  | sources
  deriving DecidableEq

/-- The setting that a choice is about. -/
def Choice.setting : Choice → Setting
  | before _ => .cursor
  | after _ => .cursor
  | ts _ => .ts
  | size _ => .size
  | events _ => .events
  | sources _ => .sources

/-- The member that a choice asks for. A flag that is switched off asks for none. -/
def Choice.member? : Choice → Option (String × Expr)
  | before position => some ("before", position)
  | after position => some ("after", position)
  | ts time => some ("ts", time)
  | size count => some ("size", count)
  | events on => if on then some ("events", Expr.ofBool true) else none
  | sources on => if on then some ("sources", Expr.ofBool true) else none

/-- The choice is the last one about its setting. -/
def IsLast (choices : List Choice) (choice : Choice) : Prop :=
  ∃ earlier later, choices = earlier ++ choice :: later ∧
    ∀ other ∈ later, other.setting ≠ choice.setting

/-- The page after choices, from the first to the last. -/
def run (page : Paginate) (choices : List Choice) : Paginate := choices.foldl choose page

/-- The member that a page writes for a setting. -/
def written (page : Paginate) : Setting → Option (String × Expr)
  | .cursor => page.cursor.map fun cursor => (cursor.name, cursor.position)
  | .ts => page.ts.map fun time => ("ts", time)
  | .size => page.size.map fun count => ("size", count)
  | .events => if page.events then some ("events", Expr.ofBool true) else none
  | .sources => if page.sources then some ("sources", Expr.ofBool true) else none

/-! ## One choice -/

/-- **A choice decides what is written for its setting, and nothing else.** -/
theorem written_choose (page : Paginate) (choice : Choice) (setting : Setting) :
    (page.choose choice).written setting =
      if choice.setting = setting then choice.member? else page.written setting := by
  cases choice with
  | before position => cases setting <;> rfl
  | after position => cases setting <;> rfl
  | ts time => cases setting <;> rfl
  | size count => cases setting <;> rfl
  | events on => cases setting <;> rfl
  | sources on => cases setting <;> rfl

theorem set_choose (page : Paginate) (choice : Choice) : (page.choose choice).set = page.set := by
  cases choice <;> rfl

/-- A page is its set and what it writes. -/
theorem eq_of_written {page other : Paginate} (hset : page.set = other.set)
    (hwritten : ∀ setting, page.written setting = other.written setting) : page = other := by
  rcases page with ⟨set, cursor, ts, size, events, sources⟩
  rcases other with ⟨set', cursor', ts', size', events', sources'⟩
  have hcursor : cursor = cursor' := by
    have h := hwritten .cursor
    rcases cursor with _ | _ | _ <;> rcases cursor' with _ | _ | _ <;>
      simp_all [written, Cursor.name, Cursor.position]
  have hts : ts = ts' := by
    have h := hwritten .ts
    cases ts <;> cases ts' <;> simp_all [written]
  have hsize : size = size' := by
    have h := hwritten .size
    cases size <;> cases size' <;> simp_all [written]
  have hevents : events = events' := by
    have h := hwritten .events
    cases events <;> cases events' <;> simp_all [written]
  have hsources : sources = sources' := by
    have h := hwritten .sources
    cases sources <;> cases sources' <;> simp_all [written]
  simp only at hset
  rw [hset, hcursor, hts, hsize, hevents, hsources]

/-- Choices about different settings can be made in either order. -/
theorem choose_comm (page : Paginate) {first second : Choice}
    (h : first.setting ≠ second.setting) :
    (page.choose first).choose second = (page.choose second).choose first := by
  apply eq_of_written
  · simp only [set_choose]
  · intro setting
    simp only [written_choose]
    by_cases hfirst : first.setting = setting
    · have hsecond : second.setting ≠ setting := fun hsecond => h (hfirst.trans hsecond.symm)
      rw [if_pos hfirst, if_neg hsecond, if_pos hfirst]
    · rw [if_neg hfirst, if_neg hfirst]

/-! ## Any number of choices -/

theorem run_append (page : Paginate) (choices more : List Choice) :
    page.run (choices ++ more) = (page.run choices).run more :=
  List.foldl_append

theorem run_cons (page : Paginate) (choice : Choice) (choices : List Choice) :
    page.run (choice :: choices) = (page.choose choice).run choices :=
  rfl

theorem set_run (page : Paginate) (choices : List Choice) : (page.run choices).set = page.set := by
  induction choices generalizing page with
  | nil => rfl
  | cons choice choices ih =>
      have hrest := ih (page.choose choice)
      rw [set_choose] at hrest
      exact hrest

/-- Choices about other settings do not change what is written for a setting. -/
theorem written_run_of_forall_ne (page : Paginate) {choices : List Choice} {setting : Setting}
    (h : ∀ choice ∈ choices, choice.setting ≠ setting) :
    (page.run choices).written setting = page.written setting := by
  induction choices generalizing page with
  | nil => rfl
  | cons choice choices ih =>
      rw [List.forall_mem_cons] at h
      have hrest := ih (page.choose choice) h.2
      rw [written_choose, if_neg h.1] at hrest
      exact hrest

/-- **The last choice about a setting counts.** -/
theorem written_run_of_isLast (page : Paginate) {choices : List Choice} {choice : Choice}
    (h : IsLast choices choice) :
    (page.run choices).written choice.setting = choice.member? := by
  obtain ⟨earlier, later, rfl, hlater⟩ := h
  rw [run_append]
  -- the later choices are about other settings
  have hrest := written_run_of_forall_ne ((page.run earlier).choose choice) hlater
  rw [written_choose, if_pos rfl] at hrest
  exact hrest

/-- What was written for a setting before bears only on what is written for it afterwards. -/
theorem written_run_congr {page other : Paginate} {setting : Setting}
    (h : page.written setting = other.written setting) (choices : List Choice) :
    (page.run choices).written setting = (other.run choices).written setting := by
  induction choices generalizing page other with
  | nil => exact h
  | cons choice choices ih =>
      apply ih
      rw [written_choose, written_choose, h]

/-- A choice that is made again later, about the same setting, might as well not have been made. -/
theorem choose_run_choose (page : Paginate) {first last : Choice}
    (h : first.setting = last.setting) (between : List Choice) :
    ((page.choose first).run between).choose last = (page.run between).choose last := by
  apply eq_of_written
  · simp only [set_choose, set_run]
  · intro setting
    rw [written_choose, written_choose]
    by_cases hlast : last.setting = setting
    · rw [if_pos hlast, if_pos hlast]
    · rw [if_neg hlast, if_neg hlast]
      apply written_run_congr
      rw [written_choose, if_neg (h ▸ hlast)]

/-! ## Last choices -/

theorem IsLast.mem {choices : List Choice} {choice : Choice} (h : IsLast choices choice) :
    choice ∈ choices := by
  obtain ⟨earlier, later, rfl, -⟩ := h
  simp

/-- The last choices of a list are those of its tail, and its head when the tail is about other
settings. -/
theorem isLast_cons {first choice : Choice} {choices : List Choice} :
    IsLast (first :: choices) choice ↔
      IsLast choices choice ∨
        choice = first ∧ ∀ other ∈ choices, other.setting ≠ choice.setting := by
  constructor
  · rintro ⟨earlier, later, heq, hlater⟩
    cases earlier with
    | nil =>
        obtain ⟨rfl, rfl⟩ := List.cons.inj heq
        exact .inr ⟨rfl, hlater⟩
    | cons head earlier =>
        obtain ⟨-, htail⟩ := List.cons.inj heq
        exact .inl ⟨earlier, later, htail, hlater⟩
  · rintro (⟨earlier, later, rfl, hlater⟩ | ⟨rfl, hlater⟩)
    · exact ⟨first :: earlier, later, rfl, hlater⟩
    · exact ⟨[], choices, rfl, hlater⟩

/-- A setting has a last choice when it was chosen at all. -/
theorem exists_isLast_iff {choices : List Choice} {setting : Setting} :
    (∃ last, IsLast choices last ∧ last.setting = setting) ↔
      ∃ choice ∈ choices, choice.setting = setting := by
  constructor
  · rintro ⟨last, hlast, hsetting⟩
    exact ⟨last, hlast.mem, hsetting⟩
  · intro h
    induction choices with
    | nil => simp at h
    | cons first choices ih =>
        by_cases hlater : ∃ choice ∈ choices, choice.setting = setting
        · obtain ⟨last, hlast, hsetting⟩ := ih hlater
          exact ⟨last, isLast_cons.2 (.inl hlast), hsetting⟩
        · -- the first choice is the only one about the setting
          have hfirst : first.setting = setting := by
            simpa [hlater] using h
          refine ⟨first, isLast_cons.2 (.inr ⟨rfl, ?_⟩), hfirst⟩
          intro other hmem hother
          exact hlater ⟨other, hmem, hother.trans hfirst⟩

/-- A setting has at most one last choice. -/
theorem IsLast.unique {choices : List Choice} {choice other : Choice} (h : IsLast choices choice)
    (hother : IsLast choices other) (hsetting : choice.setting = other.setting) :
    choice = other := by
  induction choices with
  | nil => cases h.mem
  | cons first choices ih =>
      rcases isLast_cons.1 h with htail | ⟨rfl, hnone⟩
      · rcases isLast_cons.1 hother with hother | ⟨rfl, hnone⟩
        · exact ih htail hother
        · exact absurd hsetting (hnone choice htail.mem)
      · rcases isLast_cons.1 hother with hother | ⟨rfl, -⟩
        · exact absurd hsetting.symm (hnone other hother.mem)
        · rfl

/-! ## The call -/

/-- The names that members of a page can have. -/
def memberNames : List String :=
  ["paginate", "before", "after", "ts", "size", "events", "sources"]

theorem names_cursorMember (cursor : Option Cursor) :
    ((cursorMember cursor).map Prod.fst).Sublist ["before", "after"] := by
  rcases cursor with _ | position | position
  · apply List.nil_sublist
  · simp [cursorMember, Cursor.name]
  · simp [cursorMember, Cursor.name]

theorem names_optional (name : String) (e : Option Expr) :
    ((optional name e).map Prod.fst).Sublist [name] := by
  cases e with
  | none => apply List.nil_sublist
  | some e => apply List.Sublist.refl

theorem names_flag (name : String) (on : Bool) :
    ((flag name on).map Prod.fst).Sublist [name] := by
  cases on with
  | false => apply List.nil_sublist
  | true => apply List.Sublist.refl

/-- No name is written twice. -/
theorem nodup_names (page : Paginate) : (page.arguments.map Prod.fst).Nodup := by
  have hsublist : (page.arguments.map Prod.fst).Sublist memberNames := by
    rw [arguments_eq, options]
    simp only [List.map_cons, List.map_append]
    apply List.Sublist.cons_cons
    apply (names_cursorMember page.cursor).append
    apply (names_optional "ts" page.ts).append
    apply (names_optional "size" page.size).append
    exact (names_flag "events" page.events).append (names_flag "sources" page.sources)
  exact hsublist.nodup (by decide)

/-- The options of a page are what it writes for its settings. -/
theorem mem_options_iff {page : Paginate} {member : String × Expr} :
    member ∈ page.options ↔ ∃ setting, page.written setting = some member := by
  have hcursor : member ∈ cursorMember page.cursor ↔ page.written .cursor = some member := by
    cases hc : page.cursor <;> simp [cursorMember, written, hc, eq_comm]
  have hts : member ∈ optional "ts" page.ts ↔ page.written .ts = some member := by
    cases ht : page.ts <;> simp [optional, written, ht, eq_comm]
  have hsize : member ∈ optional "size" page.size ↔ page.written .size = some member := by
    cases hs : page.size <;> simp [optional, written, hs, eq_comm]
  have hevents : member ∈ flag "events" page.events ↔ page.written .events = some member := by
    cases he : page.events <;> simp [flag, written, he, eq_comm]
  have hsources : member ∈ flag "sources" page.sources ↔ page.written .sources = some member := by
    cases hs : page.sources <;> simp [flag, written, hs, eq_comm]
  rw [options]
  simp only [List.mem_append, hcursor, hts, hsize, hevents, hsources]
  constructor
  · rintro (h | h | h | h | h)
    · exact ⟨_, h⟩
    · exact ⟨_, h⟩
    · exact ⟨_, h⟩
    · exact ⟨_, h⟩
    · exact ⟨_, h⟩
  · rintro ⟨setting, h⟩
    cases setting with
    | cursor => exact .inl h
    | ts => exact .inr (.inl h)
    | size => exact .inr (.inr (.inl h))
    | events => exact .inr (.inr (.inr (.inl h)))
    | sources => exact .inr (.inr (.inr (.inr h)))

/-- The call of a page has its set and what it writes for its settings, and nothing else. -/
theorem find?_build (page : Paginate) (name : String) (e : Expr) :
    page.build.find? name = some e ↔
      (name = "paginate" ∧ e = page.set) ∨ ∃ setting, page.written setting = some (name, e) := by
  rw [build, Expr.find?_members, ← Dict.find?_ofList, Dict.find?_ofList_eq_some_iff page.nodup_names,
    arguments_eq, List.mem_cons, mem_options_iff, Prod.mk.injEq]

/-- The call of a page of a set, after choices. -/
def callAfter (set : Expr) (choices : List Choice) : Expr := ((ofSet set).run choices).build

/-- A page without options writes nothing besides its set. -/
theorem written_ofSet (set : Expr) (setting : Setting) : (ofSet set).written setting = none := by
  cases setting <;> rfl

/-- What is written after choices is the member of a last choice. -/
theorem written_run_ofSet (set : Expr) (choices : List Choice) (member : String × Expr) :
    (∃ setting, ((ofSet set).run choices).written setting = some member) ↔
      ∃ choice, IsLast choices choice ∧ choice.member? = some member := by
  constructor
  · rintro ⟨setting, hwritten⟩
    by_cases hchosen : ∃ choice ∈ choices, choice.setting = setting
    · obtain ⟨last, hlast, rfl⟩ := exists_isLast_iff.2 hchosen
      rw [written_run_of_isLast _ hlast] at hwritten
      exact ⟨last, hlast, hwritten⟩
    · -- nothing was chosen, so the page writes what it wrote at the start
      have hnone : ∀ choice ∈ choices, choice.setting ≠ setting := by
        intro choice hmem hsetting
        exact hchosen ⟨choice, hmem, hsetting⟩
      rw [written_run_of_forall_ne _ hnone, written_ofSet] at hwritten
      cases hwritten
  · rintro ⟨choice, hlast, hmember⟩
    exact ⟨choice.setting, (written_run_of_isLast _ hlast).trans hmember⟩

theorem find?_callAfter (set : Expr) (choices : List Choice) (name : String) (e : Expr) :
    (callAfter set choices).find? name = some e ↔
      (name = "paginate" ∧ e = set) ∨
        ∃ choice, IsLast choices choice ∧ choice.member? = some (name, e) := by
  rw [callAfter, find?_build, written_run_ofSet, set_run]
  rfl

/-- Only choices about the cursor ask for a member with one of its names. -/
theorem setting_of_member? {choice : Choice} {name : String} {e : Expr}
    (hname : name = "before" ∨ name = "after") (h : choice.member? = some (name, e)) :
    choice.setting = .cursor := by
  cases choice with
  | before | after => rfl
  | ts | size | events | sources => rcases hname with rfl | rfl <;> simp [Choice.member?] at h

/-- The two cursors are never written together. -/
theorem not_before_and_after (set : Expr) (choices : List Choice) (start stop : Expr) :
    ¬ ((callAfter set choices).find? "before" = some start ∧
      (callAfter set choices).find? "after" = some stop) := by
  rintro ⟨hbefore, hafter⟩
  rw [find?_callAfter] at hbefore hafter
  simp only [String.reduceEq, false_and, false_or] at hbefore hafter
  obtain ⟨first, hfirst, hstart⟩ := hbefore
  obtain ⟨second, hsecond, hstop⟩ := hafter
  -- both members would come from the last choice about the cursor
  have hsetting : first.setting = second.setting := by
    rw [setting_of_member? (.inl rfl) hstart, setting_of_member? (.inr rfl) hstop]
  obtain rfl := hfirst.unique hsecond hsetting
  rw [hstart] at hstop
  simp at hstop

/-- **A page after any choices.** The call is an object with the set, with the member that the last
choice about each setting asks for, and with nothing else. A setting has a last choice, and only one,
when it was chosen at all; the two cursors share a setting, so at most one of them is written. Choices
about different settings can change places, and a choice counts for nothing when a later one is about
the same setting. -/
theorem build_run_exact (set : Expr) :
    (∀ choices, ∃ members : Dict Value, (callAfter set choices).value = .object members ∧
      ∀ name e, members.find? name = some e.value ↔
        (name = "paginate" ∧ e = set) ∨
          ∃ choice, IsLast choices choice ∧ choice.member? = some (name, e)) ∧
    (∀ choices setting, (∃ choice ∈ choices, choice.setting = setting) ↔
      ∃! choice, IsLast choices choice ∧ choice.setting = setting) ∧
    (∀ choices start stop, ¬ ((callAfter set choices).find? "before" = some start ∧
      (callAfter set choices).find? "after" = some stop)) ∧
    (∀ earlier later first second, first.setting ≠ second.setting →
      callAfter set (earlier ++ first :: second :: later) =
        callAfter set (earlier ++ second :: first :: later)) ∧
    ∀ earlier between later first last, first.setting = last.setting →
      callAfter set (earlier ++ first :: (between ++ last :: later)) =
        callAfter set (earlier ++ (between ++ last :: later)) := by
  refine ⟨?_, ?_, not_before_and_after set, ?_, ?_⟩
  · intro choices
    refine ⟨_, rfl, ?_⟩
    intro name e
    rw [← find?_callAfter, callAfter, build, Expr.members, Expr.find?, Value.ofMembers]
    simp only [Option.map_eq_some_iff]
    constructor
    · intro h
      exact ⟨_, h, rfl⟩
    · rintro ⟨v, h, rfl⟩
      exact h
  · intro choices setting
    rw [← exists_isLast_iff]
    constructor
    · rintro ⟨last, hlast, hsetting⟩
      refine ⟨last, ⟨hlast, hsetting⟩, ?_⟩
      rintro other ⟨hother, hsetting'⟩
      exact hother.unique hlast (hsetting'.trans hsetting.symm)
    · rintro ⟨last, hlast, -⟩
      exact ⟨last, hlast⟩
  · intro earlier later first second h
    simp only [callAfter, run_append, run_cons]
    rw [choose_comm _ h]
  · intro earlier between later first last h
    simp only [callAfter, run_append, run_cons]
    rw [choose_run_choose _ h]

/-- Both cursors are chosen, and a flag is switched on and off again. -/
def turns : List Choice :=
  [.before (.ofLong 1), .events true, .after (.ofLong 2), .size (.ofLong 10), .events false]

/-- Of the two cursors the later one is left, and of the flag nothing. The flag and the size can
change places, and the first cursor might as well not have been chosen. -/
theorem build_run_exact_turns :
    (∃ members : Dict Value, (callAfter .null turns).value = .object members ∧
      members.find? "paginate" = some .null ∧ members.find? "after" = some (.long 2) ∧
      members.find? "size" = some (.long 10)) ∧
    (∃! choice, IsLast turns choice ∧ choice.setting = .events) ∧
    ¬ ((callAfter .null turns).find? "before" = some (.ofLong 1) ∧
      (callAfter .null turns).find? "after" = some (.ofLong 2)) ∧
    ((Choice.size (.ofLong 10)).setting ≠ (Choice.events false).setting ∧
      callAfter .null turns = callAfter .null [.before (.ofLong 1), .events true,
        .after (.ofLong 2), .events false, .size (.ofLong 10)]) ∧
    (Choice.before (.ofLong 1)).setting = (Choice.after (.ofLong 2)).setting ∧
      callAfter .null turns = callAfter .null [.events true, .after (.ofLong 2),
        .size (.ofLong 10), .events false] := by
  obtain ⟨hmembers, hlast, hcursor, hswap, hdrop⟩ := build_run_exact .null
  refine ⟨?_, ?_, hcursor turns _ _, ?_, rfl, ?_⟩
  · obtain ⟨members, hvalue, hexact⟩ := hmembers turns
    refine ⟨members, hvalue, ?_, ?_, ?_⟩
    · exact (hexact "paginate" .null).2 (.inl ⟨rfl, rfl⟩)
    · refine (hexact "after" (.ofLong 2)).2 (.inr ⟨.after (.ofLong 2), ?_, rfl⟩)
      exact ⟨[.before (.ofLong 1), .events true], [.size (.ofLong 10), .events false], rfl,
        by decide⟩
    · refine (hexact "size" (.ofLong 10)).2 (.inr ⟨.size (.ofLong 10), ?_, rfl⟩)
      exact ⟨[.before (.ofLong 1), .events true, .after (.ofLong 2)], [.events false], rfl,
        by decide⟩
  · exact (hlast turns .events).1 ⟨.events true, by simp [turns], rfl⟩
  · refine ⟨by decide, ?_⟩
    exact hswap [.before (.ofLong 1), .events true, .after (.ofLong 2)] [] _ _ (by decide)
  · exact hdrop [] [.events true] [.size (.ofLong 10), .events false] _ _ rfl

end DocQuery.Paginate
