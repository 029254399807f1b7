import DocQuery.Client.Query
import DocQuery.Proofs.Field.Collection
import DocQuery.Proofs.Shape.RoundTrip
import DocQuery.Proofs.Value.Reading
import DocQuery.Proofs.Value.RoundTrip

/-!
# Queries are exact

A query goes through an exchange step by step, and each step has a failure of its own. An expression
without a wire form is not sent. Any other is sent once, and then the outcome is decided in order: by
the transport, by whether the body of the reply is a value, by the status, and by what that value
holds (`Client.query_exact`). A result comes only from a successful reply and is its member
`resource`. A refusal comes only from any other reply and has one error for each element of the
member `errors` (`Client.Answers`).
-/

set_option autoImplicit false

namespace DocQuery

/-! ## Members of a body -/

section

variable {name : String} {tree : Value}

theorem get_key_eq_ok_iff {member : Value} :
    (Path.ofKeys [name]).get tree = .ok member ↔ tree.HasMember name member := by
  rw [Path.get_eq_ok_iff, ← step_key_eq_ok_iff, Path.ofKeys, List.map_singleton, Path.walk_singleton]

theorem get_key_eq_error_iff {e : FieldError} :
    (Path.ofKeys [name]).get tree = .error e ↔
      ∃ cause, tree.LacksMember name cause ∧ e = .pathNotFound [.key name] cause := by
  simp only [Path.get_eq_error_iff, ← step_key_eq_error_iff, Path.ofKeys, List.map_singleton,
    Path.walk_singleton]

end

/-! ## Errors of a request -/

theorem decode_string_eq_ok_iff {v : Value} {s : String} :
    Shape.string.decode v = .ok s ↔ v = .string s := by
  refine expect_eq_ok_iff.trans ?_
  cases v <;> simp [Value.asString?]

/-- A list of values as they are is decoded from the array of them. -/
theorem decode_values_eq_ok_iff {v : Value} {items : List Value} :
    (Shape.list .value).decode v = .ok items ↔ v = .array items := by
  refine decodeArray_eq_ok_iff.trans ?_
  constructor
  · rintro ⟨items', rfl, h⟩
    have heq : List.Forall₂ Eq items' items := h.imp fun _ _ => Except.ok.inj
    rw [List.forall₂_eq_eq_eq] at heq
    rw [heq]
  · rintro rfl
    exact ⟨items, rfl, List.forall₂_same.2 fun _ _ => rfl⟩

namespace Response.ApiError

/-- The value says what the error says: it is an object with a code and a description, and with a
position if the error has one. A position that is null is none. -/
structure Reports (v : Value) (e : ApiError) : Prop where
  code : v.HasMember "code" (.string e.code)
  description : v.HasMember "description" (.string e.description)
  position : match e.position? with
    | some items => v.HasMember "position" (.array items)
    | none => v.HasMember "position" .null ∨ ∃ cause, v.LacksMember "position" cause

section

variable {members : Dict Value} {key : String}

/-- A text that has to be there. -/
theorem text_iff {s : String} :
    ((∃ v, members.find? key = some v ∧ Shape.string.decode v = .ok s) ∨
        members.find? key = none ∧ Shape.string.absent? = some s) ↔
      (Value.object members).HasMember key (.string s) := by
  constructor
  · rintro (⟨v, hfind, hv⟩ | ⟨-, ⟨⟩⟩)
    rw [decode_string_eq_ok_iff.1 hv] at hfind
    exact ⟨members, rfl, hfind⟩
  · rintro ⟨_, ⟨⟩, hfind⟩
    exact .inl ⟨_, hfind, rfl⟩

/-- A list that may be missing or null. -/
theorem list_iff {items? : Option (List Value)} :
    ((∃ v, members.find? key = some v ∧ (Shape.option (.list .value)).decode v = .ok items?) ∨
        members.find? key = none ∧ (Shape.option (.list .value)).absent? = some items?) ↔
      match items? with
      | some items => (Value.object members).HasMember key (.array items)
      | none => (Value.object members).HasMember key .null ∨
          ∃ cause, (Value.object members).LacksMember key cause := by
  constructor
  · rintro (⟨v, hfind, hv⟩ | ⟨hfind, habsent⟩)
    · rcases decode_option_eq_ok_iff.1 hv with ⟨rfl, rfl⟩ | ⟨items, -, hitems, rfl⟩
      · exact .inl ⟨members, rfl, hfind⟩
      · rw [decode_values_eq_ok_iff.1 hitems] at hfind
        exact ⟨members, rfl, hfind⟩
    · obtain rfl := Option.some.inj habsent
      exact .inr ⟨_, .inr ⟨members, rfl, hfind, rfl⟩⟩
  · intro h
    cases items? with
    | some items =>
        obtain ⟨_, ⟨⟩, hfind⟩ := h
        refine .inl ⟨_, hfind, decode_option_eq_ok_iff.2 (.inr ⟨items, ?_, ?_, rfl⟩)⟩
        · rintro ⟨⟩
        · exact decode_values_eq_ok_iff.2 rfl
    | none =>
        rcases h with ⟨_, ⟨⟩, hfind⟩ | ⟨cause, ⟨hkind, -⟩ | ⟨_, ⟨⟩, hfind, -⟩⟩
        · exact .inl ⟨_, hfind, rfl⟩
        · exact absurd rfl hkind
        · exact .inr ⟨hfind, rfl⟩

end

/-- **An error is decoded from exactly the values that report it.** -/
theorem decode_eq_ok_iff {v : Value} {e : ApiError} :
    apiError.decode v = .ok e ↔ Reports v e := by
  refine decode_record_eq_ok_iff.trans ⟨?_, ?_⟩
  · -- the fields are read one after another, each from the member at its key
    rintro ⟨members, rfl, h⟩
    obtain ⟨code, description, position, last⟩ := e
    obtain ⟨hcode, h⟩ := Fields.decode_cons_eq_ok_iff.1 h
    obtain ⟨hdescription, h⟩ := Fields.decode_cons_eq_ok_iff.1 h
    obtain ⟨hposition, -⟩ := Fields.decode_cons_eq_ok_iff.1 h
    exact ⟨text_iff.1 hcode, text_iff.1 hdescription, list_iff.1 hposition⟩
  · rintro ⟨hcode, hdescription, hposition⟩
    -- what has a code is an object
    obtain ⟨members, rfl, -⟩ := id hcode
    refine ⟨members, rfl, ?_⟩
    apply Fields.decode_cons_eq_ok_iff.2
    refine ⟨text_iff.2 hcode, Fields.decode_cons_eq_ok_iff.2 ?_⟩
    refine ⟨text_iff.2 hdescription, Fields.decode_cons_eq_ok_iff.2 ?_⟩
    exact ⟨list_iff.2 hposition, rfl⟩

/-- Any other value has the account of why it is no error. -/
theorem decode_eq_error_iff {v : Value} {e : FieldError} :
    apiError.decode v = .error e ↔ apiError.Explains v e := by
  have hkeys : apiError.DistinctKeys := distinctKeys apiError (by simp)
  exact (Shape.decides_decode apiError hkeys v).2 e

end Response.ApiError

/-! ## Bodies of replies -/

open Response (apiError)
open Response.ApiError (Reports)

/-- The status is one of success. -/
def Reply.Succeeds (reply : Reply) : Prop := 200 ≤ reply.status ∧ reply.status ≤ 299

theorem Reply.isSuccess_iff {reply : Reply} : reply.isSuccess = true ↔ reply.Succeeds := by
  rw [isSuccess, decide_eq_true_iff, Succeeds]
  omega

namespace Client

/-- What a query makes of the body of a successful reply: the member `resource`, or why there is
none. -/
structure Delivers (tree : Value) (result : Except ClientError Value) : Prop where
  ok_iff : ∀ r, result = .ok r ↔ tree.HasMember "resource" r
  otherwise : (¬ ∃ r, tree.HasMember "resource" r) →
    ∃ cause, tree.LacksMember "resource" cause ∧
      result = .error (.shape (.pathNotFound [.key "resource"] cause))

/-- Why a body lists no errors. -/
inductive NoErrors (tree : Value) : FieldError → Prop where
  /-- There is no member `errors`. -/
  | missing {cause : FieldError} (lacks : tree.LacksMember "errors" cause) :
      NoErrors tree (.pathNotFound [.key "errors"] cause)
  /-- The member is no array. -/
  | mismatch {v : Value} (member : tree.HasMember "errors" v) (kind_ne : v.kind ≠ .array) :
      NoErrors tree (.typeMismatch .array v.kind)
  /-- Some elements of the array are no errors. Exactly these are named, by their positions and
  ascending, each with the account of why it is none. -/
  | elements {items : List Value} {failed : List (Nat × FieldError)}
      (member : tree.HasMember "errors" (.array items)) (ne_nil : failed ≠ [])
      (ascending : failed.Pairwise fun a b => a.1 < b.1)
      (mem_iff : ∀ position e, (position, e) ∈ failed ↔
        ∃ item, items[position]? = some item ∧ apiError.Explains item e) :
      NoErrors tree (.collect (failed.map fun failure =>
        ([.key "errors", .index failure.1], failure.2)))

/-- What a query makes of the body of any other reply: a refusal with one error for each element of
the member `errors`, or why that can not be. -/
structure Refuses (status : Nat) (tree : Value) (result : Except ClientError Value) : Prop where
  refused_iff : ∀ errors, result = .error (.refused status errors) ↔
    ∃ items, tree.HasMember "errors" (.array items) ∧ List.Forall₂ Reports items errors
  otherwise : (¬ ∃ items errors, tree.HasMember "errors" (.array items) ∧
      List.Forall₂ Reports items errors) →
    ∃ e, NoErrors tree e ∧ result = .error (.shape e)

/-- What a query makes of a reply: the body comes first, whatever the status is, and then the
status. -/
inductive Answers (reply : Reply) (result : Except ClientError Value) : Prop where
  | malformed {e : ValueError} (body : Value.parse reply.body = .error e)
      (eq_body : result = .error (.body e))
  | success {tree : Value} (body : Value.parse reply.body = .ok tree) (status : reply.Succeeds)
      (delivers : Delivers tree result)
  | refusal {tree : Value} (body : Value.parse reply.body = .ok tree) (status : ¬ reply.Succeeds)
      (refuses : Refuses reply.status tree result)

/-! ### The two members -/

theorem resource_get (tree : Value) : resource.get tree = (Path.ofKeys ["resource"]).get tree := by
  cases hpath : (Path.ofKeys ["resource"]).get tree with
  | ok member => exact Field.get_of_path_ok resource hpath
  | error e => exact Field.get_of_path_error resource hpath

/-- The errors that are read are those that the elements of the member report, one for each. -/
theorem errors_eq_ok_iff {tree : Value} {refusals : List Response.ApiError} :
    errors.get tree = .ok refusals ↔
      ∃ items, tree.HasMember "errors" (.array items) ∧ List.Forall₂ Reports items refusals := by
  constructor
  · intro h
    obtain ⟨v, hpath, hv⟩ := exists_of_bind_eq_ok h
    obtain ⟨items, rfl, hitems⟩ := decodeArray_eq_ok_iff.1 hv
    refine ⟨items, get_key_eq_ok_iff.1 hpath, hitems.imp fun _ _ => ?_⟩
    exact Response.ApiError.decode_eq_ok_iff.1
  · rintro ⟨items, hmember, hitems⟩
    have hpath := get_key_eq_ok_iff.2 hmember
    apply (Field.collect_eq_ok_iff hpath (Field.root.withShape apiError) refusals).2
    exact hitems.imp fun _ _ => Response.ApiError.decode_eq_ok_iff.2

/-- Where the errors can not be read, the failure says why there are none. -/
theorem noErrors_of_errors {tree : Value} {e : FieldError} (h : errors.get tree = .error e) :
    NoErrors tree e := by
  cases hpath : (Path.ofKeys ["errors"]).get tree with
  | error cause =>
      rw [Field.get_of_path_error errors hpath] at h
      obtain rfl := Except.error.inj h
      obtain ⟨cause, hlacks, rfl⟩ := get_key_eq_error_iff.1 hpath
      exact .missing hlacks
  | ok v =>
      have hmember := get_key_eq_ok_iff.1 hpath
      by_cases hkind : v.kind = .array
      · obtain ⟨items, rfl⟩ := (kind_eq_array_iff v).1 hkind
        obtain ⟨failed, hfailed, hne, rfl⟩ :=
          (Field.collect_eq_error_iff hpath (Field.root.withShape apiError) e).1 h
        -- an element is read as it is, and is no error exactly when there is an account of that
        refine .elements hmember hne hfailed.ascending fun position e => ?_
        rw [hfailed.mem_iff]
        exact exists_congr fun item => and_congr_right fun _ =>
          Response.ApiError.decode_eq_error_iff
      · have hmismatch : errors.get tree = .error (.typeMismatch .array v.kind) :=
          Field.collect_of_kind_ne (Field.root.withShape apiError) hpath hkind
        obtain rfl := Except.error.inj (hmismatch.symm.trans h)
        exact .mismatch hmember hkind

/-! ### Replies -/

theorem delivers_resource (tree : Value) :
    Delivers tree ((resource.get tree).mapError .shape) := by
  rw [resource_get]
  constructor
  · intro r
    exact mapError_eq_ok_iff.trans get_key_eq_ok_iff
  · intro hnone
    obtain ⟨cause, hlacks⟩ := exists_lacksMember_iff.2 hnone
    refine ⟨cause, hlacks, ?_⟩
    rw [get_key_eq_error_iff.2 ⟨cause, hlacks, rfl⟩]
    rfl

/-- A refusal with the errors of a body. -/
def refuse (status : Nat) (tree : Value) : Except ClientError Value := do
  let refusals ← (errors.get tree).mapError .shape
  throw (.refused status refusals)

theorem refuses_refuse (status : Nat) (tree : Value) :
    Refuses status tree (refuse status tree) := by
  rw [refuse]
  -- the errors are read all together: a refusal has every one of them, or there is no refusal
  cases herrors : errors.get tree with
  | ok refusals =>
      constructor
      · intro errors
        rw [← errors_eq_ok_iff, herrors]
        constructor
        · rintro ⟨⟩
          rfl
        · rintro ⟨⟩
          rfl
      · intro hnone
        obtain ⟨items, hitems⟩ := errors_eq_ok_iff.1 herrors
        exact absurd ⟨items, refusals, hitems⟩ hnone
  | error e =>
      constructor
      · intro errors
        rw [← errors_eq_ok_iff, herrors]
        exact iff_of_false nofun nofun
      · intro _
        exact ⟨e, noErrors_of_errors herrors, rfl⟩

theorem interpret_of_malformed {reply : Reply} {e : ValueError}
    (h : Value.parse reply.body = .error e) : interpret reply = .error (.body e) := by
  rw [interpret, h]
  rfl

theorem interpret_of_succeeds {reply : Reply} {tree : Value}
    (h : Value.parse reply.body = .ok tree) (hstatus : reply.Succeeds) :
    interpret reply = (resource.get tree).mapError .shape := by
  rw [interpret, h]
  exact if_pos (Reply.isSuccess_iff.2 hstatus)

theorem interpret_of_not_succeeds {reply : Reply} {tree : Value}
    (h : Value.parse reply.body = .ok tree) (hstatus : ¬ reply.Succeeds) :
    interpret reply = refuse reply.status tree := by
  rw [interpret, h]
  exact if_neg fun hsuccess => hstatus (Reply.isSuccess_iff.1 hsuccess)

theorem answers_interpret (reply : Reply) : Answers reply (interpret reply) := by
  cases hbody : Value.parse reply.body with
  | error e => exact .malformed hbody (interpret_of_malformed hbody)
  | ok tree =>
      by_cases hstatus : reply.Succeeds
      · apply Answers.success hbody hstatus
        rw [interpret_of_succeeds hbody hstatus]
        exact delivers_resource tree
      · apply Answers.refusal hbody hstatus
        rw [interpret_of_not_succeeds hbody hstatus]
        exact refuses_refuse reply.status tree

section

variable {reply : Reply} {result : Except ClientError Value}

theorem Delivers.ne_refused {tree : Value} (h : Delivers tree result) (status : Nat)
    (errors : List Response.ApiError) : result ≠ .error (.refused status errors) := by
  rintro rfl
  by_cases hsome : ∃ r, tree.HasMember "resource" r
  · obtain ⟨r, hr⟩ := hsome
    cases (h.ok_iff r).2 hr
  · obtain ⟨cause, -, ⟨⟩⟩ := h.otherwise hsome

theorem Refuses.eq_refused_or_shape {status : Nat} {tree : Value} (h : Refuses status tree result) :
    (∃ errors, result = .error (.refused status errors)) ∨ ∃ e, result = .error (.shape e) := by
  by_cases hsome : ∃ items errors, tree.HasMember "errors" (.array items) ∧
      List.Forall₂ Reports items errors
  · obtain ⟨items, errors, hitems⟩ := hsome
    exact .inl ⟨errors, (h.refused_iff errors).2 ⟨items, hitems⟩⟩
  · obtain ⟨e, -, he⟩ := h.otherwise hsome
    exact .inr ⟨e, he⟩

theorem Answers.delivers (h : Answers reply result) {tree : Value}
    (hbody : Value.parse reply.body = .ok tree) (hstatus : reply.Succeeds) :
    Delivers tree result := by
  cases h with
  | malformed hbody' _ => cases hbody.symm.trans hbody'
  | success hbody' _ hdelivers =>
      obtain rfl := Except.ok.inj (hbody.symm.trans hbody')
      exact hdelivers
  | refusal _ hstatus' _ => exact absurd hstatus hstatus'

theorem Answers.refuses (h : Answers reply result) {tree : Value}
    (hbody : Value.parse reply.body = .ok tree) (hstatus : ¬ reply.Succeeds) :
    Refuses reply.status tree result := by
  cases h with
  | malformed hbody' _ => cases hbody.symm.trans hbody'
  | success _ hstatus' _ => exact absurd hstatus' hstatus
  | refusal hbody' _ hrefuses =>
      obtain rfl := Except.ok.inj (hbody.symm.trans hbody')
      exact hrefuses

/-- A result comes from a successful reply. -/
theorem Answers.succeeds_of_ok (h : Answers reply result) {r : Value} (hr : result = .ok r) :
    reply.Succeeds := by
  subst hr
  cases h with
  | malformed _ heq => cases heq
  | success _ hstatus _ => exact hstatus
  | refusal _ _ hrefuses => rcases hrefuses.eq_refused_or_shape with ⟨_, ⟨⟩⟩ | ⟨_, ⟨⟩⟩

/-- A refusal comes from a reply that is not successful, and has its status. -/
theorem Answers.status_of_refused (h : Answers reply result) {status : Nat}
    {errors : List Response.ApiError} (hrefused : result = .error (.refused status errors)) :
    status = reply.status ∧ ¬ reply.Succeeds := by
  subst hrefused
  cases h with
  | malformed _ heq => cases heq
  | success _ _ hdelivers => exact absurd rfl (hdelivers.ne_refused status errors)
  | refusal _ hstatus hrefuses =>
      rcases hrefuses.eq_refused_or_shape with ⟨_, ⟨⟩⟩ | ⟨_, ⟨⟩⟩
      exact ⟨rfl, hstatus⟩

end

/-! ## Queries -/

section

variable {transport : Request → Except TransportError Reply} {expr : Expr}

theorem query_of_refusal {refusal : NonFinite} (h : expr.value.serialize = .error refusal) :
    query transport expr = ([], .error (.encode refusal)) := by
  rw [query, h]

theorem query_of_failure {wire : String} (h : expr.value.serialize = .ok wire)
    {failure : TransportError} (hfailure : transport (.post "/" wire) = .error failure) :
    query transport expr = ([.post "/" wire], .error (.transport failure)) := by
  simp only [query, h, hfailure]

theorem query_of_reply {wire : String} (h : expr.value.serialize = .ok wire) {reply : Reply}
    (hreply : transport (.post "/" wire) = .ok reply) :
    query transport expr = ([.post "/" wire], interpret reply) := by
  simp only [query, h, hreply]

end

/-- **A query is exact.** With a double that is infinite or not a number anywhere in the expression,
nothing is sent. Otherwise the wire form of the expression is sent once, and the outcome is the
failure of the transport or what the reply says; a result comes from a successful reply only, and a
refusal from any other only. -/
theorem query_exact (transport : Request → Except TransportError Reply) (expr : Expr) :
    (¬ expr.value.AllFinite →
      ∃ refusal, query transport expr = ([], .error (.encode refusal))) ∧
    (expr.value.AllFinite → ∃ wire result, expr.value.serialize = .ok wire ∧
      query transport expr = ([⟨.post, "/", [], some wire⟩], result) ∧
      (∀ failure, transport ⟨.post, "/", [], some wire⟩ = .error failure →
        result = .error (.transport failure)) ∧
      ∀ reply, transport ⟨.post, "/", [], some wire⟩ = .ok reply →
        Answers reply result ∧ (∀ r, result = .ok r → reply.Succeeds) ∧
          ∀ status errors, result = .error (.refused status errors) →
            status = reply.status ∧ ¬ reply.Succeeds) := by
  constructor
  · intro hfinite
    rw [← Value.serialize_isOk_iff] at hfinite
    cases hwire : expr.value.serialize with
    | ok wire => exact absurd ⟨wire, hwire⟩ hfinite
    | error refusal => exact ⟨refusal, query_of_refusal hwire⟩
  · intro hfinite
    obtain ⟨wire, hwire⟩ := Value.serialize_isOk_iff.2 hfinite
    -- only this request is sent, so all of the transport that matters is its answer to it
    cases hexchange : transport (.post "/" wire) with
    | error failure =>
        refine ⟨wire, _, hwire, query_of_failure hwire hexchange, ?_, ?_⟩
        · intro failure' hfailure
          obtain rfl := Except.error.inj (hexchange.symm.trans hfailure)
          rfl
        · intro reply hreply
          cases hexchange.symm.trans hreply
    | ok reply =>
        refine ⟨wire, _, hwire, query_of_reply hwire hexchange, ?_, ?_⟩
        · intro failure hfailure
          cases hexchange.symm.trans hfailure
        · intro reply' hreply
          obtain rfl := Except.ok.inj (hexchange.symm.trans hreply)
          have h := answers_interpret reply
          exact ⟨h, fun _ => h.succeeds_of_ok, fun _ _ => h.status_of_refused⟩

/-- The text of a body with a result and with errors. -/
def mixedText : String :=
  "\x7b\"errors\":[\x7b\"code\":\"c\",\"description\":\"d\"\x7d],\"resource\":null\x7d"

/-- An error without a position. -/
def mixedError : Value := .ofMembers [("code", .string "c"), ("description", .string "d")]

/-- A body with a result and with errors. -/
def mixed : Value := .ofMembers [("errors", .array [mixedError]), ("resource", .null)]

theorem parse_mixedText : Value.parse mixedText = .ok mixed := by
  have hback : (Json.object (Dict.ofList [("errors", .array [.object (Dict.ofList
      [("code", .string "c"), ("description", .string "d")])]), ("resource", .null)])).ReadsBack := by
    decide
  have hstands : (Json.Written.object [("errors", .array [.object [("code", .string "c"),
      ("description", .string "d")]]), ("resource", .null)]).StandsIn mixedText :=
    (Json.scan_document hback).symm
  exact Value.parseWith_eq_ok_iff.2 ⟨_, hstands, by decide, rfl⟩

/-- The status decides which of both is taken from the same body, and an infinite expression is not
sent at all. -/
theorem query_exact_mixed :
    let request : Request := ⟨.post, "/", [], some "null"⟩
    let infinity := Binary64.ofMagnitude false Binary64.infinityMagnitude
    query (fun _ => .ok ⟨200, .nil, mixedText⟩) .null = ([request], .ok .null) ∧
      query (fun _ => .ok ⟨404, .nil, mixedText⟩) .null =
        ([request], .error (.refused 404 [("c", "d", none, ())])) ∧
      ∃ refusal, query (fun _ => .ok ⟨200, .nil, mixedText⟩) ⟨.double infinity⟩ =
        ([], .error (.encode refusal)) := by
  intro request infinity
  have hfinite : Expr.null.value.AllFinite := Value.serialize_isOk_iff.1 ⟨_, rfl⟩
  refine ⟨?_, ?_, ?_⟩
  · obtain ⟨wire, result, hwire, hquery, -, hreply⟩ :=
      (query_exact (fun _ => .ok ⟨200, .nil, mixedText⟩) .null).2 hfinite
    obtain rfl := Except.ok.inj hwire
    have hdelivers := (hreply _ rfl).1.delivers parse_mixedText ⟨by decide, by decide⟩
    rw [hquery, (hdelivers.ok_iff .null).2 ⟨_, rfl, rfl⟩]
    rfl
  · obtain ⟨wire, result, hwire, hquery, -, hreply⟩ :=
      (query_exact (fun _ => .ok ⟨404, .nil, mixedText⟩) .null).2 hfinite
    obtain rfl := Except.ok.inj hwire
    have hrefuses := (hreply _ rfl).1.refuses parse_mixedText fun h => absurd h.2 (by decide)
    have hreports : Reports mixedError ("c", "d", none, ()) :=
      ⟨⟨_, rfl, rfl⟩, ⟨_, rfl, rfl⟩, .inr ⟨_, .inr ⟨_, rfl, rfl, rfl⟩⟩⟩
    rw [hquery, (hrefuses.refused_iff _).2 ⟨_, ⟨_, rfl, rfl⟩, .cons hreports .nil⟩]
    rfl
  · apply (query_exact (fun _ => .ok ⟨200, .nil, mixedText⟩) ⟨.double infinity⟩).1
    intro hinfinite
    exact absurd (hinfinite infinity .whole) (by decide +kernel)

end Client

end DocQuery
