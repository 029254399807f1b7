import DocQuery.Client.Config
import DocQuery.Proofs.LastGiven
import Mathlib.Data.List.TakeWhile
import Mathlib.Data.String.Basic

/-!
# Settings of a connection

Settings are changed one after another. A change gives a value to one setting and leaves the others
as they are (`ConnectionSettings.value?_change`), so after any number of changes each setting has
the last value that was given to it, or the value it had at the start
(`ConnectionSettings.value?_changeAll`). An endpoint is kept without the slashes at its end, so the
addresses of a connection have exactly one slash where endpoint and path meet
(`Connection.connect_exact`).
-/

set_option autoImplicit false

namespace DocQuery

/-! ## Slashes at the ends of a text -/

/-- So many slashes. -/
def slashes (count : Nat) : String := String.ofList (List.replicate count '/')

/-- The second text is the first one without the slashes at its end. -/
def EndTrimmed (text rest : String) : Prop :=
  (∃ count, text = rest ++ slashes count) ∧ rest.toList.getLast? ≠ some '/'

/-- The second text is the first one without the slashes at its start. -/
def StartTrimmed (text rest : String) : Prop :=
  (∃ count, text = slashes count ++ rest) ∧ rest.toList.head? ≠ some '/'

theorem dropWhile_slash_eq_iff {cs rest : List Char} :
    cs.dropWhile (· == '/') = rest ↔
      (∃ count, cs = List.replicate count '/' ++ rest) ∧ rest.head? ≠ some '/' := by
  constructor
  · rintro rfl
    constructor
    · refine ⟨(cs.takeWhile (· == '/')).length, ?_⟩
      have hslashes : ∀ c ∈ cs.takeWhile (· == '/'), c = '/' := by
        intro c hc
        have hslash := List.mem_takeWhile_imp hc
        exact beq_iff_eq.1 hslash
      rw [← List.eq_replicate_of_mem hslashes, List.takeWhile_append_dropWhile]
    · intro hhead
      have hnot := List.head?_dropWhile_not (· == '/') cs
      rw [hhead] at hnot
      cases hnot
  · rintro ⟨⟨count, rfl⟩, hhead⟩
    rw [List.dropWhile_append_of_pos (by simp [List.mem_replicate])]
    cases rest with
    | nil => rfl
    | cons c rest =>
        rw [List.dropWhile_cons_of_neg]
        intro hc
        exact hhead (congrArg some (beq_iff_eq.1 hc))

theorem startTrimmed_iff {text rest : String} :
    StartTrimmed text rest ↔ String.ofList (text.toList.dropWhile (· == '/')) = rest := by
  rw [StartTrimmed, String.ofList_eq, dropWhile_slash_eq_iff]
  simp only [slashes, String.ext_iff, String.toList_append, String.toList_ofList]

theorem endTrimmed_iff {text rest : String} :
    EndTrimmed text rest ↔ trimSlashes text = rest := by
  have hback (cs ds : List Char) (count : Nat) :
      cs.reverse = List.replicate count '/' ++ ds.reverse ↔
        cs = ds ++ List.replicate count '/' := by
    rw [← List.reverse_inj]
    simp
  -- the end of the text is the start of the reversed text
  rw [EndTrimmed, trimSlashes, String.ofList_eq, List.reverse_eq_iff, dropWhile_slash_eq_iff]
  simp only [slashes, String.ext_iff, String.toList_append, String.toList_ofList, hback,
    List.head?_reverse]

theorem slashes_add (count more : Nat) :
    slashes (count + more) = slashes count ++ slashes more := by
  rw [slashes, List.replicate_add, String.ofList_append, ← slashes, ← slashes]

/-- Slashes in front of a text are trimmed too. -/
theorem StartTrimmed.slashes_append {text rest : String} (h : StartTrimmed text rest)
    (count : Nat) : StartTrimmed (slashes count ++ text) rest := by
  obtain ⟨⟨more, rfl⟩, hhead⟩ := h
  refine ⟨⟨count + more, ?_⟩, hhead⟩
  rw [slashes_add, String.append_assoc]

/-- Slashes behind a text are trimmed too. -/
theorem EndTrimmed.append_slashes {text rest : String} (h : EndTrimmed text rest)
    (count : Nat) : EndTrimmed (text ++ slashes count) rest := by
  obtain ⟨⟨more, rfl⟩, hlast⟩ := h
  refine ⟨⟨more + count, ?_⟩, hlast⟩
  rw [slashes_add, String.append_assoc]

/-! ## Settings by name -/

/-- The settings of a connection. -/
inductive SettingName where
  | endpoint
  | secret
  | connectTimeout
  | requestTimeout
  | poolIdleTimeout
  deriving DecidableEq

namespace SettingName

/-- The values that a setting can have: texts or durations. -/
abbrev Value : SettingName → Type
  | endpoint => String
  | secret => String
  | connectTimeout => Duration
  | requestTimeout => Duration
  | poolIdleTimeout => Duration

/-- The value that is kept when a value is given to the setting. -/
def keep : (name : SettingName) → name.Value → name.Value
  | endpoint, url => trimSlashes url
  | secret, text => text
  | connectTimeout, timeout => timeout
  | requestTimeout, timeout => timeout
  | poolIdleTimeout, timeout => timeout

/-- The second value is what is kept of the first: an endpoint without the slashes at its end, and
any other value as it is. -/
def Keeps : (name : SettingName) → name.Value → name.Value → Prop
  | endpoint, url, kept => EndTrimmed url kept
  | secret, text, kept => text = kept
  | connectTimeout, timeout, kept => timeout = kept
  | requestTimeout, timeout, kept => timeout = kept
  | poolIdleTimeout, timeout, kept => timeout = kept

theorem keeps_iff {name : SettingName} {value kept : name.Value} :
    name.Keeps value kept ↔ name.keep value = kept := by
  cases name with
  | endpoint => exact endTrimmed_iff
  | secret => exact Iff.rfl
  | connectTimeout => exact Iff.rfl
  | requestTimeout => exact Iff.rfl
  | poolIdleTimeout => exact Iff.rfl

end SettingName

/-- The value that a change gives to a setting, if it is about that setting. -/
def Setting.value? : (name : SettingName) → Setting → Option name.Value
  | .endpoint, .endpoint url => some url
  | .secret, .secret text => some text
  | .connectTimeout, .connectTimeout timeout => some timeout
  | .requestTimeout, .requestTimeout timeout => some timeout
  | .poolIdleTimeout, .poolIdleTimeout timeout => some timeout
  | _, _ => none

namespace ConnectionSettings

/-- The value of a setting; the secret may have none. -/
def value? (settings : ConnectionSettings) : (name : SettingName) → Option name.Value
  | .endpoint => some settings.endpoint
  | .secret => settings.secret
  | .connectTimeout => some settings.connectTimeout
  | .requestTimeout => some settings.requestTimeout
  | .poolIdleTimeout => some settings.poolIdleTimeout

/-- **A change decides one setting, and no other.** -/
theorem value?_change (name : SettingName) (settings : ConnectionSettings) (change : Setting) :
    (settings.change change).value? name =
      ((change.value? name).map name.keep).or (settings.value? name) := by
  cases change with
  | endpoint url => cases name <;> rfl
  | secret text => cases name <;> rfl
  | connectTimeout timeout => cases name <;> rfl
  | requestTimeout timeout => cases name <;> rfl
  | poolIdleTimeout timeout => cases name <;> rfl

/-- **After changes, a setting has the last value given to it, or the one it had at the start.** -/
theorem value?_changeAll (name : SettingName) (settings : ConnectionSettings)
    (changes : List Setting) :
    (settings.changeAll changes).value? name =
      ((lastGiven? (Setting.value? name) changes).map name.keep).or (settings.value? name) := by
  rw [changeAll, ← lastGiven?_map]
  exact get_foldl (fun settings => settings.value? name) (value?_change name) changes settings

theorem value?_changeAll_eq_some_iff {name : SettingName} {settings : ConnectionSettings}
    {changes : List Setting} {kept : name.Value} :
    (settings.changeAll changes).value? name = some kept ↔
      (∃ value, LastGiven (Setting.value? name) changes value ∧ name.Keeps value kept) ∨
        (∀ change ∈ changes, change.value? name = none) ∧ settings.value? name = some kept := by
  rw [value?_changeAll, Option.or_eq_some_iff, Option.map_eq_some_iff, Option.map_eq_none_iff,
    lastGiven?_eq_none_iff]
  simp only [lastGiven?_eq_some_iff, SettingName.keeps_iff]

theorem changeAll_append (settings : ConnectionSettings) (changes more : List Setting) :
    settings.changeAll (changes ++ more) = (settings.changeAll changes).changeAll more :=
  List.foldl_append

theorem connect_eq_ok_iff {settings : ConnectionSettings} {connection : Connection} :
    settings.connect = .ok connection ↔
      settings.value? .secret = some connection.secret ∧
        settings.value? .endpoint = some connection.endpoint := by
  rcases connection with ⟨endpoint, secret⟩
  rw [connect, value?, value?]
  cases settings.secret with
  | none => simp
  | some text => simp [and_comm]

end ConnectionSettings

/-! ## Configurations -/

namespace ClientConfig

/-- The value that a configuration has for a setting. -/
def value? (config : ClientConfig) : (name : SettingName) → Option name.Value
  | .endpoint => config.endpoint
  | .secret => config.secret
  | .connectTimeout => config.connectTimeout.map Duration.ofMilliseconds
  | .requestTimeout => config.requestTimeout.map Duration.ofMilliseconds
  | .poolIdleTimeout => none

/-- A configuration gives the values that it has, and no others. -/
theorem lastGiven?_changes (config : ClientConfig) (name : SettingName) :
    lastGiven? (Setting.value? name) config.changes = config.value? name := by
  simp only [changes, lastGiven?_append, lastGiven?_toList, Option.bind_map]
  cases name with
  | endpoint => simp [Setting.value?, value?, Function.comp_def]
  | secret => simp [Setting.value?, value?, Function.comp_def]
  | connectTimeout => simp [Setting.value?, value?, Function.comp_def, Option.map_eq_bind]
  | requestTimeout => simp [Setting.value?, value?, Function.comp_def, Option.map_eq_bind]
  | poolIdleTimeout => simp [Setting.value?, value?, Function.comp_def]

/-- Changes count after the configuration that they follow. -/
theorem lastGiven_changes_append_iff {config : ClientConfig} {changes : List Setting}
    {name : SettingName} {value : name.Value} :
    LastGiven (Setting.value? name) (config.changes ++ changes) value ↔
      LastGiven (Setting.value? name) changes value ∨
        (∀ change ∈ changes, change.value? name = none) ∧ config.value? name = some value := by
  rw [← lastGiven?_eq_some_iff, lastGiven?_append, lastGiven?_changes, Option.or_eq_some_iff,
    lastGiven?_eq_some_iff, lastGiven?_eq_none_iff]

end ClientConfig

/-! ## Connections -/

namespace Connection

/-- The connection that changes make: its secret is the last one given, and its endpoint is the last
one given, without the slashes at its end, or the one to start with. -/
structure MadeBy (connection : Connection) (changes : List Setting) : Prop where
  secret : LastGiven (Setting.value? .secret) changes connection.secret
  endpoint :
    (∃ url, LastGiven (Setting.value? .endpoint) changes url ∧ EndTrimmed url connection.endpoint) ∨
      (∀ change ∈ changes, change.value? .endpoint = none) ∧
        connection.endpoint = "https://rest.faunadb.com"

theorem connect_changeAll_eq_ok_iff {changes : List Setting} {connection : Connection} :
    (ConnectionSettings.changeAll {} changes).connect = .ok connection ↔
      connection.MadeBy changes := by
  rw [ConnectionSettings.connect_eq_ok_iff, ConnectionSettings.value?_changeAll_eq_some_iff,
    ConnectionSettings.value?_changeAll_eq_some_iff]
  simp only [SettingName.Keeps, ConnectionSettings.value?, exists_eq_right, reduceCtorEq, and_false,
    or_false, Option.some.injEq]
  constructor
  · rintro ⟨hsecret, hendpoint⟩
    exact ⟨hsecret, hendpoint.imp id fun h => ⟨h.1, h.2.symm⟩⟩
  · rintro ⟨hsecret, hendpoint⟩
    exact ⟨hsecret, hendpoint.imp id fun h => ⟨h.1, h.2.symm⟩⟩

/-- Without a secret there is no connection. -/
theorem connect_changeAll_of_forall {changes : List Setting}
    (h : ∀ change ∈ changes, change.value? .secret = none) :
    (ConnectionSettings.changeAll {} changes).connect = .error .missingSecret := by
  have hnone : (ConnectionSettings.changeAll {} changes).value? .secret = none := by
    rw [ConnectionSettings.value?_changeAll, lastGiven?_eq_none_iff.2 h]
    rfl
  have hsecret : (ConnectionSettings.changeAll {} changes).secret = none := hnone
  rw [ConnectionSettings.connect, hsecret]

/-- With a secret there is one. -/
theorem exists_madeBy {changes : List Setting}
    (h : ¬ ∀ change ∈ changes, change.value? .secret = none) :
    ∃ connection : Connection, connection.MadeBy changes ∧
      (ConnectionSettings.changeAll {} changes).connect = .ok connection := by
  have hsecret := mt lastGiven?_eq_none_iff.1 h
  obtain ⟨secret, hsecret⟩ := Option.ne_none_iff_exists'.1 hsecret
  have hconnect : (ConnectionSettings.changeAll {} changes).connect =
      .ok ⟨(ConnectionSettings.changeAll {} changes).endpoint, secret⟩ := by
    rw [ConnectionSettings.connect_eq_ok_iff, ConnectionSettings.value?_changeAll, hsecret]
    exact ⟨rfl, rfl⟩
  exact ⟨_, connect_changeAll_eq_ok_iff.1 hconnect, hconnect⟩

/-- Another secret, given after the other changes, makes the connection with that secret. -/
theorem MadeBy.withSecret {connection : Connection} {changes : List Setting}
    (h : connection.MadeBy changes) (secret : String) :
    (connection.withSecret secret).MadeBy (changes ++ [.secret secret]) := by
  constructor
  · exact ⟨changes, .secret secret, [], rfl, rfl, by simp⟩
  · -- the change gives no endpoint
    have hlast : lastGiven? (Setting.value? .endpoint) (changes ++ [.secret secret]) =
        lastGiven? (Setting.value? .endpoint) changes := by
      rw [lastGiven?_drop rfl, List.append_nil]
    simp only [← lastGiven?_eq_some_iff, ← lastGiven?_eq_none_iff, hlast]
    simp only [lastGiven?_eq_some_iff, lastGiven?_eq_none_iff]
    exact h.endpoint

/-- An endpoint never ends in a slash. -/
theorem MadeBy.getLast?_endpoint {connection : Connection} {changes : List Setting}
    (h : connection.MadeBy changes) : connection.endpoint.toList.getLast? ≠ some '/' := by
  rcases h.endpoint with ⟨url, -, htrimmed⟩ | ⟨-, hdefault⟩
  · exact htrimmed.2
  · rw [hdefault]
    decide

/-- An address has one slash between the endpoint and the path without the slashes at its start. -/
theorem url_of_startTrimmed (connection : Connection) {path rest : String}
    (h : StartTrimmed path rest) : connection.url path = connection.endpoint ++ "/" ++ rest := by
  rw [url, startTrimmed_iff.1 h]

theorem url_slashes_append (connection : Connection) (count : Nat) (path : String) :
    connection.url (slashes count ++ path) = connection.url path := by
  have htrimmed : StartTrimmed path _ := startTrimmed_iff.2 rfl
  rw [url_of_startTrimmed connection htrimmed,
    url_of_startTrimmed connection (htrimmed.slashes_append count)]

/-- Slashes at the end of an endpoint that is given make no difference to the settings. -/
theorem changeAll_endpoint_append_slashes (earlier later : List Setting) (url : String)
    (count : Nat) :
    ConnectionSettings.changeAll {} (earlier ++ .endpoint (url ++ slashes count) :: later) =
      ConnectionSettings.changeAll {} (earlier ++ .endpoint url :: later) := by
  have htrimmed : EndTrimmed url _ := endTrimmed_iff.2 rfl
  have hsame := endTrimmed_iff.1 (htrimmed.append_slashes count)
  rw [ConnectionSettings.changeAll_append, ConnectionSettings.changeAll_append,
    ConnectionSettings.changeAll, List.foldl_cons, ConnectionSettings.change, hsame]
  rfl

/-- **Settings, connections and addresses after any changes.** Each setting has the last value given
to it, or its default, whatever was given to the others. Without a secret there is no connection,
and otherwise the changes make one. A configuration counts as changes in front, one for each value
that it has. A session differs from its connection in the secret only, and is what a later change of
the secret makes. The address of a path is the endpoint, one slash, and the path without the slashes
at its start, so slashes at the end of the endpoint or at the start of the path make no difference.
-/
theorem connect_exact :
    (∀ (changes : List Setting) (name : SettingName) (kept : name.Value),
      (ConnectionSettings.changeAll {} changes).value? name = some kept ↔
        (∃ value, LastGiven (Setting.value? name) changes value ∧ name.Keeps value kept) ∨
          (∀ change ∈ changes, change.value? name = none) ∧
            ({} : ConnectionSettings).value? name = some kept) ∧
    (∀ changes : List Setting,
      ((∀ change ∈ changes, change.value? .secret = none) ∧
        (ConnectionSettings.changeAll {} changes).connect = .error .missingSecret) ∨
      ∃ connection : Connection, connection.MadeBy changes ∧
        (ConnectionSettings.changeAll {} changes).connect = .ok connection) ∧
    (∀ (config : ClientConfig) (changes : List Setting),
      config.settings.changeAll changes =
          ConnectionSettings.changeAll {} (config.changes ++ changes) ∧
        ∀ (name : SettingName) (value : name.Value),
          LastGiven (Setting.value? name) (config.changes ++ changes) value ↔
            LastGiven (Setting.value? name) changes value ∨
              (∀ change ∈ changes, change.value? name = none) ∧
                config.value? name = some value) ∧
    (∀ (changes : List Setting) (connection : Connection),
      (ConnectionSettings.changeAll {} changes).connect = .ok connection → ∀ secret,
        (connection.withSecret secret).secret = secret ∧
        (connection.withSecret secret).endpoint = connection.endpoint ∧
        (ConnectionSettings.changeAll {} (changes ++ [.secret secret])).connect =
          .ok (connection.withSecret secret)) ∧
    (∀ (changes : List Setting) (connection : Connection),
      (ConnectionSettings.changeAll {} changes).connect = .ok connection →
        connection.endpoint.toList.getLast? ≠ some '/' ∧
        ∀ path, ∃ rest, StartTrimmed path rest ∧
          connection.url path = connection.endpoint ++ "/" ++ rest) ∧
    (∀ (earlier later : List Setting) (url : String) (count : Nat),
      ConnectionSettings.changeAll {} (earlier ++ .endpoint (url ++ slashes count) :: later) =
        ConnectionSettings.changeAll {} (earlier ++ .endpoint url :: later)) ∧
    ∀ (connection : Connection) (path : String) (count : Nat),
      connection.url (slashes count ++ path) = connection.url path := by
  refine ⟨?_, ?_, ?_, ?_, ?_, changeAll_endpoint_append_slashes, ?_⟩
  · intro changes name kept
    exact ConnectionSettings.value?_changeAll_eq_some_iff
  · intro changes
    by_cases h : ∀ change ∈ changes, change.value? .secret = none
    · exact .inl ⟨h, connect_changeAll_of_forall h⟩
    · exact .inr (exists_madeBy h)
  · intro config changes
    refine ⟨?_, ?_⟩
    · rw [ConnectionSettings.changeAll_append]
      rfl
    · intro name value
      exact ClientConfig.lastGiven_changes_append_iff
  · intro changes connection h secret
    refine ⟨rfl, rfl, ?_⟩
    rw [connect_changeAll_eq_ok_iff] at h ⊢
    exact h.withSecret secret
  · intro changes connection h
    refine ⟨(connect_changeAll_eq_ok_iff.1 h).getLast?_endpoint, ?_⟩
    intro path
    have htrimmed : StartTrimmed path _ := startTrimmed_iff.2 rfl
    exact ⟨_, htrimmed, url_of_startTrimmed connection htrimmed⟩
  · intro connection path count
    exact url_slashes_append connection count path

/-- Two endpoints and two secrets, with another setting in between. -/
def changedTwice : List Setting :=
  [.secret "first", .endpoint "http://localhost/", .requestTimeout (.ofMilliseconds 500),
    .endpoint "http://localhost:8443//", .secret "second"]

/-- The second endpoint and the second secret count. A session has the same endpoint, and the
slashes of endpoint and path become one. -/
theorem connect_exact_changedTwice :
    (ConnectionSettings.changeAll {} changedTwice).connect =
        .ok ⟨"http://localhost:8443", "second"⟩ ∧
      (ConnectionSettings.changeAll {} (changedTwice ++ [.secret "third"])).connect =
        .ok ⟨"http://localhost:8443", "third"⟩ ∧
      ∃ rest, StartTrimmed "//tokens/self" rest ∧
        Connection.url ⟨"http://localhost:8443", "second"⟩ "//tokens/self" =
          "http://localhost:8443" ++ "/" ++ rest := by
  obtain ⟨-, -, -, hsession, haddress, -⟩ := connect_exact
  have hconnect : (ConnectionSettings.changeAll {} changedTwice).connect =
      .ok ⟨"http://localhost:8443", "second"⟩ := by rfl
  obtain ⟨-, -, hthird⟩ := hsession changedTwice _ hconnect "third"
  exact ⟨hconnect, hthird, (haddress changedTwice _ hconnect).2 "//tokens/self"⟩

end Connection

end DocQuery
