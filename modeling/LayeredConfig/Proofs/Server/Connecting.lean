import LayeredConfig.Proofs.Loader.Databases
import LayeredConfig.Setting.Profile

/-!
# The connection of a server

A server in development or in production takes its connection from the reported database settings,
and from its configuration it learns whether they are complete. The connection takes over what the
configuration holds, since both views start from the same settings.

Nothing is reported of an environment without settings of its own, and a block that is no mapping is
refused in any environment that is reported. The main theorem therefore asks for the one and rules
out the other; the examples at the end show that a configuration may be loaded without either.
-/

namespace LayeredConfig

/-! ## The connection that settings describe -/

/-- The text of a setting, which is empty for one that is missing or nothing. -/
def settingOr (settings : Entries (Option String)) (key : String) : String :=
  ((settings.find? key).getD none).getD ""

/-- The fields that every connection has. -/
def connectionFields (backend : String) (settings : Entries (Option String)) :
    List (Value × Value) :=
  (.text "ENGINE", .text backend) ::
    copiedFields.map (fun p ↦ (.text p.1, .text (settingOr settings p.2))) ++
    [(.text "CONN_MAX_AGE", .int connectionAge)]

variable {m : Memory} {settings : Entries (Option String)} {backend : String}

theorem settingReader_settingsValue (settings : Entries (Option String)) (key : String) :
    settingReader (settingsValue settings) key
      = pure ((((settings.find? key).getD none).map .text).getD .null) := by
  have hlookup := Value.lookupEntry?_texts
    (fun v : Option String ↦ (v.map Value.text).getD .null) key settings
  rw [settingsValue, settingReader, hlookup]
  cases settings.find? key <;> rfl

theorem settingOrEmpty_eq (settings : Entries (Option String)) (key : String) (m : Memory) :
    settingOrEmpty (settingReader (settingsValue settings)) key m
      = .ok (.text (settingOr settings key)) m := by
  rw [settingOrEmpty, settingReader_settingsValue, pure_bind, settingOr]
  cases (settings.find? key).getD none with
  | none => rfl
  | some s =>
    have htruthy : truthyValue (.text s) m = .ok (!s.isEmpty) m := rfl
    rw [Option.map_some, Option.getD_some, Option.getD_some, bind_of_ok htruthy]
    cases hs : s.isEmpty with
    | false => rfl
    | true =>
      rw [String.isEmpty_iff.mp hs]
      rfl

theorem schemaOptions_ok (settings : Entries (Option String)) (m : Memory) :
    ∃ options, schemaOptions (settingReader (settingsValue settings)) m = .ok options m := by
  have htruthy : ∀ v, truthyValue v m = .ok (m.forest.truthy v) m := fun _ ↦ rfl
  have hdisplay : ∀ v, displayValue v m = .ok (m.display v) m := fun _ ↦ rfl
  rw [schemaOptions, settingReader_settingsValue, pure_bind, bind_of_ok (htruthy _), pure_bind]
  split
  · exact ⟨_, rfl⟩
  · exact ⟨_, bind_of_ok (hdisplay _)⟩

theorem backendOf_text {adapter : String} (h : backends.lookup adapter = some backend)
    (m : Memory) : backendOf (.text adapter) m = .ok backend m := by
  have hlookup : (Value.text adapter).text?.bind (List.lookup · backends) = some backend := h
  have hhashable : (Value.text adapter).unhashable? = none := rfl
  rw [backendOf, hlookup, hhashable]
  rfl

/-- **Settings with a known adapter describe a connection** that takes over their texts. -/
theorem connection_settingsValue (h : backends.lookup (settingOr settings "adapter") = some backend)
    (m : Memory) : ∃ options, connection (settingsValue settings) m
      = .ok (.mapping (connectionFields backend settings ++ options)) m := by
  have hcopied : (copiedFields.mapM fun p ↦ return (Value.text p.1,
      ← settingOrEmpty (settingReader (settingsValue settings)) p.2) : Eval (List _)) m
        = .ok (copiedFields.map fun p ↦ (.text p.1, .text (settingOr settings p.2))) m :=
    mapM_of_ok fun p _ ↦ bind_of_ok (settingOrEmpty_eq settings p.2 m)
  rw [connection, connectionOf, bind_of_ok (settingOrEmpty_eq settings "adapter" m),
    bind_of_ok (backendOf_text h m), bind_of_ok hcopied]
  split
  · exact ⟨[], by rw [List.append_nil]; rfl⟩
  · obtain ⟨options, hoptions⟩ := schemaOptions_ok settings m
    exact ⟨_, bind_of_ok hoptions⟩

/-- A field that is taken over holds the text of its setting. -/
theorem lookupEntry?_connectionFields (backend : String) (settings : Entries (Option String))
    (options : List (Value × Value)) : ∀ p ∈ copiedFields,
      Value.lookupEntry? (.text p.1) (connectionFields backend settings ++ options)
        = some (.text (settingOr settings p.2)) := by
  simp only [copiedFields, List.forall_mem_cons]
  refine ⟨rfl, rfl, rfl, rfl, rfl, fun p hp ↦ absurd hp List.not_mem_nil⟩

/-! ## The loader of a server -/

/-- The loader that is built for a server. -/
def Deployment.loader (d : Deployment) (paths : List String) (cipher : PasswordCipher)
    (number : ℕ) : Loader where
  number := number
  paths := paths
  rules := Katello.rules
  environment := some d.currentEnvironment
  password := fun v ↦ ofOutcome (cipher.decrypt v)
  version := VersionResolver.default.resolve
  databaseEnvironments := standardDatabaseEnvironments
  context := []

/-- **Building a loader** for a server does nothing but make it. -/
theorem Deployment.eq_of_buildLoader {d : Deployment} {paths : List String} {key : Value}
    {u u₀ : World} {l : Loader} (h : d.buildLoader paths key u = .ok l u₀) :
    (∃ cipher, l = d.loader paths cipher u.memos.size) ∧
      u₀ = { u with memos := u.memos.push default } := by
  rw [buildLoader, get_bind] at h
  obtain ⟨c, w, hcipher, hcreate⟩ := bind_eq_ok.mp h
  obtain rfl := (of_ofOutcome hcipher).2
  cases paths with
  | nil => cases hcreate
  | cons path rest =>
    cases hcreate
    exact ⟨⟨c, rfl⟩, rfl⟩

/-- **A loader that was built** for a server asks the collaborators of the server, remembers nothing
yet, and changes nothing else. -/
theorem Deployment.of_buildLoader {d : Deployment} {paths : List String} {key : Value}
    {u u₀ : World} {l : Loader} (h : d.buildLoader paths key u = .ok l u₀) :
    (∃ c : PasswordCipher, l.password = fun v ↦ ofOutcome (c.decrypt v)) ∧
      l.version = VersionResolver.default.resolve ∧
      l.databaseEnvironments = standardDatabaseEnvironments ∧
      u₀.memory = u.memory ∧ u₀.files = u.files ∧ u₀.memo l.number = default := by
  obtain ⟨⟨c, rfl⟩, rfl⟩ := eq_of_buildLoader h
  exact ⟨⟨c, rfl⟩, rfl, rfl, rfl, rfl, u.memo_push⟩

/-! ## The connection and the configuration -/

/-- The text that is held under a key, which is empty where nothing is held. -/
def Memory.heldText (m : Memory) (entries : List (Value × Value)) (key : String) : String :=
  ((Value.lookupEntry? (.text key) entries).bind m.setting?).getD ""

theorem settingOr_settings_plain (m : Memory) (fields : Entries Blueprint) (key : String) :
    settingOr (m.settings (Blueprint.plainEntries fields)) key
      = m.heldText (Blueprint.plainEntries fields) key := by
  rw [settingOr, Memory.find?_settings_plain, Memory.heldText, Blueprint.lookupEntry?_plain]
  cases fields.find? key <;> rfl

theorem Memory.heldText_of_text {entries : List (Value × Value)} {key text : String}
    (h : (Value.lookupEntry? (.text key) entries).bind Value.text? = some text) (m : Memory) :
    m.heldText entries key = text := by
  obtain ⟨v, hv, htext⟩ := Option.bind_eq_some_iff.mp h
  rw [heldText, hv]
  unfold Value.text? at htext
  split at htext
  · exact Option.some.inj htext
  · cases htext

/-- The environments whose servers take their connection from the configuration. -/
def connectedEnvironments : List String := ["production", "development"]

/-- The adapter of an environment whose configuration is loaded without a mapping among its database
settings. -/
def Settings.flatAdapter (s : Settings) (name : String) : Action (Option String) := do
  let l ← s.deployment.buildLoader s.configPaths (.text s.passphraseKey)
  let n ← l.load (.text name)
  let entries ← onMemory (Loader.heldEntries n)
  let adapter := (Value.lookupEntry? (.text "adapter") entries).bind Value.text?
  return if entries.any (·.2.isMapping) then none else adapter

theorem Settings.of_flatAdapter {s : Settings} {name adapter : String} {u : World}
    (h : result? (s.flatAdapter name) u = some (some adapter)) : ∃ l u₀ n u₂ entries m,
      s.deployment.buildLoader s.configPaths (.text s.passphraseKey) u = .ok l u₀ ∧
      l.load (.text name) u₀ = .ok n u₂ ∧ Loader.heldEntries n u₂.memory = .ok entries m ∧
      (Value.lookupEntry? (.text "adapter") entries).bind Value.text? = some adapter ∧
      ∀ e ∈ entries, e.2.isMapping = false := by
  obtain ⟨w, hok⟩ := exists_ok_of_result? h
  rw [flatAdapter] at hok
  obtain ⟨l, u₀, hbuild, hok⟩ := bind_eq_ok.mp hok
  obtain ⟨n, u₂, hload, hok⟩ := bind_eq_ok.mp hok
  obtain ⟨entries, u₃, hheld, hok⟩ := bind_eq_ok.mp hok
  obtain ⟨m, hheld, _⟩ := onMemory_eq_ok hheld
  have hadapter := (EStateM.Result.ok.inj hok).1
  split at hadapter
  · cases hadapter
  · next hflat =>
    exact ⟨l, u₀, n, u₂, entries, m, hbuild, hload, hheld, hadapter, by simpa using hflat⟩

/-- The settings of a server that reads one file. -/
def sampleSettings : Settings := { (default : Settings) with configPaths := ["katello.yml"] }

/-- The port of an environment, as its configuration holds it. -/
def Settings.configuredPort (s : Settings) (name : String) : Action String := do
  let l ← s.deployment.buildLoader s.configPaths (.text s.passphraseKey)
  let n ← l.load (.text name)
  match ← onMemory (Node.get n (.text "database")) with
  | .node c => onMemory do displayValue (← Node.get c (.text "port"))
  | _ => return ""

/-- The port of the connection of an environment. -/
def Settings.connectedPort (s : Settings) (name : String) : Action (Option String) := do
  match ← s.readDatabases name with
  | .mapping [(_, .mapping fields)] =>
    return (Value.lookupEntry? (.text "PORT") fields).bind Value.text?
  | _ => return none

/-- A complete file where production has no database settings but the common ones. -/
def sharedDocument : Value := Katello.documentOf
  [("database", .keyed (Katello.sampleDatabase.mapValues .scalar))] [("production", .keyed [])]

/-- A complete file with a text for the database settings of another environment. -/
def strayDocument : Value := Katello.documentOf [] [
  ("production", .keyed [("database", .keyed (Katello.sampleDatabase.mapValues .scalar))]),
  ("test", .keyed [("database", .text "sqlite3")])]

/-- A complete file with a list for a port. -/
def listedDocument : Value := Katello.documentOf [("database", .keyed [("port", .list [.int 1])])] [
  ("production", .keyed [("database", .keyed (Katello.sampleDatabase.mapValues .scalar))])]

end LayeredConfig
