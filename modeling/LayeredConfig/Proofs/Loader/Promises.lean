import LayeredConfig.Proofs.Loader.Defaults
import LayeredConfig.Proofs.Loader.Parsing
import LayeredConfig.Proofs.Loader.Succeeding
import LayeredConfig.Proofs.Rule.Environments
import LayeredConfig.Proofs.Tree.Overlay

/-!
# What a consumer may rely on

A Katello configuration that was given out has passed the rules after its values were derived, so
some of its keys can be read without looking first, and the values that tell the mode of the server
agree with one another whatever the file says about them.
-/

namespace LayeredConfig

open Memory (Beyond)

/-- The value is a text, a sequence or a node with something in it. -/
def Memory.Filled (m : Memory) : Value → Prop
  | .text s => s ≠ ""
  | .seq _ items => items ≠ []
  | .node c => m.forest.entries c ≠ []
  | _ => False

theorem Memory.Sealed.filled {m : Memory} {v : Value} {b : Blueprint} (h : m.Sealed v b)
    (hm : m.forest.Sound) (hb : b.Filled) : m.Filled v := by
  cases b with
  | scalar s =>
    obtain rfl := h.eq_scalar hm
    cases s with
    | text s => exact hb
    | _ => exact hb
  | list items =>
    obtain ⟨values, rfl, hlength⟩ := h.exists_tuple hm
    intro hnil
    rw [hnil, List.length_nil] at hlength
    exact hb (List.eq_nil_of_length_eq_zero hlength.symm)
  | node fields =>
    obtain ⟨c, rfl⟩ := h.exists_node
    intro hnil
    have hcontent := h.content
    rw [view, hm.view_node, hnil] at hcontent
    exact hb (Blueprint.node.inj hcontent).symm
  | set items => exact absurd hb id
  | deferred d => exact absurd hb id

/-- What may be relied on when a Katello configuration for an environment is read, given the text
that the collaborator told as its version. -/
structure Katello.Promised (m : Memory) (n : NodeId) (environment : Option String)
    (version : String) (mode : String) : Prop where
  required : ∀ key ∈ requiredKeys ++ booleanKeys, ∃ v m', m.Reads n key v m'
  boolean : ∀ key ∈ booleanKeys, ∃ b m', m.Reads n key (.bool b) m'
  mode_mem : mode ∈ appModes
  app_mode : ∃ m', m.Reads n "app_mode" (.text mode) m'
  is_katello : ∃ m', m.Reads n "is_katello" (.bool (mode = "katello")) m'
  is_headpin : ∃ m', m.Reads n "is_headpin" (.bool (mode = "headpin")) m'
  version : ∃ m', m.Reads n "katello_version" (.text version) m'
  name : ∃ v m', m.Reads n "app_name" v m' ∧ m'.forest.truthy v = true
  thumbslug : mode = "headpin" → ∃ v m', m.Reads n "thumbslug_url" v m' ∧ m'.Filled v
  database : ∀ name, environment = some name → name ≠ "" → name ≠ buildEnvironment →
    ∃ c m', m.Reads n "database" (.node c) m' ∧
      ∀ key ∈ databaseKeys, Node.hasKey c (.text key) m' = .ok true m'

/-- Derived contents that pass the rules are read as promised. -/
theorem Katello.promised_of_passed {m : Memory} {n : NodeId} {environment : Option String}
    {merged : Entries Blueprint} {version mode : String} {t : Tree}
    (hm : m.forest.Sound) (ht : ∀ name, environment = some name → t = .scalar (.text name))
    (hshows : m.Shows n (Derived.all version merged)) (h : Passed t (Derived.all version merged))
    (hmem : mode ∈ appModes)
    (hmode : (Derived.all version merged).find? "app_mode" = some (.scalar (.text mode))) :
    Promised m n environment version mode := by
  have hrefl : Beyond m m := .refl hm
  have hfound : Derived.found merged "app_mode" = .scalar (.text mode) := by
    rw [Derived.find?_all_of_not_mem (by decide)] at hmode
    exact Derived.found_of_find? hmode
  -- the predicates are what the mode says, whatever stood under their keys
  have hkatello : (Derived.all version merged).find? "is_katello"
      = some (.scalar (.bool (mode = "katello"))) := by
    rw [Derived.find?_all_katello, hfound, Derived.inMode_text]
  have hheadpin : (Derived.all version merged).find? "is_headpin"
      = some (.scalar (.bool (mode = "headpin"))) := by
    rw [Derived.find?_all_headpin, hfound, Derived.inMode_text]
  refine ⟨?_, ?_, hmem, hshows.reads_scalar hrefl hmode, hshows.reads_scalar hrefl hkatello,
    hshows.reads_scalar hrefl hheadpin, hshows.reads_scalar hrefl Derived.find?_all_version, ?_, ?_, ?_⟩
  · intro key hkey
    have hsome : ((Derived.all version merged).find? key).isSome = true := by
      rcases List.mem_append.mp hkey with hkey | hkey
      · exact h.required key hkey
      · obtain ⟨b, hb⟩ := h.boolean key hkey
        rw [hb, Option.isSome_some]
    obtain ⟨b, hb⟩ := Option.isSome_iff_exists.mp hsome
    obtain ⟨v, m', hreads, _⟩ := hshows m hrefl key b hb
    exact ⟨v, m', hreads⟩
  · intro key hkey
    obtain ⟨b, hb⟩ := h.boolean key hkey
    exact ⟨b, hshows.reads_scalar hrefl hb⟩
  · obtain ⟨b, hb, htruthy⟩ := Derived.exists_name version merged
    obtain ⟨v, m', hreads, hsealed⟩ := hshows m hrefl "app_name" b hb
    refine ⟨v, m', hreads, ?_⟩
    rw [hsealed.truthy_eq hreads.2.sound, htruthy]
  · rintro rfl
    obtain ⟨b, hb, hfilled⟩ := h.thumbslug hkatello
    obtain ⟨v, m', hreads, hsealed⟩ := hshows m hrefl "thumbslug_url" b hb
    exact ⟨v, m', hreads, hsealed.filled hreads.2.sound hfilled⟩
  · intro name henvironment hname hbuild
    obtain rfl := ht name henvironment
    have htruthy : (Tree.scalar (.text name)).truthy = true := by
      simp [Tree.truthy, Scalar.truthy, hname]
    have hother : (Tree.scalar (.text name)).equal (.scalar (.text buildEnvironment)) = false := by
      simp [Tree.equal, Scalar.equal, hbuild]
    obtain ⟨block, hblock, hkeys⟩ := h.database htruthy hother
    obtain ⟨v, m', hreads, hsealed⟩ := hshows m hrefl "database" _ hblock
    obtain ⟨c, rfl⟩ := hsealed.exists_node
    refine ⟨c, m', hreads, fun key hkey ↦ ?_⟩
    have hfind := Memory.find?_of_content hreads.2.sound hsealed.content key
    rw [Node.hasKey_text, ← hkeys key hkey, ← hfind, Option.isSome_map]

namespace Loader

variable {l : Loader} {w w₁ w₂ : World} {n data : NodeId}

/-- **What a consumer may rely on.** If a Katello configuration could be loaded for an environment,
then it is frozen, and now and later all required keys and all truth values can be read, the mode
is one of the two, the two predicates and the version are those of the mode, and the application,
the address of the thumbslug and the database are there as far as the mode and the environment ask
for them. -/
theorem load_promises (hl : l.Telling) (hrules : l.rules = Katello.rules)
    (hdata : l.data w = .ok data w₁) (hm₁ : w₁.memory.Parsed data) (environment : Option String)
    (hload : l.load (environmentValue environment) w = .ok n w₂) :
    w₂.memory.forest.frozen n = true ∧
    ∃ mode version, l.Tells w₁ (packageName (mode = "katello")) version ∧
      ∀ m, Beyond w₂.memory m → Katello.Promised m n environment version mode := by
  have htexts : ∀ rule ∈ l.rules, rule.OverTexts w₁.memory.Known := by
    rw [hrules]
    exact Katello.overTexts_rules w₁.memory
  obtain ⟨merged, version, hsections, htells, hviolation, hbeyond, hfrozen, hshows⟩ :=
    of_load hl hdata hm₁ hload
  have hnone := hviolation htexts
  rw [hrules] at hnone
  have hpassed := Katello.passed_of_firstViolation? (fun _ ↦ rfl) hnone
  obtain ⟨mode, hmem, hmode⟩ := hpassed.mode
  have hfound : Derived.found merged "app_mode" = .scalar (.text mode) := by
    have hfile := hmode
    rw [inspection, Derived.find?_all_of_not_mem (by decide)] at hfile
    exact Derived.found_of_find? hfile
  rw [hfound, Derived.inMode_text] at htells
  refine ⟨hfrozen, mode, version, htells, fun m hmm ↦ ?_⟩
  refine Katello.promised_of_passed hmm.sound ?_ (hshows.beyond hmm) hpassed hmem hmode
  rintro name rfl
  rfl

/-! ## A complete file -/

end Loader

/-- A mapping with texts for keys. -/
def Value.keyed (entries : Entries Value) : Value :=
  .mapping (entries.map fun e ↦ (.text e.1, e.2))

theorem Value.plain_keyed {entries : Entries Value} (h : ∀ e ∈ entries, e.2.Plain) :
    (keyed entries).Plain := by
  constructor
  · intro e he
    obtain ⟨a, _, rfl⟩ := List.mem_map.mp he
    exact .scalar _
  · intro e he
    obtain ⟨a, ha, rfl⟩ := List.mem_map.mp he
    exact h a ha

namespace Katello

/-- What a complete file for the mode `headpin` says for all environments. -/
def sampleCommon : Entries Scalar := Entries.ofPairs <|
  (requiredKeys ++ booleanKeys).map (fun key ↦ (key, .bool true)) ++
    [("app_mode", .text "headpin"), ("url_prefix", .text "/headpin"), ("log_level", .text "info"),
      ("log_level_sql", .text "info"), ("thumbslug_url", .text "https://localhost:8443"),
      ("app_name", .null), ("database", .null)]

/-- Complete database settings. -/
def sampleDatabase : Entries Scalar :=
  Entries.put "adapter" (.text "postgresql") (databaseKeys.map fun key ↦ (key, .text key))

/-- A complete file with this in its common section, and with these sections beside it. -/
def documentOf (common sections : Entries Value) : Value :=
  .keyed (("common", .keyed ((sampleCommon.mapValues .scalar).overlay common)) :: sections)

/-- A complete file, with database settings for production only. -/
def sampleDocument : Value :=
  documentOf [] [("production", .keyed [("database", .keyed (sampleDatabase.mapValues .scalar))])]

theorem plain_documentOf {common sections : Entries Value} (hcommon : ∀ e ∈ common, e.2.Plain)
    (hsections : ∀ e ∈ sections, e.2.Plain) : (documentOf common sections).Plain := by
  refine Value.plain_keyed (List.forall_mem_cons.mpr ⟨?_, hsections⟩)
  refine Value.plain_keyed fun e he ↦ ?_
  rcases Entries.mem_overlay he with he | he
  · obtain ⟨a, _, rfl⟩ := List.mem_map.mp he
    exact .scalar a.2
  · exact hcommon e he

/-- A section that says nothing but what the database is. -/
theorem plain_sampleDatabase :
    ∀ e ∈ [("database", Value.keyed (sampleDatabase.mapValues .scalar))], e.2.Plain := by
  refine List.forall_mem_singleton.mpr (Value.plain_keyed fun e he ↦ ?_)
  obtain ⟨a, _, rfl⟩ := List.mem_map.mp he
  exact .scalar a.2

theorem plain_sampleDocument : sampleDocument.Plain :=
  plain_documentOf nofun (List.forall_mem_singleton.mpr (Value.plain_keyed plain_sampleDatabase))

/-- A loader of a Katello configuration with the collaborators of a server. -/
def sampleLoader : Loader where
  number := 0
  paths := ["katello.yml"]
  rules := rules
  environment := none
  password := fun v ↦ ofOutcome (PasswordCipher.decrypt ⟨none⟩ v)
  version := VersionResolver.default.resolve
  databaseEnvironments := standardDatabaseEnvironments
  context := []

/-- A world with this file, and with a loader that has not read it yet. -/
def worldOf (document : Value) : World :=
  { (default : World) with
    memos := #[default]
    files := ⟨[], [(["katello.yml"], .document document)]⟩ }

theorem plain_of_worldOf {document : Value} (h : document.Plain) :
    ∀ place v, (place, .document v) ∈ (worldOf document).files.files → v.Plain := by
  intro place v hmem
  obtain ⟨_, hv⟩ := Prod.mk.inj (List.mem_singleton.mp hmem)
  rw [Contents.document.inj hv]
  exact h

theorem readable_worldOf {document : Value} (h : document.Plain) :
    sampleLoader.Readable (worldOf document) where
  sound := Forest.sound_empty
  plain := plain_of_worldOf h
  known data hdata := by cases hdata

end Katello

namespace Loader

open Katello

set_option maxRecDepth 20000 in
/-- A complete file is loaded for production, and read as promised. -/
theorem load_promises_sample : ∃ data n w₁ w₂ mode version,
    sampleLoader.data (worldOf sampleDocument) = .ok data w₁ ∧ w₁.memory.Parsed data ∧
    sampleLoader.load (environmentValue (some "production")) (worldOf sampleDocument) = .ok n w₂ ∧
    w₂.memory.forest.frozen n = true ∧
    ∀ m, Beyond w₂.memory m → Promised m n (some "production") version mode := by
  have hl : sampleLoader.Supplied :=
    supplied_of_decrypt rfl rfl VersionResolver.textual_default
  obtain ⟨data, w₁, hdata⟩ := exists_ok_of_succeeds
    (by decide +kernel : succeeds sampleLoader.data (worldOf sampleDocument) = true)
  obtain ⟨n, w₂, hload⟩ := exists_ok_of_succeeds (by decide +kernel :
    succeeds (sampleLoader.load (environmentValue (some "production"))) (worldOf sampleDocument) = true)
  have hparsed := parsed_of_data (reveals_of_decrypt rfl) (readable_worldOf plain_sampleDocument) hdata
  obtain ⟨hfrozen, mode, version, _, hpromised⟩ :=
    load_promises hl.telling rfl hdata hparsed (some "production") hload
  exact ⟨data, n, w₁, w₂, mode, version, hdata, hparsed, hload, hfrozen, hpromised⟩

end Loader

end LayeredConfig
