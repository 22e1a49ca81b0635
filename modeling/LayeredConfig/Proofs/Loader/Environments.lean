import LayeredConfig.Proofs.Loader.Filling
import LayeredConfig.Proofs.Loader.Promises
import LayeredConfig.Proofs.Loader.Rebuilding

/-!
# An environment only adds a rule

Naming an environment asks for a database, unless it is the one that packages are built in, and it
changes nothing else about the rules (`Katello.accepts_iff`). So where the section of an environment
is blank, whatever is loaded for it is loaded without an environment as well, and is written out
alike.

The two loads make nodes of their own. What links them is that both drafts offer the same contents
to the rules (`ReadsAs.offers`).
-/

namespace LayeredConfig

open Memory (Aside Beyond)

/-- A draft with predicates offers what it reads as. -/
theorem ReadsAs.offers {m₀ m : Memory} {n : NodeId} {mode : Blueprint}
    {fields : Entries Blueprint} (h : ReadsAs m₀ m n mode fields) : m.Offers n fields := by
  obtain ⟨answer, stored, h, rfl⟩ := h
  refine ⟨h.draft.sound, h.draft.mem, answer, stored, h.draft.content_view, rfl, fun e he ↦ ?_⟩
  refine (h.entries e he).imp_right fun ⟨d, hd, ht⟩ ↦ ⟨d, hd, fun m' hmm ↦ ?_⟩
  refine ⟨.scalar (answer d), m'.countRun d,
    (h.later hmm.beyond).hasMode.evaluate_eq (ht.beyond hmm.beyond), ⟨?_, rfl⟩, .scalar _ _⟩
  exact (Memory.reruns_countRun m' d).beyond hmm.beyond.sound

/-! ## Blank sections -/

namespace Tree

variable {data data' : Tree} {document fields merged : Entries Blueprint} {name : String}

/-- Trees with the same content have the same sections. -/
theorem sections_of_content (hdata : data.content = .node document)
    (hdata' : data'.content = .node document) {keys : List String}
    (h : data.sections fields keys = .ok merged) : data'.sections fields keys = .ok merged := by
  induction keys generalizing fields with
  | nil => exact h
  | cons key rest ih =>
    rw [sections] at h
    split at h
    · cases h
    · next incoming hsection =>
      have hsection' := (section_eq_ok_iff hdata').mpr ((section_eq_ok_iff hdata).mp hsection)
      rw [sections, hsection']
      exact ih h

/-- Merging a blank section is merging none. -/
theorem sections_of_blank (hblank : data.section? name = .ok [])
    (h : data.sections [] (sectionNames (some name)) = .ok merged) :
    data.sections [] (sectionNames none) = .ok merged := by
  rw [sectionNames, Option.filter] at h
  cases hempty : name.isEmpty with
  | true =>
    rw [hempty] at h
    exact h
  | false =>
    rw [hempty] at h
    have hrest : ∀ fields, data.sections fields [name] = .ok fields := fun fields ↦ by
      rw [sections, hblank]
      rfl
    have hnone : sectionNames none = [commonSection] := rfl
    rw [hnone, sections]
    change data.sections [] [commonSection, name] = .ok merged at h
    rw [sections] at h
    split at h
    · cases h
    · next incoming hcommon =>
      rw [hrest] at h
      exact h

end Tree

/-! ## Loads and what the rules accept -/

namespace Loader

variable {l : Loader} {version : String → String} {w w₁ w₂ u : World} {n data : NodeId}
  {document merged : Entries Blueprint} {environment : Option String}

theorem Versions.eq_of_tells (hl : l.Versions version) {package s : String}
    (h : l.Tells w package s) : s = version package := by
  obtain ⟨m, w', -, htold⟩ := h
  obtain ⟨w'', hversion, -⟩ := hl package { w with memory := m }
  rw [htold] at hversion
  exact Scalar.text.inj (Value.scalar.inj (EStateM.Result.ok.inj hversion).1)

/-- The loader was made in this world, and its file holds the document. -/
def Opens (l : Loader) (w : World) (document : Entries Blueprint) : Prop :=
  l.Ready w ∧ ∃ data w₁, l.data w = .ok data w₁ ∧ w₁.memory.Parsed data ∧
    (w₁.memory.view (.node data)).content = .node document

/-- The contents that are checked, from the merged sections. -/
def checked (version : String → String) (merged : Entries Blueprint) : Entries Blueprint :=
  Derived.all (version (packageName
    (Derived.inMode (Derived.found merged "app_mode") "katello"))) merged

/-- Checking a draft that is accepted finds nothing and changes nothing. -/
theorem finds_of_ok {m₀ m m' : Memory} {mode : Blueprint} {fields : Entries Blueprint}
    (hm₀ : m₀.forest.Sound) (h : ReadsAs m₀ m n mode fields)
    (hcheck : checkRules ⟨n, environmentValue environment, []⟩ Katello.rules m = .ok () m') :
    Finds (checkRules ⟨n, environmentValue environment, []⟩ Katello.rules) m
      (m₀.view (environmentValue environment)) none := by
  have hfinds := (describes_inspection hm₀ h environment).finds_checkRules
    (Katello.overTexts_rules m₀)
  exact hfinds.eq_none_of_ok hcheck ▸ hfinds

/-- **What a load gives out** was accepted as a draft, and is written out as what the draft
offered. -/
theorem accepted_of_load (hl : l.Supplied) (hversion : l.Versions version)
    (hrules : l.rules = Katello.rules) (hdata : l.data w = .ok data w₁)
    (hm₁ : w₁.memory.Parsed data)
    (hload : l.load (environmentValue environment) w = .ok n w₂) :
    ∃ merged m c,
      (w₁.memory.view (.node data)).sections [] (sectionNames environment) = .ok merged ∧
      m.Offers c (checked version merged) ∧
      Katello.Accepts m c (environmentValue environment) [] ∧
      w₂.memory.Exports n (Blueprint.node (checked version merged)).plain := by
  cases hok : (w₁.memory.view (.node data)).sections [] (sectionNames environment) with
  | error e =>
    obtain ⟨w₃, hrefused, -⟩ := load_of_refused hl hdata hm₁ hok
    rw [hload] at hrefused
    cases hrefused
  | ok merged =>
    obtain ⟨s, c, w', htells, -, hreads, heq⟩ := load_derives hl hdata hm₁ hok
    obtain rfl := hversion.eq_of_tells htells
    rw [heq] at hload
    obtain ⟨_, w₃, hvalid, hgive⟩ := bind_eq_ok.mp hload
    obtain ⟨m, hcheck, rfl⟩ := of_validate hvalid
    rw [hrules] at hcheck
    obtain ⟨rfl, hmemory⟩ := memory_giveOut hgive
    obtain ⟨m', hok', hmm⟩ := finds_of_ok hm₁.sound hreads hcheck
    obtain rfl := (EStateM.Result.ok.inj (hcheck.symm.trans hok')).2
    refine ⟨merged, w'.memory, n, rfl, hreads.offers, ⟨m, hcheck⟩, ?_⟩
    rw [hmemory]
    exact (hreads.later hmm).exports

/-- **What is accepted as a draft** is loaded. -/
theorem load_of_accepts (hl : l.Supplied) (hversion : l.Versions version)
    (hrules : l.rules = Katello.rules) (hw : l.Ready w) (hdata : l.data w = .ok data w₁)
    (hm₁ : w₁.memory.Parsed data)
    (hok : (w₁.memory.view (.node data)).sections [] (sectionNames environment) = .ok merged)
    (haccepts : ∀ m c, m.Offers c (checked version merged) →
      Katello.Accepts m c (environmentValue environment) []) :
    ∃ n w₂, l.load (environmentValue environment) w = .ok n w₂ ∧
      w₂.memory.Exports n (Blueprint.node (checked version merged)).plain := by
  obtain ⟨s, n, w', htells, hcalm, hreads, heq⟩ := load_derives hl hdata hm₁ hok
  obtain rfl := hversion.eq_of_tells htells
  obtain ⟨m, hcheck⟩ := haccepts w'.memory n hreads.offers
  have hfinds := finds_of_ok hm₁.sound hreads hcheck
  rw [← hrules] at hfinds
  obtain ⟨m', hvalid, hmm⟩ := validate_of_none hfinds
  obtain ⟨path, hpath⟩ := path_of_data hl.password hw.number_lt hw.path hdata
  have hknown : (World.memo { w' with memory := m' } l.number).path = some path :=
    hcalm.path_eq hpath
  obtain ⟨w₂, hgive, -⟩ := finish_of_path hknown (hreads.later hmm)
  obtain ⟨-, hmemory⟩ := memory_giveOut hgive
  refine ⟨n, w₂, heq.trans ((bind_of_ok hvalid).trans hgive), ?_⟩
  rw [hmemory]
  exact (hreads.later hmm).exports

/-- **Where the section of an environment is blank**, whatever is loaded for it is loaded without an
environment. -/
theorem load_of_blank (hl : l.Supplied) (hversion : l.Versions version)
    (hrules : l.rules = Katello.rules) {name : String} (hw : l.Opens w document)
    (hu : l.Opens u document) (hblank : document.find? name = some (.scalar .null) ∨
      document.find? name = some (.node []))
    (hload : l.load (environmentValue (some name)) w = .ok n w₂) :
    ∃ n' u₂ v, l.load (environmentValue none) u = .ok n' u₂ ∧ w₂.memory.Exports n v ∧
      u₂.memory.Exports n' v := by
  obtain ⟨-, data, w₁, hdata, hm₁, hcontent⟩ := hw
  obtain ⟨hready, data', u₁, hdata', hu₁, hcontent'⟩ := hu
  obtain ⟨merged, m, c, hsections, hoffers, haccepts, hexports⟩ :=
    accepted_of_load hl hversion hrules hdata hm₁ hload
  have hsection : (w₁.memory.view (.node data)).section? name = .ok [] :=
    (Tree.section_eq_ok_iff hcontent).mpr (hblank.symm.imp_right fun h ↦ ⟨h, rfl⟩)
  have hsections' := Tree.sections_of_content hcontent hcontent'
    (Tree.sections_of_blank hsection hsections)
  obtain ⟨n', u₂, hload', hexports'⟩ := load_of_accepts hl hversion hrules hready hdata' hu₁
    hsections' fun _ _ hoffers' ↦ Katello.accepts_null hoffers hoffers' haccepts
  exact ⟨n', u₂, _, hload', hexports, hexports'⟩

theorem supplied_versionedLoader : versionedLoader.Supplied where
  password := (supplied_of_decrypt rfl rfl VersionResolver.textual_default :
    Katello.sampleLoader.Supplied).password
  version _ w hw := ⟨"1.0", w, rfl, .refl hw, Std.Refl.refl w⟩

end Loader

/-! ## The rules and the loads together -/

namespace Katello

/-- **An environment only adds the database rule.** Let every computation that is met in reading a
node always answer the same. For the environment that packages are built in the node is accepted
exactly if it is accepted without an environment, and for any other name exactly if it has a
database besides. What is rejected without an environment is rejected with any name at the same key
and with the same problem.

So where a document says nothing in the section of an environment, and versions are told by a
function of the package, whatever is loaded for that environment is loaded without one as well, in
any world in which the loader opens the document, and it is written out alike. -/
theorem environment_adds_database :
    (∀ {m : Memory} {n : NodeId} {answers : DeferredId → Tree} (path : List String), m.Reachable →
      n ∈ m.forest → (∀ d, (m.view (.node n)).Reads answers d → m.Gives d (answers d)) →
      (∀ name, name ≠ "" → name ≠ buildEnvironment →
        (Accepts m n (.text name) path ↔ Accepts m n .null path ∧ HasDatabase m n)) ∧
      (Accepts m n (.text buildEnvironment) path ↔ Accepts m n .null path) ∧
      ∀ f m', Validator.validate ⟨⟨n, .null, path.map .text⟩, rules⟩ m = .error f m' →
        ∃ keyPath problem,
          f = .configuration (.validationFailure keyPath (.scalar .null) problem) ∧
          ∀ name, ∃ m'' problem',
            Validator.validate ⟨⟨n, .text name, path.map .text⟩, rules⟩ m = .error (.configuration
              (.validationFailure keyPath (.scalar (.text name)) problem')) m'' ∧
            ∀ names, problem'.message names = problem.message names) ∧
    ∀ {l : Loader} {version : String → String} {w u w₂ : World} {document : Entries Blueprint}
      {name : String} {n : NodeId}, l.Supplied → l.Versions version → l.rules = rules →
      l.Opens w document → l.Opens u document →
      document.find? name = some (.scalar .null) ∨ document.find? name = some (.node []) →
      l.load (environmentValue (some name)) w = .ok n w₂ →
      ∃ n' u₂ v, l.load (environmentValue none) u = .ok n' u₂ ∧ w₂.memory.Exports n v ∧
        u₂.memory.Exports n' v := by
  refine ⟨fun path hm hn hanswers ↦ ⟨fun name hname hbuild ↦ ?_, ?_, fun f m' hf ↦ ?_⟩,
    fun hl hversion hrules hw hu hblank hload ↦
      Loader.load_of_blank hl hversion hrules hw hu hblank hload⟩
  · exact accepts_named_iff hm.sound hn hanswers hname hbuild
  · exact accepts_build_iff hm.sound hn hanswers
  · obtain ⟨keyPath, problem, rfl, hall⟩ := rejects hm.sound hn hanswers hf
    exact ⟨keyPath, problem, rfl, fun name ↦ hall (.text name)⟩

/-- A memory with a node in it whose mode is computed. -/
def computedMode : Memory :=
  after (Node.create (.keyed [("app_mode", .deferred ⟨0⟩)]))
    (Memory.define default (.constant "mode" (.text "katello"))).2

theorem reachable_computedMode : computedMode.Reachable :=
  IsTrans.trans _ _ _ (.single (.define default _)) (Node.keeps_create (R := Memory.Run) _ _)

/-- Reading the node comes to one computation, which always gives the mode. -/
theorem gives_computedMode (d : DeferredId)
    (hd : (computedMode.view (.node ⟨0⟩)).Reads (fun _ ↦ .scalar (.text "katello")) d) :
    computedMode.Gives d (.scalar (.text "katello")) := by
  have hview : computedMode.view (.node ⟨0⟩)
      = .node ⟨0⟩ false [("app_mode", .deferred ⟨0⟩)] := by with_unfolding_all rfl
  rw [hview] at hd
  cases hd with
  | field hkey hd =>
    have hentry := Entries.mem_of_find? hkey
    simp only [List.mem_singleton, Prod.mk.injEq] at hentry
    obtain ⟨-, rfl⟩ := hentry
    cases hd with
    | self => exact Memory.gives_constant (by decide +kernel) rfl
    | answer hd => cases hd

/-- A complete file with database settings, and with nothing to say for staging. -/
def stagedDocument : Value :=
  documentOf [("database", .keyed (sampleDatabase.mapValues .scalar))] [("staging", .null)]

theorem plain_stagedDocument : stagedDocument.Plain :=
  plain_documentOf plain_sampleDatabase (List.forall_mem_singleton.mpr (.scalar _))

set_option maxRecDepth 20000 in
theorem opens_stagedDocument : ∃ document : Entries Blueprint,
    Loader.versionedLoader.Opens (worldOf stagedDocument) document ∧
      document.find? "staging" = some (.scalar .null) := by
  have hblank : result? (do
      let data ← Loader.versionedLoader.data
      return (((← get).memory.forest.fields data).find? "staging").any Tree.isNull)
        (worldOf stagedDocument) = some true := by decide +kernel
  obtain ⟨w', hok⟩ := exists_ok_of_result? hblank
  obtain ⟨data, w₁, hdata, hrest⟩ := bind_eq_ok.mp hok
  rw [get_bind] at hrest
  obtain ⟨t, hstaging, hnull⟩ := (Option.any_eq_true _ _).mp (EStateM.Result.ok.inj hrest).1
  obtain rfl := Tree.eq_null_of_isNull hnull
  have hparsed := Loader.parsed_of_data (Loader.reveals_of_decrypt rfl)
    (readable_worldOf plain_stagedDocument) hdata
  refine ⟨_, ⟨⟨by decide, fun h ↦ by cases h⟩, data, w₁, hdata, hparsed,
    Memory.content_node_eq hparsed.sound data⟩, ?_⟩
  rw [Entries.find?_mapValues, hstaging]
  rfl

set_option maxRecDepth 20000 in
/-- A node that is rejected, and a file that is loaded for staging. -/
theorem environment_adds_database_sample :
    (∃ keyPath problem problem' m m',
      Validator.validate ⟨⟨⟨0⟩, .null, []⟩, rules⟩ computedMode = .error (.configuration
        (.validationFailure keyPath (.scalar .null) problem)) m ∧
      Validator.validate ⟨⟨⟨0⟩, .text "staging", []⟩, rules⟩ computedMode = .error (.configuration
        (.validationFailure keyPath (.scalar (.text "staging")) problem')) m' ∧
      ∀ names, problem'.message names = problem.message names) ∧
    ∃ n w₂ n' u₂ v,
      Loader.versionedLoader.load (environmentValue (some "staging")) (worldOf stagedDocument)
        = .ok n w₂ ∧
      Loader.versionedLoader.load (environmentValue none) (worldOf stagedDocument) = .ok n' u₂ ∧
      w₂.memory.Exports n v ∧ u₂.memory.Exports n' v := by
  obtain ⟨hnodes, hloads⟩ := environment_adds_database
  constructor
  · obtain ⟨-, -, hrejects⟩ :=
      hnodes [] reachable_computedMode (by decide +kernel) gives_computedMode
    obtain ⟨f, m, hf⟩ := exists_error_of_not_succeeds (by decide +kernel :
      succeeds (Validator.validate ⟨⟨⟨0⟩, .null, []⟩, rules⟩) computedMode = false)
    obtain ⟨keyPath, problem, rfl, hall⟩ := hrejects f m hf
    obtain ⟨m', problem', herror, hmessage⟩ := hall "staging"
    exact ⟨keyPath, problem, problem', m, m', hf, herror, hmessage⟩
  · obtain ⟨document, hopens, hsilent⟩ := opens_stagedDocument
    obtain ⟨n, w₂, hload⟩ := exists_ok_of_succeeds (by decide +kernel :
      succeeds (Loader.versionedLoader.load (environmentValue (some "staging")))
        (worldOf stagedDocument) = true)
    obtain ⟨n', u₂, v, hload', hexports⟩ := hloads Loader.supplied_versionedLoader
      Loader.versions_versionedLoader rfl hopens hopens (.inl hsilent) hload
    exact ⟨n, w₂, n', u₂, v, hload, hload', hexports⟩

end Katello

end LayeredConfig
