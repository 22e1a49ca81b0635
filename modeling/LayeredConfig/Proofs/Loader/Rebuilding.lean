import LayeredConfig.Proofs.Loader.Databases
import LayeredConfig.Proofs.Loader.Repeating
import LayeredConfig.Proofs.Loader.Visiting
import LayeredConfig.Proofs.Rule.Likeness

/-!
# Building configurations again

From trees of a file that hold the same, a loader builds the same configuration for an environment,
and it reports the same database settings. Every stage of loading is compared on its own: merging
the sections, deriving values, checking the rules and freezing. A stage that fails does so in both
runs and in the same way.

What was built is compared by what it is written out as, now and at any later time
(`Memory.Exports`).
-/

namespace LayeredConfig

open Memory (Beyond Stored Likened Counterparts)
open World (Steady Still)

/-! ## Sections without identities -/

namespace Tree

theorem section?_anonymous (t : Tree) (key : String) :
    t.anonymous.section? key = (t.section? key).mapError ConfigurationError.anonymous := by
  rw [section?, section?, at?_anonymous]
  cases t.at? [key] with
  | none => rfl
  | some u =>
    have hbranches := branches?_anonymous u
    rw [Option.map_some]
    cases u with
    | scalar s => cases s <;> rfl
    | seq kind items => rfl
    | mapping entries =>
      rw [anonymous_mapping] at hbranches ⊢
      dsimp only
      rw [hbranches]
      exact congrArg Except.ok (mapValues_content_anonymous _)
    | node id frozen fields =>
      rw [anonymous_node]
      exact congrArg Except.ok (mapValues_content_anonymous fields)
    | _ => rfl

theorem sections_anonymous (t : Tree) (fields : Entries Blueprint) (keys : List String) :
    t.anonymous.sections fields keys
      = (t.sections fields keys).mapError ConfigurationError.anonymous := by
  induction keys generalizing fields with
  | nil => rfl
  | cons key rest ih =>
    rw [sections, sections, section?_anonymous]
    cases t.section? key with
    | error e => rfl
    | ok incoming => exact ih _

theorem databaseFields?_anonymous (t : Tree) (title : String) :
    t.anonymous.databaseFields? title = t.databaseFields? title := by
  rw [databaseFields?, databaseFields?, at?_anonymous]
  cases t.at? [title, "database"] with
  | none => rfl
  | some u =>
    rw [Option.map_some]
    dsimp only
    rw [truthy_anonymous, branches?_anonymous, Option.map_map]
    refine congrArg (fun own : Option (Entries Blueprint) ↦ if u.truthy then own else some []) ?_
    exact congrArg (Option.map · u.branches?) (funext mapValues_content_anonymous)

/-- The settings of a block hold no computation if nothing in the file does. -/
theorem settled_databaseFields? {t : Tree} (ht : t.content.Settled) {title : String}
    {fields : Entries Blueprint} (h : t.databaseFields? title = some fields) :
    ∀ e ∈ fields, e.2.Settled := by
  by_cases hne : fields = []
  · subst hne
    exact fun e he ↦ absurd he List.not_mem_nil
  · obtain ⟨u, hat, -, hcontent⟩ := at?_of_databaseFields? h hne
    have hsettled := settled_at? ht hat
    rw [hcontent] at hsettled
    exact hsettled.fields

end Tree

theorem Blueprint.Settled.overlay {old new : Entries Blueprint} (hold : ∀ e ∈ old, e.2.Settled)
    (hnew : ∀ e ∈ new, e.2.Settled) : ∀ e ∈ old.overlay new, e.2.Settled := by
  induction new generalizing old with
  | nil => exact hold
  | cons e rest ih =>
    obtain ⟨he, hrest⟩ := List.forall_mem_cons.mp hnew
    exact ih (.put hold he e.1) hrest

namespace Memory.Counterparts

variable {m m' : Memory} {d d' : NodeId} (hd : Counterparts m d m' d')

include hd

theorem at?_eq (p : List String) : ((m'.view (.node d')).at? p).map Tree.anonymous
    = ((m.view (.node d)).at? p).map Tree.anonymous := by
  rw [← Tree.at?_anonymous, ← Tree.at?_anonymous, hd.anonymous_eq]

/-- The same things are set. -/
theorem isSet_eq (p : List String) : ((m'.view (.node d')).at? p).any Tree.truthy
    = ((m.view (.node d)).at? p).any Tree.truthy := by
  have hany (o : Option Tree) : o.any Tree.truthy = (o.map Tree.anonymous).any Tree.truthy := by
    cases o with
    | none => rfl
    | some t => exact (Tree.truthy_anonymous t).symm
  rw [hany, hd.at?_eq, ← hany]

/-- A block that is refused is refused in the same words. -/
theorem anonymous_databaseNotMapping {title : String} {p : List String} {t t' : Tree}
    (ht : (m.view (.node d)).at? p = some t) (ht' : (m'.view (.node d')).at? p = some t') :
    (Failure.configuration (.invalidStructure (.databaseNotMapping title t))).anonymous
      = (Failure.configuration (.invalidStructure (.databaseNotMapping title t'))).anonymous := by
  have hsame := hd.at?_eq p
  rw [ht, ht'] at hsame
  rw [Failure.anonymous, Failure.anonymous, ConfigurationError.anonymous,
    ConfigurationError.anonymous, StructureFault.anonymous, StructureFault.anonymous,
    Option.some.inj hsame]

theorem databaseFields?_eq (title : String) : (m'.view (.node d')).databaseFields? title
    = (m.view (.node d)).databaseFields? title := by
  rw [← Tree.databaseFields?_anonymous, ← hd.anonymous_eq, Tree.databaseFields?_anonymous]

end Memory.Counterparts

/-! ## Written out -/

/-- The node is frozen, and from now on it is written out as the given value. -/
structure Memory.Exports (m : Memory) (n : NodeId) (v : Value) : Prop where
  sound : m.forest.Sound
  mem : n ∈ m.forest
  frozen : m.forest.frozen n = true
  written : ∀ m', Beyond m m' → ∃ m'', Node.toMapping n m' = .ok v m''

namespace Memory

variable {m m' : Memory} {n : NodeId} {v : Value}

theorem Exports.later (h : m.Exports n v) (hmm : Beyond m m') : m'.Exports n v where
  sound := hmm.sound
  mem := hmm.grown.mem h.mem
  frozen := by
    rw [Forest.frozen, hmm.grown.cell_eq h.mem, ← Forest.frozen]
    exact h.frozen
  written m'' h' := h.written m'' (hmm.trans h')

/-- A node is written out in one way only. -/
theorem Exports.unique {v' : Value} (h : m.Exports n v) (h' : m.Exports n v') : v = v' := by
  obtain ⟨t, ht⟩ := h.written m (.refl h.sound)
  obtain ⟨t', ht'⟩ := h'.written m (.refl h.sound)
  rw [ht] at ht'
  exact (EStateM.Result.ok.inj ht').1

/-- A tree without computations is written out as its content. -/
theorem Parsed.exports (hp : m.Parsed n) (hn : m.forest.frozen n = true) :
    m.Exports n (m.view (.node n)).content.plain where
  sound := hp.sound
  mem := hp.mem
  frozen := hn
  written m' hmm := by
    have hlater := hp.later hmm
    rw [← hmm.view_eq hp.sound (Memory.known_node hp.mem)]
    exact ⟨m', Node.toMapping_of_settled hlater.sound hlater.mem hlater.settled⟩

end Memory

theorem ReadsAs.exports {m₀ m : Memory} {n : NodeId} {mode : Blueprint}
    {fields : Entries Blueprint} (h : ReadsAs m₀ m n mode fields) :
    Memory.Exports { m with forest := m.forest.freeze n } n (Blueprint.node fields).plain where
  sound := h.beyond_freeze.sound
  mem := Forest.mem_freeze.mpr h.mem
  frozen := h.beyond.sound.frozen_freeze_of_reaches (.refl m.forest n)
  written _ hmm := h.toMapping_freeze hmm

/-- Reading either draft gives the same fields. -/
def SameReadings (m₀ m : Memory) (n : NodeId) (m₀' m' : Memory) (n' : NodeId) : Prop :=
  ∃ mode fields, ReadsAs m₀ m n mode fields ∧ ReadsAs m₀' m' n' mode fields

theorem SameReadings.later {m₀ m t m₀' m' t' : Memory} {n n' : NodeId}
    (h : SameReadings m₀ m n m₀' m' n') (ht : Beyond m t) (ht' : Beyond m' t') :
    SameReadings m₀ t n m₀' t' n' := by
  obtain ⟨mode, fields, h, h'⟩ := h
  exact ⟨mode, fields, h.later ht, h'.later ht'⟩

namespace Loader

variable {l : Loader} {w₀ s s' w w' : World} {m m' : Memory} {n n' d d' : NodeId}
  {environment : Option String}

/-! ## The stages of loading -/

theorem concur_mergeSections (hd : Counterparts m d m' d') (environment : Option String) :
    Concur Beyond m m' (fun n t n' t' ↦ SameDrafts m t n m' t' n')
      (mergeSections (environmentValue environment) d m)
      (mergeSections (environmentValue environment) d' m') := by
  have hsame := Tree.sections_anonymous (m'.view (.node d')) [] (sectionNames environment)
  rw [← hd.anonymous_eq, Tree.sections_anonymous] at hsame
  cases hok : (m.view (.node d)).sections [] (sectionNames environment) with
  | error e =>
    rw [hok] at hsame
    cases hok' : (m'.view (.node d')).sections [] (sectionNames environment) with
    | error e' =>
      rw [hok'] at hsame
      obtain ⟨t, herror, ht⟩ := mergeSections_of_error environment hd.parsed hok
      obtain ⟨t', herror', ht'⟩ := mergeSections_of_error environment hd.parsed' hok'
      rw [herror, herror']
      exact ⟨ht, ht', congrArg Failure.configuration (Except.error.inj hsame)⟩
    | ok fields' =>
      rw [hok'] at hsame
      cases hsame
  | ok fields =>
    rw [hok] at hsame
    cases hok' : (m'.view (.node d')).sections [] (sectionNames environment) with
    | error e' =>
      rw [hok'] at hsame
      cases hsame
    | ok fields' =>
      rw [hok'] at hsame
      obtain rfl : fields = fields' := Except.ok.inj hsame
      obtain ⟨n, t, hmerge, h⟩ := mergeSections_of_ok environment hd.parsed hok
      obtain ⟨n', t', hmerge', h'⟩ := mergeSections_of_ok environment hd.parsed' hok'
      rw [hmerge, hmerge']
      refine ⟨h.beyond, h'.beyond, fields, h, h', ?_⟩
      exact Tree.settled_sections hd.parsed.settled (fun e he ↦ absurd he List.not_mem_nil) hok

theorem concur_derive (hl : l.Functional w₀) (hs : Steady w₀ s) (hs' : Steady w₀ s')
    (hw : Still s w) (hw' : Still s' w')
    (h : SameDrafts s.memory w.memory n s'.memory w'.memory n') :
    Concur Still s s' (fun _ t _ t' ↦ SameReadings s.memory t.memory n s'.memory t'.memory n')
      (l.derive n w) (l.derive n' w') := by
  obtain ⟨fields, h, h', hfields⟩ := h
  obtain ⟨t, ht, hreads⟩ := (h.readsAs hfields).deriveValues
  obtain ⟨t', ht', hreads'⟩ := (h'.readsAs hfields).deriveValues
  rw [derive, derive]
  refine .of_read (onMemory_of_ok ht) (onMemory_of_ok ht') ?_
  have hu : Still s { w with memory := t } := hw.withMemory hreads.beyond
  have hu' : Still s' { w' with memory := t' } := hw'.withMemory hreads'.beyond
  have hasked := hl.version (IsTrans.trans _ _ _ hs hu.toSteady)
    (IsTrans.trans _ _ _ hs' hu'.toSteady)
    (packageName (Derived.inMode (Derived.found fields "app_mode") "katello"))
  refine ((hasked.mono fun _ _ _ _ ht ht' hv ↦ And.intro hv (And.intro ht ht')).since hu hu').bind
    fun v u v' u' hsu hsu' ⟨hv, hu, hu'⟩ ↦ ?_
  have hr := hreads.later hu.beyond
  have hr' := hreads'.later hu'.beyond
  refine Concur.lift (Q := fun _ t _ t' ↦ SameReadings s.memory t n s'.memory t' n') hsu hsu' ?_
  refine hv.set hr.beyond hr'.beyond hr.frozen hr'.frozen fun hkeyed hkeyed' ↦ ?_
  have hkey : "katello_version" ≠ "app_mode" := by decide
  obtain ⟨x, hset, hx⟩ := hr.set_settled hkey hkeyed hv.settled
  obtain ⟨x', hset', hx'⟩ := hr'.set_settled hkey hkeyed' hv.settled'
  rw [← hv.content_eq] at hx'
  exact ⟨x, x', hset, hset', hx.beyond, hx'.beyond, _, _, hx, hx'⟩

/-- Checking the rules of like drafts. -/
theorem concur_validate (hw₀ : w₀.memory.forest.Sound)
    (hrules : ∀ rule ∈ l.rules, rule.Knows w₀.memory.Known) (hs : Steady w₀ s)
    (hs' : Steady w₀ s') (hw : Still s w) (hw' : Still s' w')
    (h : SameReadings s.memory w.memory n s'.memory w'.memory n') :
    Concur Still s s' (fun _ t _ t' ↦ SameReadings s.memory t.memory n s'.memory t'.memory n')
      (l.validate (environmentValue environment) n w)
      (l.validate (environmentValue environment) n' w') := by
  have hlevel : ∃ fields, Scope.Level w₀.memory w.memory w'.memory
      ⟨n, environmentValue environment, []⟩ n' fields := by
    obtain ⟨mode, fields, h, h'⟩ := h
    refine ⟨fields, hw₀, hs.beyond.trans hw.beyond, hs'.beyond.trans hw'.beyond, ?_, h.presents,
      h'.presents⟩
    intro a ha
    cases environment <;> exact absurd ha List.not_mem_nil
  obtain ⟨fields, hlevel⟩ := hlevel
  have hstill : Still w w := .refl hlevel.beyond.sound
  have hstill' : Still w' w' := .refl hlevel.beyond'.sound
  have hchecked := Concur.lift hstill hstill' (hlevel.checkRules hrules)
  refine Concur.since ?_ hw hw'
  refine (hchecked.mono fun _ t _ t' ht ht' _ ↦ h.later ht.beyond ht'.beyond).tryCatch
    fun e t e' t' ht ht' he ↦ ?_
  -- what is caught is noted in the log and thrown again
  split
  all_goals split
  all_goals exact ⟨ht.logged _, ht'.logged _, he⟩

/-- Giving out like drafts, where the path of the file is known. -/
theorem concur_giveOut {path path' : String} (hpath : (w.memo l.number).path = some path)
    (hpath' : (w'.memo l.number).path = some path') (environment : Value) (hw : Still s w)
    (hw' : Still s' w') (h : SameReadings s.memory w.memory n s'.memory w'.memory n') :
    Concur Still s s' (fun a t a' t' ↦ ∃ v, t.memory.Exports a v ∧ t'.memory.Exports a' v)
      (l.giveOut environment n w) (l.giveOut environment n' w') := by
  obtain ⟨mode, fields, h, h'⟩ := h
  rw [giveOut, giveOut]
  refine .of_read (onMemory_of_ok rfl) (onMemory_of_ok rfl) ?_
  refine .of_read (onMemory_of_ok rfl) (onMemory_of_ok rfl) ?_
  refine .of_read (remembered_of_known hpath) (remembered_of_known hpath') ?_
  exact ⟨(hw.withMemory h.beyond_freeze).logged _, (hw'.withMemory h'.beyond_freeze).logged _,
    _, h.exports, h'.exports⟩

/-- **Building a configuration again** from the contents of the file gives one that is written out
as the same, or it fails in the same way. -/
theorem concur_loadFrom (hl : l.Functional w₀) (hw₀ : w₀.memory.forest.Sound)
    (hrules : ∀ rule ∈ l.rules, rule.Knows w₀.memory.Known) (hw : Steady w₀ w)
    (hw' : Steady w₀ w') (hd : Counterparts w.memory d w'.memory d') {path path' : String}
    (hpath : (w.memo l.number).path = some path) (hpath' : (w'.memo l.number).path = some path')
    (environment : Option String) :
    Concur Still w w' (fun n t n' t' ↦ ∃ v, t.memory.Exports n v ∧ t'.memory.Exports n' v)
      (l.loadFrom (environmentValue environment) d w)
      (l.loadFrom (environmentValue environment) d' w') := by
  have hmerged := Concur.lift (.refl hw.sound) (.refl hw'.sound)
    (concur_mergeSections hd environment)
  refine hmerged.bind fun n t n' t' ht ht' hdrafts ↦ ?_
  refine (concur_derive hl hw hw' ht ht' hdrafts).bind fun _ u _ u' hu hu' hreadings ↦ ?_
  refine (concur_validate hw₀ hrules hw hw' hu hu' hreadings).bind
    fun _ x _ x' hx hx' hreadings ↦ ?_
  rw [← hx.memo_eq] at hpath
  rw [← hx'.memo_eq] at hpath'
  exact concur_giveOut hpath hpath' _ hx hx' hreadings

/-! ## Database settings -/

theorem concur_databaseBlock (hd : Counterparts m d m' d') (title : String) :
    Concur Beyond m m' (fun own t own' t' ↦ t = m ∧ t' = m' ∧ ∃ fields,
        (m.view (.node d)).databaseFields? title = some fields ∧
        own = Blueprint.plainEntries fields ∧ own' = Blueprint.plainEntries fields)
      (databaseBlock d (.text title) m) (databaseBlock d' (.text title) m') := by
  have hm : Beyond m m := .refl hd.parsed.sound
  have hm' : Beyond m' m' := .refl hd.parsed'.sound
  have hblock := hd.parsed.databaseBlock_eq title
  have hblock' := hd.parsed'.databaseBlock_eq title
  rw [hd.databaseFields?_eq] at hblock'
  cases hfields : (m.view (.node d)).databaseFields? title with
  | some fields =>
    rw [hfields] at hblock hblock'
    rw [hblock, hblock']
    exact ⟨hm, hm', rfl, rfl, fields, rfl, rfl, rfl⟩
  | none =>
    rw [hfields] at hblock hblock'
    obtain ⟨t, hat, hblock⟩ := hblock
    obtain ⟨t', hat', hblock'⟩ := hblock'
    rw [hblock, hblock']
    exact ⟨hm, hm', hd.anonymous_databaseNotMapping hat hat'⟩

/-- Collecting the settings of any environments. -/
theorem concur_collectDatabases (hd : Counterparts m d m' d') {common : Entries Blueprint}
    (hcommon : ∀ e ∈ common, e.2.Settled) (all : DatabaseSettings) (environments : List Value) :
    Concur Beyond m m' (fun found _ found' _ ↦ found = found')
      (collectDatabases d (Blueprint.plainEntries common) all environments m)
      (collectDatabases d' (Blueprint.plainEntries common) all environments m') := by
  have hm : Beyond m m := .refl hd.parsed.sound
  have hm' : Beyond m' m' := .refl hd.parsed'.sound
  induction environments generalizing all with
  | nil => exact ⟨hm, hm', rfl⟩
  | cons environment rest ih =>
    by_cases htext : ∃ title, environment = .text title
    · obtain ⟨title, rfl⟩ := htext
      have hset' := hd.isSet_eq [title, "database"]
      cases hset : ((m.view (.node d)).at? [title, "database"]).any Tree.truthy with
      | false =>
        rw [hset] at hset'
        rw [collectDatabases_of_unset hd.parsed hset, collectDatabases_of_unset hd.parsed' hset']
        exact ih all
      | true =>
        rw [hset] at hset'
        have hfields' := hd.databaseFields?_eq title
        cases hfields : (m.view (.node d)).databaseFields? title with
        | some fields =>
          rw [hfields] at hfields'
          have hsettled := Blueprint.Settled.overlay hcommon
            (Tree.settled_databaseFields? hd.parsed.settled hfields)
          rw [collectDatabases_of_fields hd.parsed hset hfields,
            collectDatabases_of_fields hd.parsed' hset' hfields',
            Memory.settings_plain hsettled m' m]
          exact ih _
        | none =>
          rw [hfields] at hfields'
          obtain ⟨t, hat, hrefused⟩ := collectDatabases_of_refused hd.parsed hset hfields
          obtain ⟨t', hat', hrefused'⟩ := collectDatabases_of_refused hd.parsed' hset' hfields'
          rw [hrefused, hrefused']
          exact ⟨hm, hm', hd.anonymous_databaseNotMapping hat hat'⟩
    · -- what is no text is no key, and it may not even be asked for
      have hne : ∀ title, environment ≠ .text title := fun title heq ↦ htext ⟨title, heq⟩
      have hasked : Concur Beyond m m' (fun b t b' t' ↦ b = false ∧ b' = false ∧ t = m ∧ t' = m')
          (hasDatabase d environment m) (hasDatabase d' environment m') := by
        rw [hasDatabase, hasDatabase, Node.present, Node.present, Node.presentWith,
          Node.presentWith]
        refine (Node.concur_hasKey_of_not_text hd.parsed.sound hd.parsed'.sound hne d d').bind ?_
        rintro b t b' t' _ _ ⟨rfl, rfl, rfl, rfl⟩
        exact ⟨hm, hm', rfl, rfl, rfl, rfl⟩
      rw [collectDatabases, collectDatabases]
      refine hasked.bind ?_
      rintro b t b' t' _ _ ⟨rfl, rfl, rfl, rfl⟩
      exact ih all

/-- **Reporting the database settings again** gives the same, or it fails in the same way. -/
theorem concur_databasesFrom (hw : w.memory.forest.Sound) (hw' : w'.memory.forest.Sound)
    (hd : Counterparts w.memory d w'.memory d') :
    Concur Still w w' (fun all _ all' _ ↦ all = all') (l.databasesFrom d w)
      (l.databasesFrom d' w') := by
  rw [databasesFrom, databasesFrom]
  refine (Concur.lift (.refl hw) (.refl hw') (concur_databaseBlock hd commonSection)).bind ?_
  rintro _ t _ t' ht ht' ⟨hmemory, hmemory', common, hcommon, rfl, rfl⟩
  refine Concur.lift (Q := fun all _ all' _ ↦ all = all') ht ht' ?_
  rw [hmemory, hmemory']
  exact concur_collectDatabases hd
    (Tree.settled_databaseFields? hd.parsed.settled hcommon) [] l.databaseEnvironments

end Loader

end LayeredConfig
