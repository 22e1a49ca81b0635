import LayeredConfig.Proofs.Loader.Promises

/-!
# What was given out still passes

The rules are checked on the tree while it can be written to, and what is given out is the frozen
tree. A copy of it shares its predicates, and a node that is built of what it is written out as holds
their answers. All of them offer the contents that were checked, so rules over scalars, which passed
then, pass on each of them whenever they are checked again.
-/

namespace LayeredConfig

open Memory (Beyond Reruns Offers)

/-! ## What copies offer -/

/-- Answers keep the keys apart. -/
theorem Blueprint.Distinct.answered {fields : Entries Blueprint}
    (h : (Blueprint.node fields).Distinct) (answer : DeferredId → Scalar) :
    (Blueprint.node (fields.mapValues (Blueprint.answered answer))).Distinct := by
  cases h with
  | node hkeys hall =>
    refine .node (by rwa [Entries.keys_mapValues]) fun e he ↦ ?_
    obtain ⟨a, ha, rfl⟩ := List.mem_map.mp he
    have hdistinct := hall a ha
    change (a.2.answered answer).Distinct
    cases hb : a.2 with
    | deferred d => exact .scalar (answer d)
    | _ => rwa [hb] at hdistinct

namespace Mirrors

variable {m : Memory} {n copy : NodeId} {mode : Blueprint} {answer : DeferredId → Scalar}
  {stored : Entries Blueprint} (h : Mirrors m n copy mode answer stored)

include h

/-- The predicates answer as the mode says, whenever they are asked. -/
theorem gives {d : DeferredId} (hd : m.Tells n mode d (answer d)) :
    m.Gives d (.scalar (answer d)) := by
  intro m' hmm
  have h' := h.later hmm.beyond
  refine ⟨_, m'.countRun d, h'.hasMode.evaluate_eq (hd.beyond hmm.beyond), ?_, .scalar _ _⟩
  exact ⟨(Memory.reruns_countRun m' d).beyond h'.sound, rfl⟩

theorem offers : m.Offers copy (stored.mapValues (Blueprint.answered answer)) where
  sound := h.sound
  mem := h.copy_mem
  held := ⟨answer, stored, h.copy_content, rfl, fun e he ↦
    (h.entries e he).imp_right fun ⟨d, hd, ht⟩ ↦ ⟨d, hd, h.gives ht⟩⟩

/-- Copying makes another copy. -/
theorem exists_copy : ∃ c m', Node.copy copy m = .ok c m' ∧ Mirrors m' n c mode answer stored := by
  have hkeyed : (m.view (.node copy)).WellKeyed :=
    h.sound.wellKeyed_view (Value.Uniform.node copy : Value.Uniform .list (.node copy))
  obtain ⟨c, m', hcopy, hdraft⟩ := draft_of_content h.sound hkeyed h.copy_content
  have hlater := h.later hdraft.beyond
  exact ⟨c, m', hcopy, hlater.sound, hlater.mem, hlater.content, hdraft.mem, hdraft.content_view,
    hlater.mode_eq, hlater.settled, hlater.entries⟩

/-- Of what is written out, a node is made that holds the answers. -/
theorem exists_rebuilt : ∃ v m' c m'', Node.toMapping copy m = .ok v m' ∧
    Node.create v m' = .ok c m'' ∧
      m''.Offers c (stored.mapValues (Blueprint.answered answer)) := by
  obtain ⟨m', hwritten, hreruns⟩ := h.toMapping
  have hm' := (hreruns.beyond h.sound).sound
  have hsettled := Blueprint.settled_answered (fun e he ↦
    (h.entries e he).imp_right fun ⟨d, hd, _⟩ ↦ ⟨d, hd⟩) answer
  have hdistinct : (Blueprint.node stored).Distinct :=
    h.copy_content ▸ (h.sound.distinct_view (.node copy)).content
  obtain ⟨hcontent, hkeyed⟩ := (Blueprint.Settled.node hsettled).content_plain
    (hdistinct.answered answer) m'
  obtain ⟨c, m'', hcreate, hdraft⟩ := draft_of_content hm' hkeyed hcontent
  exact ⟨_, m', c, m'', hwritten, hcreate,
    .of_settled hdraft.sound hdraft.mem hdraft.content_view hsettled⟩

end Mirrors

/-! ## Checking again -/

/-- The rules pass on the node, on a copy of it, and on a node that is made of what it is written
out as. -/
structure Memory.Repasses (m : Memory) (n : NodeId) (environment : Value) (rules : List Rule) :
    Prop where
  itself : Validator.Ends ⟨⟨n, environment, []⟩, rules⟩ m none
  copied : ∃ c m', Node.copy n m = .ok c m' ∧
    Validator.Ends ⟨⟨c, environment, []⟩, rules⟩ m' none
  rebuilt : ∃ v m' c m'', Node.toMapping n m = .ok v m' ∧ Node.create v m' = .ok c m'' ∧
    Validator.Ends ⟨⟨c, environment, []⟩, rules⟩ m'' none

/-- Rules over scalars that have passed on a node pass on each that offers the same. -/
theorem Memory.Offers.passes {m m' : Memory} {n n' : NodeId} {fields : Entries Blueprint}
    {environment : Value} {rules : List Rule} (h : m.Offers n fields) (h' : m'.Offers n' fields)
    (henvironment : environment.IsScalar) (hrules : ∀ rule ∈ rules, rule.OverTexts Value.IsScalar)
    (hpasses : Validator.Ends ⟨⟨n, environment, []⟩, rules⟩ m none) :
    Validator.Ends ⟨⟨n', environment, []⟩, rules⟩ m' none := by
  obtain ⟨o, hends, hends'⟩ := h.ends h' henvironment hrules []
  obtain rfl := hends.unique hpasses
  exact hends'

/-- If the rules pass on a draft, they pass on it once it is frozen, then and later. -/
theorem ReadsAs.repasses {m₀ m m' : Memory} {n : NodeId} {mode : Blueprint}
    {fields : Entries Blueprint} {environment : Value} {rules : List Rule}
    (h : ReadsAs m₀ m n mode fields) (henvironment : environment.IsScalar)
    (hrules : ∀ rule ∈ rules, rule.OverTexts Value.IsScalar)
    (hpasses : Validator.Ends ⟨⟨n, environment, []⟩, rules⟩ m none)
    (hmm : Beyond { m with forest := m.forest.freeze n } m') :
    m'.Repasses n environment rules := by
  obtain ⟨answer, stored, hpredicated, rfl⟩ := h
  have hpass : ∀ {t : Memory} {c : NodeId},
      t.Offers c (stored.mapValues (Blueprint.answered answer)) →
        Validator.Ends ⟨⟨c, environment, []⟩, rules⟩ t none := fun hoffers ↦
    hpredicated.mirrors.offers.passes hoffers henvironment hrules hpasses
  have hmirrors := hpredicated.mirrors_freeze.later hmm
  obtain ⟨c, t, hcopy, hcopied⟩ := hmirrors.exists_copy
  obtain ⟨v, t', c', t'', hwritten, hcreate, hrebuilt⟩ := hmirrors.exists_rebuilt
  exact ⟨hpass hmirrors.offers, ⟨c, t, hcopy, hpass hcopied.offers⟩,
    ⟨v, t', c', t'', hwritten, hcreate, hpass hrebuilt⟩⟩

namespace Loader

/-- **What was given out still passes.** Of rules over texts that list nothing but scalars: if a
configuration could be loaded for an environment, then now and later the rules pass on it, on a copy
of it and on a node that is rebuilt from it. And if they are checked on any node without computations
and once more when it is frozen, they pass both times or fail both times at the same key. -/
theorem exposed_repasses {rules : List Rule}
    (hrules : ∀ rule ∈ rules, rule.OverTexts Value.IsScalar) (environment : Option String) :
    (∀ (l : Loader) (w w₂ : World) (n : NodeId), l.rules = rules → l.Telling → l.Reveals →
      l.Readable w → l.load (environmentValue environment) w = .ok n w₂ →
        ∀ m, Beyond w₂.memory m → m.Repasses n (environmentValue environment) rules) ∧
    ∀ (m : Memory) (n : NodeId), m.forest.Sound → n ∈ m.forest →
      (m.view (.node n)).content.Settled → ∀ path : List String,
        ∃ m' o, Node.freeze n m = .ok () m' ∧
          Validator.Ends ⟨⟨n, environmentValue environment, path.map .text⟩, rules⟩ m o ∧
          Validator.Ends ⟨⟨n, environmentValue environment, path.map .text⟩, rules⟩ m' o := by
  have henvironment : (environmentValue environment).IsScalar := by
    cases environment <;> exact ⟨_, rfl⟩
  constructor
  · rintro l w w₂ n rfl htelling hreveals hreadable hload m hmm
    have hfull := hload
    rw [load] at hfull
    obtain ⟨data, w₁, hdata, -⟩ := bind_eq_ok.mp hfull
    have hm₁ := parsed_of_data hreveals hreadable hdata
    obtain ⟨merged, version, fields, t, -, -, -, hviolation, hreads, hmemory⟩ :=
      given_of_load htelling.informs hdata hm₁ hload
    have htexts : ∀ rule ∈ l.rules, rule.OverTexts w₁.memory.Known := fun rule hrule ↦
      (hrules rule hrule).mono fun v hv ↦ hv.known w₁.memory
    have hfinds := (describes_inspection hm₁.sound hreads environment).finds_checkRules htexts
    rw [hviolation htexts] at hfinds
    obtain ⟨t', hpasses, -⟩ := hfinds
    rw [hmemory] at hmm
    exact hreads.repasses henvironment hrules ⟨t', hpasses⟩ hmm
  · intro m n hm hn hsettled path
    let stored := (m.forest.fields n).mapValues Tree.content
    have hcontent : (m.view (.node n)).content = .node stored := Memory.content_node_eq hm n
    have hfields : ∀ e ∈ stored, e.2.Settled := by
      rw [hcontent] at hsettled
      exact hsettled.fields
    have hoffers : m.Offers n stored := .of_settled hm hn hcontent hfields
    have hfrozen : Offers { m with forest := m.forest.freeze n } n stored :=
      .of_settled (hm.freeze n) (Forest.mem_freeze.mpr hn)
        ((hm.content_freeze n n).trans hcontent) hfields
    obtain ⟨o, hends, hends'⟩ := hoffers.ends hfrozen henvironment hrules path
    exact ⟨_, o, rfl, hends, hends'⟩

open Katello (sampleLoader sampleDocument worldOf readable_worldOf plain_sampleDocument) in
set_option maxRecDepth 20000 in
/-- A complete file is loaded for production. The rules pass on what was given out, and as often as
they are checked on the contents of the file they end alike, frozen or not. -/
theorem exposed_repasses_sample : ∃ data n w₁ w₂,
    sampleLoader.data (worldOf sampleDocument) = .ok data w₁ ∧
    sampleLoader.load (environmentValue (some "production")) (worldOf sampleDocument) = .ok n w₂ ∧
    w₂.memory.Repasses n (environmentValue (some "production")) Katello.rules ∧
    ∃ m o, Node.freeze data w₁.memory = .ok () m ∧
      Validator.Ends ⟨⟨data, environmentValue (some "production"), []⟩, Katello.rules⟩ w₁.memory o ∧
      Validator.Ends ⟨⟨data, environmentValue (some "production"), []⟩, Katello.rules⟩ m o := by
  have hl : sampleLoader.Supplied :=
    supplied_of_decrypt rfl rfl VersionResolver.textual_default
  have hreadable := readable_worldOf plain_sampleDocument
  obtain ⟨data, w₁, hdata⟩ := exists_ok_of_succeeds
    (by decide +kernel : succeeds sampleLoader.data (worldOf sampleDocument) = true)
  obtain ⟨n, w₂, hload⟩ := exists_ok_of_succeeds (by decide +kernel :
    succeeds (sampleLoader.load (environmentValue (some "production"))) (worldOf sampleDocument)
      = true)
  have hreveals : sampleLoader.Reveals := reveals_of_decrypt rfl
  have hparsed := parsed_of_data hreveals hreadable hdata
  obtain ⟨_, _, _, _, _, hbeyond, _, _⟩ := of_load hl.telling hdata hparsed hload
  obtain ⟨hexposed, hfrozen⟩ := exposed_repasses Katello.overScalars_rules (some "production")
  obtain ⟨m, o, hends⟩ := hfrozen w₁.memory data hparsed.sound hparsed.mem hparsed.settled []
  exact ⟨data, n, w₁, w₂, hdata, hload, hexposed sampleLoader _ w₂ n rfl hl.telling hreveals hreadable
    hload _ (.refl hbeyond.sound), m, o, hends⟩

end Loader

end LayeredConfig
