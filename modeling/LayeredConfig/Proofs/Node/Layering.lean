import LayeredConfig.Proofs.Node.Drafting
import LayeredConfig.Proofs.Node.Exporting
import LayeredConfig.Proofs.Tree.Layering

/-!
# Merging layers

The laws of merging contents, as laws of runs. A layer may be merged into a node that reaches
nothing frozen when it shares no node with it; the merge then gets through, the layer stays as it
was, and what the node holds is the merge of the contents (`Memory.Layer.merge`). So a second merge
of the same layer changes nothing, a node is unchanged by what it is written out as and by its own
copy, and it makes no difference whether two layers are merged into a node one after the other or
are combined before.
-/

namespace LayeredConfig

open Memory (Beyond)

/-- What a content is written out as refers to no node. -/
theorem Blueprint.Settled.nodes_plain {b : Blueprint} (h : b.Settled) : b.plain.nodes = [] := by
  induction h with
  | scalar s => rfl
  | set items => rfl
  | list _ ih =>
    rw [plain_list, Value.list, Value.nodes_seq]
    simpa using ih
  | node _ ih =>
    rw [plain_node, Value.nodes_mapping, List.flatMap_map]
    simpa using ih

namespace Memory

variable {m m' : Memory} {n other : NodeId} {v : Value} {call : DeferredId → Eval Value}

/-- The contents of the fields of a node. -/
theorem fields_view (hm : m.forest.Sound) (n : NodeId) :
    (m.view (.node n)).fields = (m.forest.fields n).mapValues Tree.content := by
  rw [view, hm.view_eq_fields, Tree.fields]

theorem content_eq_fields (hm : m.forest.Sound) (n : NodeId) :
    (m.view (.node n)).content = .node (m.view (.node n)).fields := by
  rw [content_node_eq hm, fields_view hm]

theorem distinct_fields (hm : m.forest.Sound) (v : Value) :
    (Blueprint.node (m.view v).fields).Distinct := (hm.distinct_view v).fields

/-- What is open stays open while no node changes. -/
theorem Beyond.open (h : Beyond m m') (hm : m.forest.Sound) (hopen : m.forest.Open n) :
    m'.forest.Open n := by
  have hn := Forest.mem_of_frozen_eq_false (hopen n (.refl m.forest n))
  intro c hc
  have hc := h.grown.reaches hm hn hc
  rw [Forest.frozen, h.grown.cell_eq (hm.mem_of_reaches hn hc)]
  exact hopen c hc

/-- The trees of open nodes with the same contents are equal. -/
theorem equal_of_fields (hm : m.forest.Sound) (hm' : m'.forest.Sound) (hopen : m.forest.Open n)
    (hopen' : m'.forest.Open n) (h : (m.view (.node n)).fields = (m'.view (.node n)).fields) :
    (m.view (.node n)).content = (m'.view (.node n)).content ∧
      (m.view (.node n)).equal (m'.view (.node n)) = true := by
  have hcontent : (m.view (.node n)).content = (m'.view (.node n)).content := by
    rw [content_eq_fields hm, content_eq_fields hm', h]
  have hwritable : ∀ {m : Memory}, m.forest.Sound → m.forest.Open n →
      (m.view (.node n)).Writable := by
    intro m hm hopen
    apply hm.writable_view (.node n)
    intro a ha c hc
    rw [List.mem_singleton.mp ha] at hc
    exact hopen c hc
  refine ⟨hcontent, (hwritable hm hopen).equal_of_content (hwritable hm' hopen') ?_ hcontent⟩
  rw [view, hm'.view_eq_fields]
  exact Option.some_ne_none _

/-! ## Layers -/

/-- A layer for the node `n`: a node, or a mapping whose keys are texts, that exists and shares no
node with it. -/
structure Layer (m : Memory) (n : NodeId) (v : Value) : Prop where
  kind : (∃ other, v = .node other) ∨ (∃ entries, v = .mapping entries) ∧ (m.view v).WellKeyed
  known : m.Known v
  apart : ∀ c ∈ (m.view v).nodes, ¬m.forest.Reaches n c

namespace Layer

theorem of_node (hm : m.forest.Sound) (hother : other ∈ m.forest)
    (hapart : ∀ c, m.forest.Reaches other c → ¬m.forest.Reaches n c) : m.Layer n (.node other) :=
  ⟨.inl ⟨other, rfl⟩, known_node hother, fun c hc ↦ hapart c ((hm.mem_nodes_view_node other).mp hc)⟩

/-- What a node without computations is written out as is a layer for every node. -/
theorem of_plain {fields : Entries Blueprint} (hb : (Blueprint.node fields).Distinct)
    (hsettled : (Blueprint.node fields).Settled) (m : Memory) (n : NodeId) :
    m.Layer n (Blueprint.node fields).plain := by
  have hnodes := hsettled.nodes_plain
  refine ⟨.inr ⟨⟨_, Blueprint.plain_node fields⟩, (hsettled.content_plain hb m).2⟩, ?_, ?_⟩
  · intro a ha
    rw [hnodes] at ha
    exact absurd ha List.not_mem_nil
  · intro c hc
    obtain ⟨a, ha, _⟩ := Forest.mem_nodes_view.mp hc
    rw [hnodes] at ha
    exact absurd ha List.not_mem_nil

variable (h : m.Layer n v)

include h

theorem wellKeyed (hm : m.forest.Sound) : (m.view v).WellKeyed := by
  rcases h.kind with ⟨other, rfl⟩ | ⟨_, hkeyed⟩
  · have huniform : (Value.node other).Uniform .list := .node other
    exact hm.wellKeyed_view huniform
  · exact hkeyed

theorem exists_branches (hm : m.forest.Sound) : ∃ xs, (m.view v).branches? = some xs := by
  rcases h.kind with ⟨other, rfl⟩ | ⟨⟨entries, rfl⟩, _⟩
  · exact ⟨_, congrArg Tree.branches? (hm.view_eq_fields other)⟩
  · exact ⟨_, congrArg Tree.branches? (Forest.view_mapping entries)⟩

/-- Writing below the node leaves its layers alone. -/
theorem edited (hm : m.forest.Sound) (hfg : Forest.Edited n m.forest m'.forest) :
    m'.Layer n v ∧ m'.view v = m.view v := by
  have hreached : ∀ a ∈ v.nodes, ∀ c, m.forest.Reaches a c → c ∈ (m.view v).nodes := by
    intro a ha c hc
    exact Forest.mem_nodes_view.mpr ⟨a, ha, (hm.mem_nodes_view_node a).mpr hc⟩
  have hview : m'.view v = m.view v := hfg.view_eq hm h.known fun a ha c hc ↦
    h.apart c (hreached a ha c hc)
  refine ⟨⟨?_, fun a ha ↦ hfg.mem (h.known a ha), ?_⟩, hview⟩
  · rw [hview]
    exact h.kind
  · rw [hview]
    intro c hc hn
    obtain ⟨a, ha, hca⟩ := Forest.mem_nodes_view.mp hc
    have hmem := hm.mem_of_reaches (h.known a ha) ((hm.mem_nodes_view_node a).mp hca)
    exact h.apart c hc (hfg.reaches hmem hn)

/-- **Merging a layer** gets through, and merges the contents. -/
theorem merge (hm : m.forest.Sound) (hopen : m.forest.Open n) (call : DeferredId → Eval Value) :
    ∃ m', (Operation.merge n v).performWith call m = .ok (.node n) m' ∧
      Forest.Edited n m.forest m'.forest ∧ m'.forest.Open n ∧
      (m'.view (.node n)).fields
        = Blueprint.mergeFields (m.view (.node n)).fields (m.view v).fields := by
  obtain ⟨xs, hxs⟩ := h.exists_branches hm
  obtain ⟨g, hok, hfg, hmerged⟩ := hm.mergeValue_merged hopen hxs (h.wellKeyed hm) h.apart
  refine ⟨{ m with forest := g }, bind_of_ok (onForest_of_ok hok), hfg, hopen.edited hfg, ?_⟩
  have hfields : (m.view v).fields = xs.mapValues Tree.content := Tree.fields_of_branches hxs
  rw [fields_view hfg.sound, fields_view hm, hfields]
  exact hmerged.content Forest.CopyOf.content

end Layer

end Memory

/-! ## Copies as layers -/

/-- A copy of a node is a draft with its contents. -/
theorem draft_of_copy {m : Memory} (hm : m.forest.Sound) (n : NodeId)
    (call : DeferredId → Eval Value) :
    ∃ k m', (Operation.copy n).performWith call m = .ok (.node k) m' ∧
      Draft m m' k (m.view (.node n)).fields := by
  have huniform : (Value.node n).Uniform .list := .node n
  obtain ⟨k, m', hcreate, hdraft⟩ :=
    draft_of_content hm (hm.wellKeyed_view huniform) (Memory.content_eq_fields hm n)
  exact ⟨k, m', bind_of_ok hcreate, hdraft⟩

/-- Merging a draft into a node of the earlier memory merges the contents. -/
theorem Draft.merge_into {m₀ m : Memory} {n k : NodeId} {fields : Entries Blueprint}
    (h : Draft m₀ m k fields) (hm₀ : m₀.forest.Sound) (hopen : m₀.forest.Open n)
    (call : DeferredId → Eval Value) :
    ∃ m', (Operation.merge n (.node k)).performWith call m = .ok (.node n) m' ∧
      m'.forest.Sound ∧ m'.forest.Open n ∧
      (m'.view (.node n)).fields = Blueprint.mergeFields (m₀.view (.node n)).fields fields := by
  have hn := Forest.mem_of_frozen_eq_false (hopen n (.refl m₀.forest n))
  have hlayer : m.Layer n (.node k) := by
    refine .of_node h.sound h.mem fun c hkc hnc ↦ ?_
    -- the node reaches only what was there before the draft was made
    have hc := hm₀.mem_of_reaches hn (h.beyond.grown.reaches hm₀ hn hnc)
    exact h.not_reaches hc hkc
  obtain ⟨m', hok, hedited, hopen', hfields⟩ := hlayer.merge h.sound (h.beyond.open hm₀ hopen) call
  refine ⟨m', hok, hedited.sound, hopen', ?_⟩
  rw [hfields, h.beyond.view_eq hm₀ (Memory.known_node hn), Tree.fields_of_content h.content_view]

/-- **Merging the copy of a node** merges the contents, whatever the two nodes share. -/
theorem merge_of_copy {m : Memory} {n : NodeId} (hm : m.forest.Sound) (hopen : m.forest.Open n)
    (other : NodeId) (call : DeferredId → Eval Value) :
    ∃ k m₁ m₂, (Operation.copy other).performWith call m = .ok (.node k) m₁ ∧
      (Operation.merge n (.node k)).performWith call m₁ = .ok (.node n) m₂ ∧
      m₂.forest.Sound ∧ m₂.forest.Open n ∧
      (m₂.view (.node n)).fields
        = Blueprint.mergeFields (m.view (.node n)).fields (m.view (.node other)).fields := by
  obtain ⟨k, m₁, hcopy, hdraft⟩ := draft_of_copy hm other call
  obtain ⟨m₂, hmerge, hm₂, hopen₂, hfields⟩ := hdraft.merge_into hm hopen call
  exact ⟨k, m₁, m₂, hcopy, hmerge, hm₂, hopen₂, hfields⟩

/-! ## The laws -/

namespace Memory

variable {m : Memory} {n a b c : NodeId} {v : Value}

/-- Merging a layer a second time changes nothing any more. -/
theorem Layer.merge_twice (h : m.Layer n v) (hm : m.forest.Sound) (hopen : m.forest.Open n)
    (call : DeferredId → Eval Value) :
    ∃ m₁ m₂, (Operation.merge n v).performWith call m = .ok (.node n) m₁ ∧
      (Operation.merge n v).performWith call m₁ = .ok (.node n) m₂ ∧
      (m₂.view (.node n)).content = (m₁.view (.node n)).content ∧
      (m₂.view (.node n)).equal (m₁.view (.node n)) = true := by
  obtain ⟨m₁, hfirst, hedited₁, hopen₁, hfields₁⟩ := h.merge hm hopen call
  obtain ⟨hlayer, hview⟩ := h.edited hm hedited₁
  obtain ⟨m₂, hsecond, hedited₂, hopen₂, hfields₂⟩ := hlayer.merge hedited₁.sound hopen₁ call
  refine ⟨m₁, m₂, hfirst, hsecond, equal_of_fields hedited₂.sound hedited₁.sound hopen₂ hopen₁ ?_⟩
  rw [hfields₂, hview, hfields₁, (distinct_fields hm v).mergeFields_mergeFields]

/-- What a node without computations is written out as changes nothing when it is merged. -/
theorem merge_export (hm : m.forest.Sound) (hopen : m.forest.Open n)
    (hsettled : (m.view (.node n)).content.Settled) (call : DeferredId → Eval Value) :
    ∃ v m', (Operation.export n).performWith call m = .ok v m ∧
      (Operation.merge n v).performWith call m = .ok (.node n) m' ∧
      (m'.view (.node n)).content = (m.view (.node n)).content ∧
      (m'.view (.node n)).equal (m.view (.node n)) = true := by
  have hn := Forest.mem_of_frozen_eq_false (hopen n (.refl m.forest n))
  have hexport := Node.exportWith_of_settled hm hn hsettled call
  have hdistinct := distinct_fields hm (.node n)
  rw [content_eq_fields hm] at hsettled hexport
  obtain ⟨m', hmerge, hedited, hopen', hfields⟩ :=
    (Layer.of_plain hdistinct hsettled m n).merge hm hopen call
  have hplain := Tree.fields_of_content (hsettled.content_plain hdistinct m).1
  refine ⟨_, m', hexport, hmerge, equal_of_fields hedited.sound hm hopen' hopen ?_⟩
  rw [hfields, hplain]
  exact hdistinct.mergeFields_self

/-- So does the copy of a node. -/
theorem merge_copy (hm : m.forest.Sound) (hopen : m.forest.Open n)
    (call : DeferredId → Eval Value) :
    ∃ k m₁ m₂, (Operation.copy n).performWith call m = .ok (.node k) m₁ ∧
      (Operation.merge n (.node k)).performWith call m₁ = .ok (.node n) m₂ ∧
      (m₂.view (.node n)).content = (m.view (.node n)).content ∧
      (m₂.view (.node n)).equal (m.view (.node n)) = true := by
  obtain ⟨k, m₁, m₂, hcopy, hmerge, hm₂, hopen₂, hfields⟩ := merge_of_copy hm hopen n call
  refine ⟨k, m₁, m₂, hcopy, hmerge, equal_of_fields hm₂ hm hopen₂ hopen ?_⟩
  rw [hfields, (distinct_fields hm (.node n)).mergeFields_self]

/-- **Merging is idempotent.** For a node that reaches nothing frozen: merging a layer twice gives
the same tree as merging it once; if no computation stands in the node, then merging what it is
written out as leaves it as it was; and so does merging its copy. The same tree means equal values
and the same keys in the same order, at every depth. -/
theorem Reachable.merge_again (hm : m.Reachable)
    (hopen : ∀ c, m.forest.Reaches n c → m.forest.frozen c = false)
    (call : DeferredId → Eval Value) :
    (∀ v, m.Layer n v → ∃ m₁ m₂, (Operation.merge n v).performWith call m = .ok (.node n) m₁ ∧
      (Operation.merge n v).performWith call m₁ = .ok (.node n) m₂ ∧
      (m₂.view (.node n)).content = (m₁.view (.node n)).content ∧
      (m₂.view (.node n)).equal (m₁.view (.node n)) = true) ∧
    ((m.view (.node n)).content.Settled → ∃ v m',
      (Operation.export n).performWith call m = .ok v m ∧
      (Operation.merge n v).performWith call m = .ok (.node n) m' ∧
      (m'.view (.node n)).content = (m.view (.node n)).content ∧
      (m'.view (.node n)).equal (m.view (.node n)) = true) ∧
    ∃ k m₁ m₂, (Operation.copy n).performWith call m = .ok (.node k) m₁ ∧
      (Operation.merge n (.node k)).performWith call m₁ = .ok (.node n) m₂ ∧
      (m₂.view (.node n)).content = (m.view (.node n)).content ∧
      (m₂.view (.node n)).equal (m.view (.node n)) = true :=
  ⟨fun _ h ↦ h.merge_twice hm.sound hopen call,
    fun hsettled ↦ merge_export hm.sound hopen hsettled call, merge_copy hm.sound hopen call⟩

/-- A mapping merged twice into a node that holds another one. -/
theorem merge_again_sample : ∃ (m m₁ m₂ : Memory) (v : Value), m.Reachable ∧
    v = .mapping [(.text "a", .null), (.text "b", .list [])] ∧
    (Operation.merge ⟨0⟩ v).performWith evaluate m = .ok (.node ⟨0⟩) m₁ ∧
    (Operation.merge ⟨0⟩ v).performWith evaluate m₁ = .ok (.node ⟨0⟩) m₂ ∧
    (m₂.view (.node ⟨0⟩)).content = (m₁.view (.node ⟨0⟩)).content := by
  let make := Operation.create (.mapping [(.text "a", .mapping [(.text "c", .int 1)])])
  let m := after (make.performWith (evaluateWithin 0)) default
  have hm : m.Reachable := .single (.operation default make 0)
  have hopen : m.forest.Open ⟨0⟩ := hm.sound.open_of_nodes (by decide +kernel)
  have hlayer : m.Layer ⟨0⟩ (.mapping [(.text "a", .null), (.text "b", .list [])]) := by
    refine ⟨.inr ⟨⟨_, rfl⟩, ?_⟩, fun _ ha ↦ absurd ha List.not_mem_nil,
      fun _ hc ↦ absurd hc List.not_mem_nil⟩
    exact Tree.wellKeyed_of_blueprint (b := .node [("a", .scalar .null), ("b", .list [])]) rfl
  obtain ⟨m₁, m₂, hfirst, hsecond, hsame, _⟩ := (hm.merge_again hopen evaluate).1 _ hlayer
  exact ⟨m, m₁, m₂, _, hm, rfl, hfirst, hsecond, hsame⟩

/-- **Layers may be folded from either end.** Two layers are merged into a node that reaches nothing
frozen and shares no node with them, where the first of them puts no plain value in the place of a
section. Merging the one and then the other gives the same tree as merging the second into a copy of
the first and the result into the node. -/
theorem Reachable.fold_layers (hm : m.Reachable)
    (hopen : ∀ x, m.forest.Reaches a x → m.forest.frozen x = false)
    (hb : b ∈ m.forest) (hc : c ∈ m.forest)
    (hab : ∀ x, m.forest.Reaches b x → ¬m.forest.Reaches a x)
    (hac : ∀ x, m.forest.Reaches c x → ¬m.forest.Reaches a x)
    (hspares : (m.view (.node a)).content.SparesSections (m.view (.node b)).content)
    (call : DeferredId → Eval Value) :
    ∃ m₁ m₂ k n₁ n₂ n₃,
      (Operation.merge a (.node b)).performWith call m = .ok (.node a) m₁ ∧
      (Operation.merge a (.node c)).performWith call m₁ = .ok (.node a) m₂ ∧
      (Operation.copy b).performWith call m = .ok (.node k) n₁ ∧
      (Operation.merge k (.node c)).performWith call n₁ = .ok (.node k) n₂ ∧
      (Operation.merge a (.node k)).performWith call n₂ = .ok (.node a) n₃ ∧
      (m₂.view (.node a)).content = (n₃.view (.node a)).content ∧
      (m₂.view (.node a)).equal (n₃.view (.node a)) = true := by
  have hf := hm.sound
  have hlayerb := Layer.of_node hf hb hab
  have hlayerc := Layer.of_node hf hc hac
  -- one after the other
  obtain ⟨m₁, hok₁, hedited₁, hopen₁, hfields₁⟩ := hlayerb.merge hf hopen call
  obtain ⟨hlayer₁, hview₁⟩ := hlayerc.edited hf hedited₁
  obtain ⟨m₂, hok₂, hedited₂, hopen₂, hfields₂⟩ := hlayer₁.merge hedited₁.sound hopen₁ call
  -- the second over a copy of the first
  obtain ⟨k, n₁, hcopy, hdraft⟩ := draft_of_copy hf b call
  obtain ⟨xs, hxs⟩ := hlayerc.exists_branches hf
  obtain ⟨n₂, hmerge, hdraft₂⟩ := hdraft.merge hf (known_node hc) (hlayerc.wellKeyed hf) hxs
  rw [← Tree.fields_of_branches hxs] at hdraft₂
  obtain ⟨n₃, hinto, hn₃, hopen₃, hfields₃⟩ := hdraft₂.merge_into hf hopen call
  refine ⟨m₁, m₂, k, n₁, n₂, n₃, hok₁, hok₂, hcopy, bind_of_ok hmerge, hinto,
    equal_of_fields hedited₂.sound hn₃ hopen₂ hopen₃ ?_⟩
  rw [content_eq_fields hf, content_eq_fields hf] at hspares
  rw [hfields₂, hview₁, hfields₁, hfields₃]
  exact Blueprint.mergeFields_assoc (distinct_fields hf (.node a)) (distinct_fields hf (.node b))
    (distinct_fields hf (.node c)) hspares

/-- Three nodes that stand beside each other in one tree, each with another key in the same
section. -/
theorem fold_layers_sample : ∃ m m₁ m₂ n₁ n₂ n₃ : Memory, ∃ k, m.Reachable ∧
    (Operation.merge ⟨1⟩ (.node ⟨3⟩)).performWith evaluate m = .ok (.node ⟨1⟩) m₁ ∧
    (Operation.merge ⟨1⟩ (.node ⟨5⟩)).performWith evaluate m₁ = .ok (.node ⟨1⟩) m₂ ∧
    (Operation.copy ⟨3⟩).performWith evaluate m = .ok (.node k) n₁ ∧
    (Operation.merge k (.node ⟨5⟩)).performWith evaluate n₁ = .ok (.node k) n₂ ∧
    (Operation.merge ⟨1⟩ (.node k)).performWith evaluate n₂ = .ok (.node ⟨1⟩) n₃ ∧
    (m₂.view (.node ⟨1⟩)).equal (n₃.view (.node ⟨1⟩)) = true := by
  let layer := fun key (n : Int) ↦ Value.mapping [(.text "s", .mapping [(.text key, .int n)])]
  let make := Operation.create
    (.mapping [(.text "a", layer "x" 1), (.text "b", layer "y" 2), (.text "c", layer "z" 3)])
  let m := after (make.performWith (evaluateWithin 0)) default
  have hm : m.Reachable := .single (.operation default make 0)
  have hf := hm.sound
  have hopen : m.forest.Open ⟨1⟩ := hf.open_of_nodes (by decide +kernel)
  have hapart : ∀ n, (∀ c ∈ (m.view (.node n)).nodes, c ∉ (m.view (.node ⟨1⟩)).nodes) →
      ∀ c, m.forest.Reaches n c → ¬m.forest.Reaches ⟨1⟩ c := by
    intro n h c hc hz
    exact h c ((hf.mem_nodes_view_node n).mpr hc) ((hf.mem_nodes_view_node ⟨1⟩).mpr hz)
  have hspares : (m.view (.node ⟨1⟩)).content.SparesSections (m.view (.node ⟨3⟩)).content := by
    have hx : (m.view (.node ⟨1⟩)).content = .node [("s", .node [("x", .scalar (.int 1))])] := rfl
    have hy : (m.view (.node ⟨3⟩)).content = .node [("s", .node [("y", .scalar (.int 2))])] := rfl
    rw [hx, hy, Blueprint.sparesSections_node_iff]
    simp only [Entries.find?, Option.ite_none_right_eq_some, Option.some.injEq]
    rintro _ _ _ ⟨rfl, rfl⟩ ⟨_, rfl⟩
    rw [Blueprint.sparesSections_node_iff]
    simp only [Entries.find?, Option.ite_none_right_eq_some, Option.some.injEq]
    rintro _ _ _ ⟨rfl, rfl⟩ _
    exact Blueprint.sparesSections_of_ne (fun _ h ↦ by cases h) _
  obtain ⟨m₁, m₂, k, n₁, n₂, n₃, h₁, h₂, h₃, h₄, h₅, _, hsame⟩ := hm.fold_layers hopen
    (by decide +kernel) (by decide +kernel) (hapart ⟨3⟩ (by decide +kernel))
    (hapart ⟨5⟩ (by decide +kernel)) hspares evaluate
  exact ⟨m, m₁, m₂, n₁, n₂, n₃, k, hm, h₁, h₂, h₃, h₄, h₅, hsame⟩

end Memory

end LayeredConfig
