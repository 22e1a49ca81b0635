import LayeredConfig.Proofs.Node.Layering
import LayeredConfig.Proofs.Tree.Comparing

/-!
# Equal nodes

Nodes are equal if each key leads to equal values in both. The order in which the keys were written
is not looked at, and no operation brings it back: what is done to one of two equal nodes may be
done to the other with an equal result (`Memory.Interchangeable`).

Each operation is first compared in two memories, where nothing is in the way. In one and the same
memory the operations follow each other, and the first must leave the second node alone. It does,
since no node equals one that stands inside it, so that equal nodes share nothing
(`Forest.Sound.apart_of_same`).
-/

namespace LayeredConfig

theorem Tree.equal_eq_itemEqual {t : Tree} (h : ∀ s, t ≠ .scalar s) (u : Tree) :
    t.equal u = t.itemEqual u := by
  cases t with
  | scalar s => exact absurd rfl (h s)
  | _ => rfl

namespace Forest

variable {f : Forest} {a b c : NodeId} {v w : Value}

/-- To every node that a value refers to, equal values refer to an equal one. -/
theorem Sound.exists_same_node (hf : f.Sound) {j k : SeqKind} (hv : v.Uniform j)
    (hw : w.Uniform k) (h : (f.view v).Same (f.view w)) (hc : c ∈ v.nodes) :
    ∃ d ∈ w.nodes, (f.view (.node c)).Same (f.view (.node d)) := by
  induction hv generalizing w with
  | @seq items _ ih =>
    rw [view_seq] at h
    cases hw with
    | @seq items' hall =>
      rw [view_seq, Tree.same_seq_iff, List.forall₂_map_left_iff, List.forall₂_map_right_iff] at h
      rw [Value.nodes_seq] at hc ⊢
      obtain ⟨x, hx, hcx⟩ := List.mem_flatMap.mp hc
      obtain ⟨i, hi, rfl⟩ := List.getElem_of_mem hx
      have hi' : i < items'.length := h.2.length_eq ▸ hi
      have hpair := h.2.get hi hi'
      obtain ⟨d, hd, hcd⟩ := ih _ hx (hall _ (List.getElem_mem hi')) hpair hcx
      exact ⟨d, List.mem_flatMap.mpr ⟨_, List.getElem_mem hi', hd⟩, hcd⟩
    | node id => rw [hf.view_node] at h; cases h
    | _ => cases h
  | node id =>
    cases hw with
    | node id' =>
      rw [List.mem_singleton.mp hc]
      exact ⟨id', List.mem_singleton_self id', h⟩
    | seq _ => rw [hf.view_node, view_seq] at h; cases h
    | _ => rw [hf.view_node] at h; cases h
  | _ => exact absurd hc List.not_mem_nil

/-- A node equals none that stands inside it. -/
theorem Sound.not_same_of_inside (hf : f.Sound)
    (hab : Relation.TransGen (fun n c ↦ c ∈ f.children n) a b) :
    ¬(f.view (.node a)).Same (f.view (.node b)) := by
  -- what leads from `a` to `b` stands in `a`, so that something equal stands in `b`
  induction a using hf.node_induction generalizing b with
  | h a ih =>
    intro h
    obtain ⟨x, hx, hxb⟩ := Relation.TransGen.head'_iff.mp hab
    obtain ⟨e, he, hxe⟩ := List.mem_flatMap.mp hx
    rw [hf.view_node, hf.view_node, Tree.same_node_iff, Entries.paired_mapValues_iff] at h
    obtain ⟨e', he', -, hsame⟩ := h.2 e he
    obtain ⟨y, hy, hxy⟩ :=
      hf.exists_same_node (hf.uniform a e he) (hf.uniform b e' he') hsame hxe
    have hby : y ∈ f.children b := List.mem_flatMap.mpr ⟨e', he', hy⟩
    exact ih x hx (Relation.TransGen.tail' hxb hby) hxy

/-- **Equal nodes share nothing.** -/
theorem Sound.apart_of_same (hf : f.Sound) (hne : a ≠ b)
    (hab : (f.view (.node a)).Same (f.view (.node b)))
    (hba : (f.view (.node b)).Same (f.view (.node a))) (hc : f.Reaches a c) : ¬f.Reaches b c := by
  have hnot : ∀ {x y : NodeId}, x ≠ y → (f.view (.node x)).Same (f.view (.node y)) →
      ¬f.Reaches x y := by
    intro x y hxy hsame hr
    rcases Relation.reflTransGen_iff_eq_or_transGen.mp hr with heq | hinside
    · exact hxy heq.symm
    · exact hf.not_same_of_inside hinside hsame
  intro hbc
  rcases hf.reaches_or_reaches hc hbc with hr | hr
  · exact hnot hne hab hr
  · exact hnot (Ne.symm hne) hba hr

/-- Writing to one of two nodes that share nothing leaves the other one alone. -/
theorem Edited.beside {g : Forest} (hfg : Edited a f g) (hf : f.Sound) (hb : b ∈ f)
    (hapart : ∀ c, f.Reaches a c → ¬f.Reaches b c) :
    g.view (.node b) = f.view (.node b) ∧ ∀ c, g.Reaches b c ↔ f.Reaches b c := by
  have hview : g.view (.node b) = f.view (.node b) := by
    refine hfg.view_eq hf (fun x hx ↦ ?_) fun x hx c hbc hac ↦ ?_
    · rwa [List.mem_singleton.mp hx]
    · rw [List.mem_singleton.mp hx] at hbc
      exact hapart c hac hbc
  refine ⟨hview, fun c ↦ ?_⟩
  rw [← hfg.sound.mem_nodes_view_node, hview, hf.mem_nodes_view_node]

end Forest

namespace Memory

variable {m m' m'' : Memory} {a b n k : NodeId} {v w : Value}

/-! ## Two memories -/

theorem standing_of_open (hm : m.forest.Sound) (hopen : m.forest.Open n) :
    (m.view (.node n)).Standing false := by
  refine hm.standing_view (.node n) fun a ha c hc ↦ ?_
  rw [List.mem_singleton.mp ha] at hc
  exact hopen c hc

/-- Equal values that can be stored have equal contents. -/
theorem same_content (hv : (m.view v).Proper) (hw : (m'.view w).Proper)
    (hvk : (m.view v).WellKeyed) (hwk : (m'.view w).WellKeyed)
    (h : (m.view v).Same (m'.view w)) : (m.view v).content.Same (m'.view w).content :=
  (hv.regular hvk).same_content (hw.regular hwk) h

theorem wellKeyed_node (hm : m.forest.Sound) (n : NodeId) : (m.view (.node n)).WellKeyed := by
  have huniform : (Value.node n).Uniform .list := .node n
  exact hm.wellKeyed_view huniform

namespace Layer

theorem content_eq_fields (h : m.Layer n v) (hm : m.forest.Sound) :
    (m.view v).content = .node (m.view v).fields := by
  rcases h.kind with ⟨other, rfl⟩ | ⟨⟨entries, rfl⟩, _⟩
  · exact Memory.content_eq_fields hm other
  · rw [view, Forest.view_mapping, Tree.content_mapping, Tree.fields]

/-- A layer stays one as long as the trees of the values are the same. -/
theorem later (h : m.Layer n v) (hm : m.forest.Sound) (hmm : Forest.Later m.forest m'.forest)
    (hview : m'.view v = m.view v) : m'.Layer n v := by
  refine ⟨?_, fun a ha ↦ hmm.mem (h.known a ha), ?_⟩
  · rw [hview]
    exact h.kind
  · rw [hview]
    intro c hc hn
    obtain ⟨a, ha, hca⟩ := Forest.mem_nodes_view.mp hc
    have hmem := hm.mem_of_reaches (h.known a ha) ((hm.mem_nodes_view_node a).mp hca)
    exact h.apart c hc (hmm.reaches hmem hn)

/-- **Merging equal layers into equal nodes** gives equal nodes. -/
theorem same_merge (hv : m.Layer a v) (hw : m'.Layer b w) (hm : m.forest.Sound)
    (hm' : m'.forest.Sound) (ha : m.forest.Open a) (hb : m'.forest.Open b)
    (hab : (m.view (.node a)).content.Same (m'.view (.node b)).content)
    (hvw : (m.view v).content.Same (m'.view w).content) (call : DeferredId → Eval Value) :
    ∃ m₁ m₂, (Operation.merge a v).performWith call m = .ok (.node a) m₁ ∧
      (Operation.merge b w).performWith call m' = .ok (.node b) m₂ ∧
      Forest.Edited a m.forest m₁.forest ∧ Forest.Edited b m'.forest m₂.forest ∧
      (m₁.view (.node a)).Same (m₂.view (.node b)) := by
  obtain ⟨m₁, hok, hedited, hopen, hfields⟩ := hv.merge hm ha call
  obtain ⟨m₂, hok', hedited', hopen', hfields'⟩ := hw.merge hm' hb call
  refine ⟨m₁, m₂, hok, hok', hedited, hedited', ?_⟩
  refine (standing_of_open hedited.sound hopen).same_of_content
    (standing_of_open hedited'.sound hopen') ?_
  rw [Memory.content_eq_fields hm, Memory.content_eq_fields hm'] at hab
  rw [hv.content_eq_fields hm, hw.content_eq_fields hm'] at hvw
  rw [Memory.content_eq_fields hedited.sound, Memory.content_eq_fields hedited'.sound, hfields,
    hfields']
  have hda := distinct_fields hm (.node a)
  have hdb := distinct_fields hm' (.node b)
  exact (distinct_fields hm v).same_merge (distinct_fields hm' w)
    (fun _ h ↦ Option.some.inj h ▸ hda) (fun _ h ↦ Option.some.inj h ▸ hdb) (.some hab) hvw

end Layer

/-! ## One memory -/

/-- The values are equal, as comparing them says. -/
def Equals (m : Memory) (v w : Value) : Prop := (m.view v).equal (m.view w) = true

/-- The values are equal as items of a collection. -/
def Alike (m : Memory) (v w : Value) : Prop := (m.view v).Same (m.view w)

theorem equals_iff_performWith (call : DeferredId → Eval Value) :
    m.Equals v w ↔ (Operation.equal v w).performWith call m = .ok (.bool true) m := by
  have hperform : (Operation.equal v w).performWith call m
      = .ok (.bool ((m.view v).equal (m.view w))) m := rfl
  rw [hperform]
  refine ⟨fun h ↦ by rw [h], fun h ↦ ?_⟩
  exact Scalar.bool.inj (Value.scalar.inj (EStateM.Result.ok.inj h).1)

theorem equals_iff_alike (h : ∀ s, m.view v ≠ .scalar s) : m.Equals v w ↔ m.Alike v w := by
  rw [Equals, Alike, Tree.Same, Tree.equal_eq_itemEqual h]

theorem equals_node_iff (hm : m.forest.Sound) : m.Equals (.node a) w ↔ m.Alike (.node a) w :=
  equals_iff_alike fun s hs ↦ by rw [view, hm.view_node] at hs; cases hs

theorem Layer.equals_iff (h : m.Layer n v) (hm : m.forest.Sound) :
    m.Equals v w ↔ m.Alike v w := by
  rcases h.kind with ⟨other, rfl⟩ | ⟨⟨entries, rfl⟩, _⟩
  · exact equals_node_iff hm
  · exact equals_iff_alike fun s hs ↦ by rw [view, Forest.view_mapping] at hs; cases hs

/-- What is done to either of two nodes gives equal results. -/
structure Interchangeable (m : Memory) (a b : NodeId) (call : DeferredId → Eval Value) :
    Prop where
  /-- Equal layers are merged into them, each in a run of its own, or the one after the other. -/
  merge : m.forest.Open a → m.forest.Open b → ∀ v w, m.Layer a v → m.Layer a w → m.Layer b w →
    (m.view v).Proper → (m.view w).Proper → m.Equals v w →
    ∃ m₁ m₂ m₃, (Operation.merge a v).performWith call m = .ok (.node a) m₁ ∧
      (Operation.merge b w).performWith call m = .ok (.node b) m₂ ∧
      (m₁.view (.node a)).equal (m₂.view (.node b)) = true ∧
      (Operation.merge b w).performWith call m₁ = .ok (.node b) m₃ ∧
      m₃.Equals (.node a) (.node b)
  copy : ∃ k l m₁ m₂, (Operation.copy a).performWith call m = .ok (.node k) m₁ ∧
    (Operation.copy b).performWith call m₁ = .ok (.node l) m₂ ∧ m₂.Equals (.node k) (.node l)
  freeze : ∃ m₁ m₂, (Operation.freeze a).performWith call m = .ok (.node a) m₁ ∧
    (Operation.freeze b).performWith call m₁ = .ok (.node b) m₂ ∧ m₂.Equals (.node a) (.node b)
  /-- They are written out. -/
  «export» : (m.view (.node a)).content.Settled → (m.view (.node b)).content.Settled →
    ∃ v w, (Operation.export a).performWith call m = .ok v m ∧
      (Operation.export b).performWith call m = .ok w m ∧ m.Equals v w

section Interchanging

variable (hm : m.forest.Sound) (hpa : (m.view (.node a)).Proper) (hpb : (m.view (.node b)).Proper)
  (h : m.Alike (.node a) (.node b))

include hm hpa hpb h

private theorem same_contents : (m.view (.node a)).content.Same (m.view (.node b)).content :=
  same_content hpa hpb (wellKeyed_node hm a) (wellKeyed_node hm b) h

variable (ha : a ∈ m.forest) (hb : b ∈ m.forest) (call : DeferredId → Eval Value)

include ha hb

omit ha in
/-- The copies are new nodes, so the first is not changed by making the second. -/
private theorem equals_copies :
    ∃ k l m₁ m₂, (Operation.copy a).performWith call m = .ok (.node k) m₁ ∧
      (Operation.copy b).performWith call m₁ = .ok (.node l) m₂ ∧
      m₂.Equals (.node k) (.node l) := by
  obtain ⟨k, m₁, hok, hdraft⟩ := draft_of_copy hm a call
  obtain ⟨l, m₂, hok', hdraft'⟩ := draft_of_copy hdraft.sound b call
  refine ⟨k, l, m₁, m₂, hok, hok', (equals_node_iff hdraft'.sound).mpr ?_⟩
  have hfirst := hdraft.later hdraft'.beyond
  refine (standing_of_open hfirst.sound hfirst.writable).same_of_content
    (standing_of_open hdraft'.sound hdraft'.writable) ?_
  have hview : m₁.view (.node b) = m.view (.node b) := hdraft.beyond.view_eq hm (known_node hb)
  rw [hfirst.content_view, hdraft'.content_view, hview, ← content_eq_fields hm,
    ← content_eq_fields hm]
  exact same_contents hm hpa hpb h

omit ha hb in
/-- Freezing keeps all contents, also if it freezes parts of the other node. -/
private theorem equals_frozen :
    ∃ m₁ m₂, (Operation.freeze a).performWith call m = .ok (.node a) m₁ ∧
      (Operation.freeze b).performWith call m₁ = .ok (.node b) m₂ ∧
      m₂.Equals (.node a) (.node b) := by
  let m₁ : Memory := { m with forest := m.forest.freeze a }
  let m₂ : Memory := { m₁ with forest := m₁.forest.freeze b }
  have hm₁ : m₁.forest.Sound := hm.freeze a
  have hm₂ : m₂.forest.Sound := hm₁.freeze b
  have hcontent : ∀ n, (m₂.view (.node n)).content = (m.view (.node n)).content := fun n ↦
    (hm₁.content_freeze b n).trans (hm.content_freeze a n)
  refine ⟨m₁, m₂, rfl, rfl, (equals_node_iff hm₂).mpr ?_⟩
  refine @Tree.Standing.same_of_content _ _ true (hm₂.standing_of_frozen ?_)
    (hm₂.standing_of_frozen ?_) ?_
  · exact hm₁.frozen_freeze_of_frozen b (hm.frozen_freeze_of_reaches (.refl m.forest a))
  · exact hm₁.frozen_freeze_of_reaches (.refl m₁.forest b)
  · rw [hcontent, hcontent]
    exact same_contents hm hpa hpb h

private theorem equals_exports (hsa : (m.view (.node a)).content.Settled)
    (hsb : (m.view (.node b)).content.Settled) :
    ∃ v w, (Operation.export a).performWith call m = .ok v m ∧
      (Operation.export b).performWith call m = .ok w m ∧ m.Equals v w := by
  refine ⟨_, _, Node.exportWith_of_settled hm ha hsa call,
    Node.exportWith_of_settled hm hb hsb call, ?_⟩
  have hsame := hsa.same_plain hsb (same_contents hm hpa hpb h) m m
  refine (equals_iff_alike fun s hs ↦ ?_).mpr hsame
  rw [content_eq_fields hm, Blueprint.plain_node, view, Forest.view_mapping] at hs
  cases hs

/-- Equal nodes that are not the same one are merged into without touching each other. -/
private theorem equals_merged (hoa : m.forest.Open a) (hob : m.forest.Open b)
    (hva : m.Layer a v) (hwa : m.Layer a w) (hwb : m.Layer b w) (hpv : (m.view v).Proper)
    (hpw : (m.view w).Proper) (hvw : m.Equals v w) :
    ∃ m₁ m₂ m₃, (Operation.merge a v).performWith call m = .ok (.node a) m₁ ∧
      (Operation.merge b w).performWith call m = .ok (.node b) m₂ ∧
      (m₁.view (.node a)).equal (m₂.view (.node b)) = true ∧
      (Operation.merge b w).performWith call m₁ = .ok (.node b) m₃ ∧
      m₃.Equals (.node a) (.node b) := by
  have hab := same_contents hm hpa hpb h
  have hvw := same_content hpv hpw (hva.wellKeyed hm) (hwb.wellKeyed hm)
    ((hva.equals_iff hm).mp hvw)
  obtain ⟨m₁, m₂, hok₁, hok₂, hedited₁, -, hsame⟩ :=
    hva.same_merge hwb hm hm hoa hob hab hvw call
  obtain ⟨hwa₁, hwview⟩ := hwa.edited hm hedited₁
  have hequal : (m₁.view (.node a)).equal (m₂.view (.node b)) = true := by
    rw [Tree.equal_eq_itemEqual fun s hs ↦ by
      rw [view, hedited₁.sound.view_node] at hs; cases hs]
    exact hsame
  by_cases hne : a = b
  · -- of one node there is one tree in the end
    subst hne
    obtain ⟨m₃, hok₃, hedited₃, -⟩ :=
      hwa₁.merge hedited₁.sound (hoa.edited hedited₁) call
    refine ⟨m₁, m₂, m₃, hok₁, hok₂, hequal, hok₃, (equals_node_iff hedited₃.sound).mpr ?_⟩
    exact Tree.itemEqual_self _
  · have hapart : ∀ c, m.forest.Reaches a c → ¬m.forest.Reaches b c := fun c hc ↦
      hm.apart_of_same hne h (hpa.symm hpb h) hc
    -- the second node is as it was
    obtain ⟨hbview, hbreach⟩ := hedited₁.beside hm hb hapart
    have hob₁ : m₁.forest.Open b := fun c hc ↦ by
      rw [hedited₁.frozen_eq (hm.mem_of_reaches hb ((hbreach c).mp hc))]
      exact hob c ((hbreach c).mp hc)
    have hwb₁ : m₁.Layer b w := hwb.later hm hedited₁.toLater hwview
    rw [← show m₁.view (.node b) = m.view (.node b) from hbview] at hab
    rw [← hwview] at hvw
    obtain ⟨m₁', m₃, hok₁', hok₃, -, hedited₃, hsame₃⟩ :=
      hva.same_merge hwb₁ hm hedited₁.sound hoa hob₁ hab hvw call
    obtain rfl := (EStateM.Result.ok.inj (hok₁'.symm.trans hok₁)).2
    refine ⟨_, m₂, m₃, hok₁, hok₂, hequal, hok₃, (equals_node_iff hedited₃.sound).mpr ?_⟩
    -- and the first is left alone in turn
    obtain ⟨haview, -⟩ := hedited₃.beside hedited₁.sound (hedited₁.mem ha) fun c hc hac ↦ by
      have hbc := (hbreach c).mp hc
      exact hapart c (hedited₁.reaches (hm.mem_of_reaches hb hbc) hac) hbc
    rw [Alike, view, haview]
    exact hsame₃

end Interchanging

/-- **Equal nodes are interchangeable.** Comparing nodes is an equivalence relation. Two nodes are
equal if each key leads to equal values in both or is missing in both, and sequences are equal if
they are of the same kind and have equal items in the same order; so at no level does the order of
the keys matter. What is done to one of two equal nodes may be done to the other with an equal
result: merging equal layers, copying, freezing and writing out. -/
theorem Reachable.equality_respected (hm : m.Reachable) (call : DeferredId → Eval Value) :
    (∀ a, m.Equals (.node a) (.node a)) ∧
    (∀ a b, (m.view (.node a)).Proper → (m.view (.node b)).Proper →
      m.Equals (.node a) (.node b) → m.Equals (.node b) (.node a)) ∧
    (∀ a b c, (m.view (.node a)).Proper → (m.view (.node b)).Proper → (m.view (.node c)).Proper →
      m.Equals (.node a) (.node b) → m.Equals (.node b) (.node c) →
      m.Equals (.node a) (.node c)) ∧
    (∀ a b, m.Equals (.node a) (.node b) ↔
      ∀ key, Option.Rel m.Alike (m.forest.find? a key) (m.forest.find? b key)) ∧
    (∀ a b, m.Alike (.node a) (.node b) ↔ m.Equals (.node a) (.node b)) ∧
    (∀ j k vs ws, m.Alike (.seq j vs) (.seq k ws) ↔ j = k ∧ List.Forall₂ m.Alike vs ws) ∧
    ∀ a ∈ m.forest, ∀ b ∈ m.forest, (m.view (.node a)).Proper → (m.view (.node b)).Proper →
      m.Equals (.node a) (.node b) → m.Interchangeable a b call := by
  have hf := hm.sound
  have hiff : ∀ a b, m.Equals (.node a) (.node b) ↔ m.Alike (.node a) (.node b) := fun a b ↦
    equals_node_iff hf
  refine ⟨fun a ↦ (hiff a a).mpr (Tree.itemEqual_self _), fun a b ha hb h ↦ ?_,
    fun a b c ha hb hc h h' ↦ ?_, fun a b ↦ ?_, fun a b ↦ (hiff a b).symm, fun j k vs ws ↦ ?_,
    fun a ha b hb hpa hpb h ↦ ?_⟩
  · exact (hiff b a).mpr (ha.symm hb ((hiff a b).mp h))
  · exact (hiff a c).mpr (ha.trans hb hc ((hiff a b).mp h) ((hiff b c).mp h'))
  · rw [hiff, Alike, view, view, hf.view_node, hf.view_node,
      Tree.same_node_iff_find? (by rw [Entries.keys_mapValues]; exact hf.distinct a)
        (by rw [Entries.keys_mapValues]; exact hf.distinct b)]
    refine forall_congr' fun key ↦ ?_
    rw [Entries.find?_mapValues, Entries.find?_mapValues, rel_map_iff]
    rfl
  · rw [Alike, view, view, Forest.view_seq, Forest.view_seq, Tree.same_seq_iff,
      List.forall₂_map_left_iff, List.forall₂_map_right_iff]
    rfl
  · have h := (hiff a b).mp h
    exact ⟨fun hoa hob _ _ hva hwa hwb hpv hpw hvw ↦
        equals_merged hf hpa hpb h ha hb call hoa hob hva hwa hwb hpv hpw hvw,
      equals_copies hf hpa hpb h hb call, equals_frozen hf hpa hpb h call,
      equals_exports hf hpa hpb h ha hb call⟩

/-- Two nodes with their keys in different orders, one of which holds a truth value where the other
one holds a number, and two such layers. -/
theorem equality_respected_sample : ∃ m m₁ m₂ m₃ : Memory, m.Reachable ∧
    (m.forest.entries ⟨1⟩).keys = ["x", "y"] ∧ (m.forest.entries ⟨2⟩).keys = ["y", "x"] ∧
    m.Equals (.node ⟨1⟩) (.node ⟨2⟩) ∧
    (Operation.merge ⟨1⟩ (.node ⟨3⟩)).performWith evaluate m = .ok (.node ⟨1⟩) m₁ ∧
    (Operation.merge ⟨2⟩ (.node ⟨4⟩)).performWith evaluate m = .ok (.node ⟨2⟩) m₂ ∧
    (m₁.view (.node ⟨1⟩)).equal (m₂.view (.node ⟨2⟩)) = true ∧
    (Operation.merge ⟨2⟩ (.node ⟨4⟩)).performWith evaluate m₁ = .ok (.node ⟨2⟩) m₃ ∧
    m₃.Equals (.node ⟨1⟩) (.node ⟨2⟩) := by
  let make := Operation.create (.mapping [
    (.text "a", .mapping [(.text "x", .int 1), (.text "y", .list [.bool true])]),
    (.text "b", .mapping [(.text "y", .list [.int 1]), (.text "x", .bool true)]),
    (.text "c", .mapping [(.text "z", .null), (.text "x", .int 0)]),
    (.text "d", .mapping [(.text "x", .bool false), (.text "z", .null)])])
  let m := after (make.performWith (evaluateWithin 0)) default
  have hm : m.Reachable := .single (.operation default make 0)
  have hf := hm.sound
  have hopen : ∀ n, (∀ c ∈ (m.forest.view (.node n)).nodes, m.forest.frozen c = false) →
      m.forest.Open n := fun n ↦ hf.open_of_nodes
  have hlayer : ∀ n k, k ∈ m.forest →
      (∀ c ∈ (m.view (.node k)).nodes, c ∉ (m.view (.node n)).nodes) → m.Layer n (.node k) := by
    intro n k hk h
    exact .of_node hf hk fun c hc hn ↦
      h c ((hf.mem_nodes_view_node k).mpr hc) ((hf.mem_nodes_view_node n).mpr hn)
  have hproper : ∀ n ∈ [(⟨1⟩ : NodeId), ⟨2⟩, ⟨3⟩, ⟨4⟩], (m.view (.node n)).Proper := by
    have h₁ : m.view (.node ⟨1⟩) = .node ⟨1⟩ false
      [("x", .scalar (.int 1)), ("y", .seq .list [.scalar (.bool true)])] := rfl
    have h₂ : m.view (.node ⟨2⟩) = .node ⟨2⟩ false
      [("y", .seq .list [.scalar (.int 1)]), ("x", .scalar (.bool true))] := rfl
    have h₃ : m.view (.node ⟨3⟩) = .node ⟨3⟩ false
      [("z", .scalar .null), ("x", .scalar (.int 0))] := rfl
    have h₄ : m.view (.node ⟨4⟩) = .node ⟨4⟩ false
      [("x", .scalar (.bool false)), ("z", .scalar .null)] := rfl
    simp [h₁, h₂, h₃, h₄, Entries.keys, Scalar.Canonical]
  have hequal : m.Equals (.node ⟨1⟩) (.node ⟨2⟩) := by
    unfold Equals
    decide +kernel
  obtain ⟨m₁, m₂, m₃, h₁, h₂, hsame, h₃, hsame'⟩ := ((hm.equality_respected evaluate).2.2.2.2.2.2
    ⟨1⟩ (by decide +kernel) ⟨2⟩ (by decide +kernel) (hproper _ (by decide)) (hproper _ (by decide))
    hequal).merge (hopen _ (by decide +kernel)) (hopen _ (by decide +kernel)) (.node ⟨3⟩)
    (.node ⟨4⟩) (hlayer _ _ (by decide +kernel) (by decide +kernel))
    (hlayer _ _ (by decide +kernel) (by decide +kernel))
    (hlayer _ _ (by decide +kernel) (by decide +kernel)) (hproper _ (by decide))
    (hproper _ (by decide)) (by unfold Equals; decide +kernel)
  exact ⟨m, m₁, m₂, m₃, hm, rfl, rfl, hequal, h₁, h₂, hsame, h₃, hsame'⟩

end Memory

end LayeredConfig
