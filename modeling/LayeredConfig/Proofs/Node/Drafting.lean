import LayeredConfig.Proofs.Node.Reading

/-!
# Filling a new node

A draft is a node that was made since some earlier memory and that nothing from that memory leads
to. Writing to it and merging into it therefore leaves the nodes of the earlier memory alone, and
what it holds afterwards is a function of the contents alone.
-/

namespace LayeredConfig

open Memory (Beyond Stored)

/-- The node was made since the memory `m₀`, all of whose nodes are unchanged. It holds the given
contents, and nothing below it is frozen. -/
structure Draft (m₀ m : Memory) (n : NodeId) (fields : Entries Blueprint) : Prop where
  beyond : Beyond m₀ m
  new : n ∉ m₀.forest
  writable : m.forest.Open n
  content : (m.forest.fields n).mapValues Tree.content = fields

/-- A node that was just made is a draft. -/
theorem draft_of_made {m : Memory} {n : NodeId} {g : Forest} {fields : Entries Blueprint}
    (h : Forest.Made m.forest (.node fields) (.node n) g) :
    Draft m { m with forest := g } n fields := by
  have hplaced := h.placed
  have hmem : n ∈ g := hplaced.mem n List.mem_cons_self
  have hnew : n ∉ m.forest := hplaced.new n List.mem_cons_self
  refine ⟨.of_extends hplaced.sound hplaced.grown, hnew, fun c hc ↦ ?_, ?_⟩
  · refine hplaced.writable (hplaced.sound.mem_of_reaches hmem hc) ?_
    exact fun hcf ↦ hnew (Nat.lt_of_le_of_lt (hplaced.sound.index_le_of_reaches hc) hcf)
  · have hcontent := h.content
    rw [hplaced.sound.view_eq_fields, Tree.content_node] at hcontent
    exact Blueprint.node.inj hcontent

/-- A node that is made of a value is a draft with the fields of the value. -/
theorem draft_of_create {m m' : Memory} {n : NodeId} {v : Value} (hm : m.forest.Sound)
    (h : Node.create v m = .ok n m') : Draft m m' n (m.view v).fields := by
  rcases hm.create_cases v with ⟨c, g, heq, hmade⟩ | ⟨e, heq⟩
  · rw [Node.create, onForest_of_ok heq] at h
    cases h
    exact draft_of_made hmade
  · rw [Node.create, onForest_of_error heq] at h
    cases h

/-- Of whatever has the content of a node, a node can be made. -/
theorem draft_of_content {m : Memory} {v : Value} {fields : Entries Blueprint}
    (hm : m.forest.Sound) (hv : (m.view v).WellKeyed) (hcontent : (m.view v).content = .node fields) :
    ∃ n m', Node.create v m = .ok n m' ∧ Draft m m' n fields := by
  have hplan := Tree.nodeBlueprint_of_content hv hcontent
  obtain ⟨n, g, hcreate, hmade⟩ := Forest.create_of_nodeBlueprint hplan hm
  have hfields : fields = (m.forest.view v).fields :=
    Blueprint.node.inj (Tree.eq_of_nodeBlueprint hplan)
  rw [← hfields] at hmade
  exact ⟨n, { m with forest := g }, onForest_of_ok hcreate, draft_of_made hmade⟩

/-- A new node is a draft without contents. -/
theorem draft_create {m : Memory} (hm : m.forest.Sound) :
    ∃ n m', Node.create .null m = .ok n m' ∧ Draft m m' n [] := by
  obtain ⟨n, g, heq, hmade⟩ := hm.create_null
  exact ⟨n, { m with forest := g }, onForest_of_ok heq, draft_of_made hmade⟩

/-- Whether a value can be made into a node depends on its tree only. -/
theorem draft_of_view {m m' z : Memory} {n : NodeId} {v : Value} (hz : z.forest.Sound)
    (hview : z.view v = m.view v) (h : Node.create v m = .ok n m') :
    ∃ k z', Node.create v z = .ok k z' ∧ Draft z z' k (m.view v).fields := by
  cases hrun : Forest.create v m.forest with
  | error e f =>
    rw [Node.create, onForest_of_error hrun] at h
    cases h
  | ok c f =>
    obtain ⟨k, g, heq, hmade⟩ := hz.create_of_view hview hrun
    exact ⟨k, { z with forest := g }, onForest_of_ok heq, draft_of_made hmade⟩

/-- Only what can be stored is stored. -/
theorem Node.wellKeyed_of_set {n : NodeId} {key : String} {v : Value} {m m' : Memory}
    (h : Node.set n (.text key) v m = .ok () m') : (m.view v).WellKeyed := by
  have hassign : onForest (Forest.assign n key v) m = .ok () m' := h
  cases hrun : Forest.assign n key v m.forest with
  | error e g =>
    rw [onForest_of_error hrun] at hassign
    cases hassign
  | ok u g =>
    cases hfrozen : m.forest.frozen n with
    | true =>
      rw [Forest.assign_of_frozen hfrozen] at hrun
      cases hrun
    | false =>
      rw [Forest.assign_of_writable hfrozen, Forest.write] at hrun
      obtain ⟨stored, f, hconvert, -⟩ := bind_eq_ok.mp hrun
      rw [Forest.convert, get_bind] at hconvert
      cases hplan : (m.forest.view v).blueprint with
      | error fault =>
        rw [hplan] at hconvert
        cases hconvert
      | ok plan => exact Tree.wellKeyed_of_blueprint hplan

namespace Draft

variable {m₀ m m' : Memory} {n c data : NodeId} {fields fields' : Entries Blueprint}
  {key : String} {v : Value} (h : Draft m₀ m n fields)

include h

theorem sound : m.forest.Sound := h.beyond.sound

theorem frozen : m.forest.frozen n = false := h.writable n (.refl m.forest n)

theorem mem : n ∈ m.forest := Forest.mem_of_frozen_eq_false h.frozen

theorem content_view : (m.view (.node n)).content = .node fields := by
  rw [Memory.view, h.sound.view_eq_fields, Tree.content_node, h.content]

/-- A draft leads to no node of the earlier memory. -/
theorem not_reaches (hc : c ∈ m₀.forest) : ¬m.forest.Reaches n c := fun hr ↦
  h.new (Nat.lt_of_le_of_lt (h.sound.index_le_of_reaches hr) hc)

/-- What happens elsewhere does not matter to a draft. -/
theorem later (hmm : Beyond m m') : Draft m₀ m' n fields where
  beyond := h.beyond.trans hmm
  new := h.new
  writable c hc := by
    have hc' := hmm.grown.reaches h.sound h.mem hc
    rw [Forest.frozen, hmm.grown.cell_eq (h.sound.mem_of_reaches h.mem hc'), ← Forest.frozen]
    exact h.writable c hc'
  content := by
    have hview := hmm.view_eq h.sound (Memory.known_node h.mem)
    rw [Memory.view, Memory.view, hmm.sound.view_eq_fields, h.sound.view_eq_fields] at hview
    have hfields : m'.forest.fields n = m.forest.fields n := (Tree.node.inj hview).2.2
    rw [hfields, h.content]

/-- Writing below a draft makes another draft of it. -/
theorem edited {g : Forest} (hfg : Forest.Edited n m.forest g)
    (hfields : (g.fields n).mapValues Tree.content = fields') :
    Draft m₀ { m with forest := g } n fields' where
  beyond := by
    refine ⟨hfg.sound, ⟨Nat.le_trans h.beyond.grown.size_le hfg.size_le, fun {c} hc ↦ ?_⟩,
      h.beyond.size_le, h.beyond.body_eq⟩
    rw [hfg.frame (h.beyond.grown.mem hc) (h.not_reaches hc), h.beyond.grown.cell_eq hc]
  new := h.new
  writable := h.writable.edited hfg
  content := hfields

/-- A node under a key of a draft is a draft itself. -/
theorem child {a : NodeId} (hkey : m.forest.find? n key = some (.node a)) :
    Draft m₀ m a ((m.forest.fields a).mapValues Tree.content) := by
  have hreach : m.forest.Reaches n a :=
    .head (Forest.mem_children_of_find? hkey List.mem_cons_self) (.refl m.forest a)
  exact ⟨h.beyond, fun ha ↦ h.not_reaches ha hreach, fun c hc ↦ h.writable c (hreach.trans hc), rfl⟩

/-- Writing below a node under a key of a draft changes what stands under that key only. -/
theorem edited_child {a : NodeId} {g : Forest} (hkey : m.forest.find? n key = some (.node a))
    (hfg : Forest.Edited a m.forest g) : Draft m₀ { m with forest := g } n
      (fields.put key (.node ((g.fields a).mapValues Tree.content))) := by
  have hreach : m.forest.Reaches n a :=
    .head (Forest.mem_children_of_find? hkey List.mem_cons_self) (.refl m.forest a)
  refine h.edited (hfg.mono hreach) ?_
  rw [h.sound.fields_of_edited_child hkey hfg, Entries.mapValues_put, h.content, Tree.content_node]

/-- What a draft holds under a key is stored, if there is no computation in it. -/
theorem stored_of_find? {b : Blueprint} (hv : m.forest.find? n key = some v)
    (hcontent : (m.view v).content = b) (hb : b.Settled) : Stored m v b := by
  have hchild : ∀ a ∈ v.nodes, a ∈ m.forest.children n := fun a ha ↦
    Forest.mem_children_of_find? hv ha
  have huniform := h.sound.uniform n (key, v) (Entries.mem_of_find? hv)
  rw [h.frozen, if_neg Bool.false_ne_true] at huniform
  refine ⟨fun a ha ↦ (h.sound.younger (hchild a ha)).2, ?_, hcontent, hb⟩
  exact h.sound.writable_view huniform fun a ha c hc ↦
    h.writable c (.head (hchild a ha) hc)

/-- **Writing a key** puts the content of the value there, and writes below the draft only. -/
theorem edited_set (hv : (m.view v).WellKeyed) (key : String) :
    ∃ g, Node.set n (.text key) v m = .ok () { m with forest := g } ∧
      Forest.Edited n m.forest g ∧
      (g.fields n).mapValues Tree.content = fields.put key (m.view v).content := by
  obtain ⟨g, t, heq, hfields, hcopy⟩ := h.sound.write_fields h.frozen hv key
  have hedited := h.sound.edited_write h.frozen key v
  rw [after_of_ok heq] at hedited
  refine ⟨g, ?_, hedited, ?_⟩
  · rw [← Forest.assign_of_writable h.frozen] at heq
    exact onForest_of_ok heq
  · rw [hfields, Entries.mapValues_put, h.content, hcopy.content]
    rfl

theorem set (hv : (m.view v).WellKeyed) :
    ∃ m', Node.set n (.text key) v m = .ok () m' ∧ m'.computations = m.computations ∧
      Draft m₀ m' n (fields.put key (m.view v).content) := by
  obtain ⟨g, heq, hfg, hfields⟩ := h.edited_set hv key
  exact ⟨{ m with forest := g }, heq, rfl, h.edited hfg hfields⟩

/-- Writing to a node two levels below a draft leaves the entries of the draft as they are. -/
theorem edited_inside {a b : NodeId} {title block : String}
    (ha : m.forest.find? n title = some (.node a)) (hb : m.forest.find? a block = some (.node b))
    (hv : (m.view v).WellKeyed) (key : String) :
    ∃ g, Node.set b (.text key) v m = .ok () { m with forest := g } ∧
      g.entries n = m.forest.entries n ∧
      Draft m₀ { m with forest := g } n (fields.put title (.node
        (((m.forest.fields a).mapValues Tree.content).put block (.node
          (((m.forest.fields b).mapValues Tree.content).put key (m.view v).content))))) := by
  obtain ⟨g, heq, hfg, hset⟩ := ((h.child ha).child hb).edited_set hv key
  have hpath : m.forest.Reaches a b :=
    .head (Forest.mem_children_of_find? hb List.mem_cons_self) (.refl m.forest b)
  refine ⟨g, heq, ?_, ?_⟩
  · -- the draft itself does not stand below what is written to
    have hchild := Forest.mem_children_of_find? ha List.mem_cons_self
    have hframe := (hfg.mono hpath).frame h.mem (h.sound.not_reaches_of_mem_children hchild)
    rw [Forest.entries, hframe, ← Forest.entries]
  · rw [← hset, ← ((h.child ha).edited_child hb hfg).content]
    exact h.edited_child ha (hfg.mono hpath)

/-- Freezing a draft changes no older node. -/
theorem freeze : Beyond m₀ { m with forest := m.forest.freeze n } := by
  refine ⟨h.sound.freeze n, ⟨?_, fun {c} hc ↦ ?_⟩, h.beyond.size_le, h.beyond.body_eq⟩
  · rw [Forest.size_freeze]
    exact h.beyond.grown.size_le
  · rw [h.sound.cell_freeze_of_not_reaches (h.not_reaches hc), h.beyond.grown.cell_eq hc]

/-- **Merging a value** that was there before merges the contents. -/
theorem merge {branches : Entries Tree} (hm₀ : m₀.forest.Sound) (hv : ∀ a ∈ v.nodes, a ∈ m₀.forest)
    (hkeyed : (m₀.view v).WellKeyed) (hbranches : (m₀.view v).branches? = some branches) :
    ∃ m', Node.merge n v m = .ok () m' ∧
      Draft m₀ m' n (Blueprint.mergeFields fields (branches.mapValues Tree.content)) := by
  have hview : m.forest.view v = m₀.view v := h.beyond.view_eq hm₀ hv
  -- what comes in stood in the earlier memory, which the draft does not lead to
  have hapart : ∀ c ∈ (m.forest.view v).nodes, ¬m.forest.Reaches n c := by
    intro c hc
    rw [hview] at hc
    obtain ⟨a, ha, hca⟩ := Forest.mem_nodes_view.mp hc
    exact h.not_reaches (hm₀.mem_of_reaches (hv a ha) ((hm₀.mem_nodes_view_node a).mp hca))
  rw [← hview] at hbranches hkeyed
  obtain ⟨g, heq, hfg, hmerged⟩ := h.sound.mergeValue_merged h.writable hbranches hkeyed hapart
  refine ⟨{ m with forest := g }, onForest_of_ok heq, h.edited hfg ?_⟩
  rw [hmerged.content Forest.CopyOf.content, h.content]

theorem merge_null : Node.merge n .null m = .ok () m :=
  onForest_of_ok (Forest.mergeValue_null h.frozen)

/-- What is neither a node nor a mapping nor nothing is refused. -/
theorem merge_of_not_mapping (hnull : v ≠ .null) (hbranches : (m.view v).branches? = none) :
    Node.merge n v m
      = .error (.configuration (.invalidStructure (.notMapping (m.view v)))) m := by
  have hnode : ∀ other, v ≠ .node other := by
    rintro other rfl
    rw [Memory.view, h.sound.view_node] at hbranches
    cases hbranches
  -- what has no keys has no blueprint as a node, unless it is nothing
  have hplan : (m.forest.view v).nodeBlueprint = .error (.notMapping (m.forest.view v)) := by
    change (m.forest.view v).branches? = none at hbranches
    cases v with
    | scalar s =>
      cases s with
      | null => exact absurd rfl hnull
      | _ => rfl
    | seq kind items =>
      rw [Forest.view_seq]
      rfl
    | mapping entries =>
      rw [Forest.view_mapping] at hbranches
      cases hbranches
    | node other => exact absurd rfl (hnode other)
    | _ => rfl
  have hcreate : Forest.create v m.forest
      = .error (.invalidStructure (.notMapping (m.forest.view v))) m.forest := by
    rw [Forest.create, get_bind, hplan]
    rfl
  refine onForest_of_error ?_
  rw [Forest.mergeValue_of_ne h.frozen hnull hnode]
  exact bind_of_error hcreate

end Draft

end LayeredConfig
