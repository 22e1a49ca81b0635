import LayeredConfig.Proofs.Forest.Writing

/-!
# Freezing a tree

Freezing goes through the nodes of a snapshot and seals their cells one after the other. Sealing
is idempotent, so that the outcome does not depend on how often a node comes up: the cells of the
nodes that are reached are sealed, and all others are what they were.
-/

namespace LayeredConfig

@[simp] theorem Value.fixed_fixed (v : Value) : v.fixed.fixed = v.fixed := by
  induction v with
  | seq kind items ih =>
    rw [fixed_seq, fixed_seq, List.map_map]
    exact congrArg (Value.seq .tuple) (List.map_congr_left ih)
  | _ => rfl

/-- A stored value has the same content if the nodes that it refers to have. -/
theorem Value.Uniform.content_graft {sub sub' : NodeId → Tree} {kind : SeqKind} {v : Value}
    (hv : v.Uniform kind) (h : ∀ c ∈ v.nodes, (sub c).content = (sub' c).content) :
    (v.graft sub).content = (v.graft sub').content := by
  induction hv with
  | @seq items _ ih =>
    rw [graft_seq, graft_seq, Tree.content_seq, Tree.content_seq, List.map_map, List.map_map]
    refine congrArg Blueprint.list (List.map_congr_left fun v hv ↦ ih v hv fun c hc ↦ h c ?_)
    rw [nodes_seq]
    exact List.mem_flatMap.mpr ⟨v, hv, hc⟩
  | node id => exact h id List.mem_cons_self
  | _ => rfl

theorem Value.content_graft_fixed (sub : NodeId → Tree) (v : Value) :
    (v.fixed.graft sub).content = (v.graft sub).content := by
  induction v with
  | seq kind items ih =>
    rw [fixed_seq, graft_seq, graft_seq, Tree.content_seq, Tree.content_seq, List.map_map,
      List.map_map, List.map_map]
    exact congrArg Blueprint.list (List.map_congr_left ih)
  | _ => rfl

@[simp] theorem Cell.sealed_sealed (c : Cell) : c.sealed.sealed = c.sealed := by
  rw [sealed, sealed, Entries.mapValues_mapValues]
  exact congrArg (Cell.mk · true) (Entries.mapValues_congr fun e _ ↦ e.2.fixed_fixed)

namespace Forest

variable {f : Forest} {n m c : NodeId}

private theorem cell_update_sealed (f : Forest) (n : NodeId) :
    (f.update n Cell.sealed).cell n = (f.cell n).sealed := by
  by_cases hn : n ∈ f
  · exact cell_update_self hn _
  · rw [cell_of_notMem hn, cell_of_notMem ((mem_update _).not.mpr hn)]
    rfl

private theorem cell_foldl_sealed (nodes : List NodeId) (f : Forest) (c : NodeId) :
    (c ∈ nodes → (nodes.foldl (fun f m ↦ f.update m Cell.sealed) f).cell c = (f.cell c).sealed) ∧
    (c ∉ nodes → (nodes.foldl (fun f m ↦ f.update m Cell.sealed) f).cell c = f.cell c) := by
  induction nodes generalizing f with
  | nil => exact ⟨fun h ↦ absurd h List.not_mem_nil, fun _ ↦ rfl⟩
  | cons m rest ih =>
    obtain ⟨hin, hout⟩ := ih (f.update m Cell.sealed)
    rw [List.foldl_cons, List.mem_cons, not_or]
    -- if `c` comes up again in the rest, sealing it twice is sealing it once
    by_cases hcm : c = m
    · subst hcm
      rw [cell_update_sealed] at hin hout
      refine ⟨fun _ ↦ ?_, fun h ↦ absurd rfl h.1⟩
      by_cases hc : c ∈ rest
      · rw [hin hc, Cell.sealed_sealed]
      · exact hout hc
    · rw [cell_update_of_ne hcm] at hin hout
      exact ⟨fun h ↦ hin (h.resolve_left hcm), fun h ↦ hout h.2⟩

@[simp] theorem size_freeze (f : Forest) (n : NodeId) :
    (f.freeze n).cells.size = f.cells.size := by
  have key : ∀ (nodes : List NodeId) (f : Forest),
      (nodes.foldl (fun f m ↦ f.update m Cell.sealed) f).cells.size = f.cells.size := by
    intro nodes
    induction nodes with
    | nil => exact fun _ ↦ rfl
    | cons m rest ih => exact fun f ↦ (ih _).trans (size_update _)
  exact key _ f

theorem mem_freeze : c ∈ f.freeze n ↔ c ∈ f := by rw [mem_iff, mem_iff, size_freeze]

namespace Sound

theorem cell_freeze_of_reaches (hf : f.Sound) (h : f.Reaches n c) :
    (f.freeze n).cell c = (f.cell c).sealed :=
  (cell_foldl_sealed _ f c).1 ((hf.mem_nodes_view_node n).mpr h)

theorem cell_freeze_of_not_reaches (hf : f.Sound) (h : ¬f.Reaches n c) :
    (f.freeze n).cell c = f.cell c :=
  (cell_foldl_sealed _ f c).2 ((hf.mem_nodes_view_node n).not.mpr h)

/-- Sealing a frozen node changes nothing. -/
theorem sealed_of_frozen (hf : f.Sound) (hc : f.frozen c = true) :
    (f.cell c).sealed = f.cell c := by
  have huniform := hf.uniform c
  rw [hc] at huniform
  have hentries : Entries.mapValues Value.fixed (f.cell c).entries = (f.cell c).entries :=
    Entries.mapValues_eq_self fun e he ↦ (huniform e he).fixed_eq
  rw [Cell.sealed, hentries, ← hc]
  rfl

theorem children_freeze (hf : f.Sound) (n m : NodeId) :
    (f.freeze n).children m = f.children m := by
  by_cases h : f.Reaches n m
  · rw [children, entries, hf.cell_freeze_of_reaches h, Cell.sealed, Entries.mapValues,
      List.flatMap_map]
    exact List.flatMap_congr fun e _ ↦ e.2.nodes_fixed
  · exact children_congr (hf.cell_freeze_of_not_reaches h)

theorem frozen_freeze_of_reaches (hf : f.Sound) (h : f.Reaches n c) :
    (f.freeze n).frozen c = true := by
  rw [frozen, hf.cell_freeze_of_reaches h, Cell.sealed]

theorem frozen_freeze_of_frozen (hf : f.Sound) (n : NodeId) (h : f.frozen c = true) :
    (f.freeze n).frozen c = true := by
  by_cases hr : f.Reaches n c
  · exact hf.frozen_freeze_of_reaches hr
  · rwa [frozen, hf.cell_freeze_of_not_reaches hr]

theorem freeze (hf : f.Sound) (n : NodeId) : (f.freeze n).Sound := by
  constructor
  · intro m c hc
    obtain ⟨hlt, hmem⟩ := hf.younger (hf.children_freeze n m ▸ hc)
    exact ⟨hlt, mem_freeze.mpr hmem⟩
  · intro m
    by_cases h : f.Reaches n m
    · rw [entries, hf.cell_freeze_of_reaches h, Cell.sealed, Entries.keys_mapValues]
      exact hf.distinct m
    · rw [entries, hf.cell_freeze_of_not_reaches h]
      exact hf.distinct m
  · intro m
    rw [hf.children_freeze]
    exact hf.once m
  · intro m k c hm hk
    exact hf.single (hf.children_freeze n m ▸ hm) (hf.children_freeze n k ▸ hk)
  · intro m e he
    by_cases h : f.Reaches n m
    · rw [hf.frozen_freeze_of_reaches h]
      rw [entries, hf.cell_freeze_of_reaches h, Cell.sealed] at he
      obtain ⟨a, ha, rfl⟩ := List.mem_map.mp he
      exact (hf.uniform m a ha).fixed
    · rw [entries, hf.cell_freeze_of_not_reaches h] at he
      rw [frozen, hf.cell_freeze_of_not_reaches h]
      exact hf.uniform m e he
  · intro m c hm hc
    rw [hf.children_freeze] at hc
    by_cases h : f.Reaches n m
    · exact hf.frozen_freeze_of_reaches (h.tail hc)
    · rw [frozen, hf.cell_freeze_of_not_reaches h] at hm
      exact hf.frozen_freeze_of_frozen n (hf.closed hm hc)

/-- **Freezing a node** changes no other node than those that the node reaches. -/
theorem written_freeze (hf : f.Sound) (n : NodeId) : Written n f (f.freeze n) where
  sound := hf.freeze n
  size_le := Nat.le_of_eq (size_freeze f n).symm
  frozen {c} _ hz := by
    -- a frozen node may lie below `n`, and sealing it again changes nothing
    by_cases h : f.Reaches n c
    · rw [hf.cell_freeze_of_reaches h, hf.sealed_of_frozen hz]
    · exact hf.cell_freeze_of_not_reaches h
  adopt {m c} _ hm := hf.children_freeze n m ▸ hm
  frame _ h := hf.cell_freeze_of_not_reaches h

/-- **Freezing keeps the content** of every node. -/
theorem content_freeze (hf : f.Sound) (n c : NodeId) :
    ((f.freeze n).view (.node c)).content = (f.view (.node c)).content := by
  induction c using hf.node_induction with
  | h c ih =>
    have hentry : ∀ e ∈ f.entries c,
        ((f.freeze n).view e.2).content = (f.view e.2).content := fun e he ↦
      (hf.uniform c e he).content_graft fun a ha ↦ ih a (List.mem_flatMap.mpr ⟨e, he, ha⟩)
    rw [(hf.freeze n).view_node, hf.view_node, Tree.content_node, Tree.content_node,
      Entries.mapValues_mapValues, Entries.mapValues_mapValues]
    refine congrArg Blueprint.node ?_
    -- sealing turns lists into tuples, which the content does not tell apart
    by_cases h : f.Reaches n c
    · rw [entries, hf.cell_freeze_of_reaches h, Cell.sealed, Entries.mapValues_mapValues]
      refine Entries.mapValues_congr fun e he ↦ ?_
      rw [← hentry e he]
      exact Value.content_graft_fixed _ e.2
    · rw [entries, hf.cell_freeze_of_not_reaches h]
      exact Entries.mapValues_congr hentry

end Sound

/-! ## Frozen trees later on -/

namespace Later

variable {g : Forest}

theorem cell_of_frozen (hfg : Later f g) (hf : f.Sound) (hn : n ∈ f) (hz : f.frozen n = true)
    (h : f.Reaches n c) : g.cell c = f.cell c :=
  hfg.frozen (hf.mem_of_reaches hn h) (hf.frozen_of_reaches hz h)

/-- A frozen node goes on to reach what it reached, and nothing else. -/
theorem reaches_iff_of_frozen (hfg : Later f g) (hf : f.Sound) (hn : n ∈ f)
    (hz : f.frozen n = true) : g.Reaches n c ↔ f.Reaches n c := by
  -- whatever a frozen node reaches is frozen, so its cell has not changed either
  have hstep : ∀ {b}, f.Reaches n b → g.children b = f.children b := fun hb ↦
    children_congr (hfg.cell_of_frozen hf hn hz hb)
  constructor
  · intro h
    induction h with
    | refl => exact .refl f n
    | tail _ hc ih => exact ih.tail (hstep ih ▸ hc)
  · intro h
    induction h with
    | refl => exact .refl g n
    | tail hb hc ih => exact ih.tail ((hstep hb).symm ▸ hc)

theorem view_of_frozen (hfg : Later f g) (hf : f.Sound) (hn : n ∈ f) (hz : f.frozen n = true) :
    g.view (.node n) = f.view (.node n) := by
  refine hf.view_congr hfg.sound fun a ha c hc ↦ ?_
  rw [Value.nodes_node, List.mem_singleton] at ha
  subst ha
  exact hfg.cell_of_frozen hf hn hz hc

end Later

end Forest

end LayeredConfig
