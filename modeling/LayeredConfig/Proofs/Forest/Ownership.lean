import LayeredConfig.Proofs.Forest.Cells
import Mathlib.Data.List.Pairwise

/-!
# Sound forests

A forest is sound when every node is held at most once, by an older node, and when what a frozen
node holds is frozen in turn. Its nodes then form trees: no node reaches itself, two nodes that
reach a common one reach each other in one direction, and the tree of a node satisfies the
equation that one would define it by, although it is computed by counting down levels.
-/

namespace LayeredConfig

namespace Forest

/-- The invariant of a forest. -/
structure Sound (f : Forest) : Prop where
  /-- What a node holds exists and is younger than the node. -/
  younger : ∀ {n c}, c ∈ f.children n → n.index < c.index ∧ c ∈ f
  /-- No key stands twice in a node. -/
  distinct : ∀ n, (f.entries n).keys.Nodup
  /-- A node holds another one at most once. -/
  once : ∀ n, (f.children n).Nodup
  /-- A node is held by at most one node. -/
  single : ∀ {n m c}, c ∈ f.children n → c ∈ f.children m → n = m
  /-- The sequences in a frozen node are tuples, those in any other node are lists. -/
  uniform : ∀ n, ∀ e ∈ f.entries n, e.2.Uniform (if f.frozen n then .tuple else .list)
  /-- What a frozen node holds is frozen. -/
  closed : ∀ {n c}, f.frozen n = true → c ∈ f.children n → f.frozen c = true

theorem sound_empty : Sound empty where
  younger h := absurd (mem_of_mem_children h) notMem_empty
  distinct n := by rw [entries_of_notMem notMem_empty]; exact List.nodup_nil
  once n := by rw [children_of_notMem notMem_empty]; exact List.nodup_nil
  single h := absurd (mem_of_mem_children h) notMem_empty
  uniform n e he := by rw [entries_of_notMem notMem_empty] at he; exact absurd he List.not_mem_nil
  closed _ h := absurd (mem_of_mem_children h) notMem_empty

variable {f g : Forest} {a b c n m : NodeId}

/-! ## Reachability -/

namespace Sound

theorem index_le_of_reaches (hf : f.Sound) (h : f.Reaches n c) : n.index ≤ c.index := by
  induction h with
  | refl => exact Nat.le_refl _
  | tail _ hc ih => exact Nat.le_trans ih (Nat.le_of_lt (hf.younger hc).1)

theorem mem_of_reaches (hf : f.Sound) (hn : n ∈ f) (h : f.Reaches n c) : c ∈ f := by
  induction h with
  | refl => exact hn
  | tail _ hc _ => exact (hf.younger hc).2

theorem frozen_of_reaches (hf : f.Sound) (hn : f.frozen n = true) (h : f.Reaches n c) :
    f.frozen c = true := by
  induction h with
  | refl => exact hn
  | tail _ hc ih => exact hf.closed ih hc

/-- **No node reaches itself** other than by staying where it is. -/
theorem acyclic (hf : f.Sound) (n : NodeId) :
    ¬Relation.TransGen (fun n c ↦ c ∈ f.children n) n n := by
  intro h
  obtain ⟨m, hm, hmn⟩ := Relation.TransGen.head'_iff.mp h
  exact Nat.lt_irrefl _ (Nat.lt_of_lt_of_le (hf.younger hm).1 (hf.index_le_of_reaches hmn))

theorem not_reaches_of_mem_children (hf : f.Sound) (h : c ∈ f.children n) : ¬f.Reaches c n :=
  fun hr ↦ Nat.lt_irrefl _ (Nat.lt_of_lt_of_le (hf.younger h).1 (hf.index_le_of_reaches hr))

/-- Every node has one holder at most, so the nodes that reach a given one stand in a row. -/
theorem reaches_or_reaches (hf : f.Sound) (ha : f.Reaches a c) (hb : f.Reaches b c) :
    f.Reaches a b ∨ f.Reaches b a := by
  -- down to `c`: the last holder before it is the same on both ways
  induction ha with
  | refl => exact .inr hb
  | tail hax hc ih =>
    rcases Relation.ReflTransGen.cases_tail hb with heq | ⟨y, hby, hyc⟩
    · exact .inl (heq ▸ hax.tail hc)
    · exact ih (hf.single hc hyc ▸ hby)

/-- Different nodes that stand in one node reach nothing in common. -/
theorem not_reaches_of_ne (hf : f.Sound) (ha : a ∈ f.children n) (hb : b ∈ f.children n)
    (hab : a ≠ b) (h : f.Reaches a c) : ¬f.Reaches b c := by
  -- the only holder of `b` is `n`, so a way from `a` to `b` would lead back through `n`
  have key : ∀ {a b : NodeId}, a ∈ f.children n → b ∈ f.children n → a ≠ b → ¬f.Reaches a b := by
    intro a b ha hb hab h
    rcases Relation.ReflTransGen.cases_tail h with heq | ⟨y, hay, hyb⟩
    · exact hab heq.symm
    · exact hf.not_reaches_of_mem_children ha (hf.single hyb hb ▸ hay)
  intro h'
  rcases hf.reaches_or_reaches h h' with hr | hr
  · exact key ha hb hab hr
  · exact key hb ha (Ne.symm hab) hr

/-- A node stands under one key only. -/
theorem entry_eq (hf : f.Sound) {e e' : String × Value} (he : e ∈ f.entries n)
    (he' : e' ∈ f.entries n) (ha : a ∈ e.2.nodes) (ha' : a ∈ e'.2.nodes) : e = e' := by
  have hsymm : Std.Symm (Function.onFun List.Disjoint fun e : String × Value ↦ e.2.nodes) :=
    ⟨fun _ _ h _ hx hy ↦ h hy hx⟩
  by_contra hne
  exact (List.nodup_flatMap.mp (hf.once n)).2.forall he he' hne ha ha'

/-- Induction from what a node holds to the node. -/
theorem node_induction (hf : f.Sound) {motive : NodeId → Prop}
    (h : ∀ n, (∀ c ∈ f.children n, motive c) → motive n) (n : NodeId) : motive n := by
  -- what a node holds is younger, so the number of younger nodes is the measure
  have key : ∀ (k : ℕ) (n : NodeId), f.cells.size ≤ k + n.index → motive n := by
    intro k
    induction k with
    | zero =>
      intro n hn
      refine h n fun c hc ↦ absurd (mem_of_mem_children hc) ?_
      rw [mem_iff]
      omega
    | succ k ih =>
      intro n hn
      refine h n fun c hc ↦ ih c ?_
      have := (hf.younger hc).1
      omega
  exact key f.cells.size n (Nat.le_add_right _ _)

/-! ## Trees -/

/-- More levels than there are younger nodes make no difference. -/
private theorem nodeTree_stable (hf : f.Sound) : ∀ {k l : ℕ} {n : NodeId},
    f.cells.size ≤ k + n.index → f.cells.size ≤ l + n.index →
    f.nodeTree k n = f.nodeTree l n := by
  -- a level count of zero is reached only by what is not there
  have bottom : ∀ {l : ℕ} {n : NodeId}, f.cells.size ≤ 0 + n.index →
      f.nodeTree 0 n = f.nodeTree l n := by
    intro l n h
    have hn : n ∉ f := by rw [mem_iff]; omega
    cases l with
    | zero => rfl
    | succ l => rw [nodeTree, nodeTree, entries_of_notMem hn]; rfl
  intro k
  induction k with
  | zero => exact fun h _ ↦ bottom h
  | succ k ih =>
    intro l n hk hl
    cases l with
    | zero => exact (bottom hl).symm
    | succ l =>
      rw [nodeTree, nodeTree]
      refine congrArg _ (Entries.mapValues_congr fun e he ↦ Value.graft_congr fun c hc ↦ ?_)
      have := (hf.younger (List.mem_flatMap.mpr ⟨e, he, hc⟩)).1
      exact ih (by omega) (by omega)

end Sound

@[simp] theorem view_deferred (id : DeferredId) : f.view (.deferred id) = .deferred id := rfl

@[simp] theorem view_seq (kind : SeqKind) (items : List Value) :
    f.view (.seq kind items) = .seq kind (items.map f.view) := Value.graft_seq _ _ _

@[simp] theorem view_mapping (entries : List (Value × Value)) :
    f.view (.mapping entries) = .mapping (entries.map fun e ↦ (f.view e.1, f.view e.2)) :=
  Value.graft_mapping _ _

/-- **The tree of a node** consists of the trees of what it holds. -/
theorem Sound.view_node (hf : f.Sound) (n : NodeId) :
    f.view (.node n) = .node n (f.frozen n) ((f.entries n).mapValues f.view) := by
  have h : f.nodeTree f.cells.size n = f.nodeTree (f.cells.size + 1) n :=
    hf.nodeTree_stable (Nat.le_add_right _ _) (by omega)
  rw [view, Value.graft_node, h]
  rfl

theorem Sound.eq_scalar_of_view (hf : f.Sound) {v : Value} {s : Scalar}
    (h : f.view v = .scalar s) : v = .scalar s := by
  cases v with
  | scalar s' => exact congrArg Value.scalar (Tree.scalar.inj h)
  | seq kind items => rw [view_seq] at h; cases h
  | mapping entries => rw [view_mapping] at h; cases h
  | node n => rw [hf.view_node] at h; cases h
  | _ => cases h

theorem Sound.eq_deferred_of_view (hf : f.Sound) {v : Value} {d : DeferredId}
    (h : f.view v = .deferred d) : v = .deferred d := by
  cases v with
  | deferred d' => exact congrArg Value.deferred (Tree.deferred.inj h)
  | seq kind items => rw [view_seq] at h; cases h
  | mapping entries => rw [view_mapping] at h; cases h
  | node n => rw [hf.view_node] at h; cases h
  | _ => cases h

theorem mem_nodes_view {v : Value} :
    c ∈ (f.view v).nodes ↔ ∃ a ∈ v.nodes, c ∈ (f.view (.node a)).nodes := Value.mem_nodes_graft

theorem Sound.mem_nodes_view_node (hf : f.Sound) (n : NodeId) :
    c ∈ (f.view (.node n)).nodes ↔ f.Reaches n c := by
  induction n using hf.node_induction with
  | h n ih =>
    have hstep : c ∈ (f.view (.node n)).nodes ↔ c = n ∨ ∃ a ∈ f.children n, f.Reaches a c := by
      rw [hf.view_node, Tree.nodes_node, List.mem_cons, Entries.mapValues, List.flatMap_map]
      refine or_congr_right ?_
      constructor
      · intro h
        obtain ⟨e, he, hc⟩ := List.mem_flatMap.mp h
        obtain ⟨a, ha, hca⟩ := mem_nodes_view.mp hc
        have hmem : a ∈ f.children n := List.mem_flatMap.mpr ⟨e, he, ha⟩
        exact ⟨a, hmem, (ih a hmem).mp hca⟩
      · rintro ⟨a, ha, hc⟩
        obtain ⟨e, he, hae⟩ := List.mem_flatMap.mp ha
        exact List.mem_flatMap.mpr ⟨e, he, mem_nodes_view.mpr ⟨a, hae, (ih a ha).mpr hc⟩⟩
    rw [hstep]
    constructor
    · rintro (rfl | ⟨a, ha, hc⟩)
      · exact Reaches.refl f c
      · exact hc.head ha
    · intro h
      rcases Relation.ReflTransGen.cases_head h with heq | ⟨a, ha, hc⟩
      · exact .inl heq.symm
      · exact .inr ⟨a, ha, hc⟩

/-- **Locality of trees.** The tree of a value depends only on the nodes that the value reaches. -/
theorem Sound.view_congr (hf : f.Sound) (hg : g.Sound) {v : Value}
    (h : ∀ a ∈ v.nodes, ∀ c, f.Reaches a c → g.cell c = f.cell c) : g.view v = f.view v := by
  -- it is enough to see this for nodes: a value is put together from the trees of its nodes
  have key : ∀ n, (∀ c, f.Reaches n c → g.cell c = f.cell c) →
      g.view (.node n) = f.view (.node n) := by
    intro n
    induction n using hf.node_induction with
    | h n ih =>
      intro hn
      have hcell := hn n (Reaches.refl f n)
      rw [hg.view_node, hf.view_node, frozen, entries, hcell, ← frozen, ← entries]
      refine congrArg _ (Entries.mapValues_congr fun e he ↦ Value.graft_congr fun c hc ↦ ?_)
      have hmem : c ∈ f.children n := List.mem_flatMap.mpr ⟨e, he, hc⟩
      exact ih c hmem fun d hd ↦ hn d (hd.head hmem)
  exact Value.graft_congr fun a ha ↦ key a (h a ha)

end Forest

end LayeredConfig
