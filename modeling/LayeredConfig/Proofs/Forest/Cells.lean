import LayeredConfig.Forest
import Mathlib.Data.List.Nodup
import Mathlib.Logic.Relation

/-!
# Nodes and what they hold

What the three ways of changing a forest do to every node: making a node, changing what a node
holds, and storing a value. Then the nodes that a value refers to, the nodes that a node holds,
and reachability.

A node that does not exist holds nothing and is frozen. With this choice most statements need no
hypothesis that a node exists.
-/

namespace LayeredConfig

namespace Forest

variable {f g : Forest} {n m : NodeId} {c : Cell}

/-- The nodes of a forest are those that were made. -/
instance : Membership NodeId Forest := ⟨fun f n ↦ n.index < f.cells.size⟩

theorem mem_iff : n ∈ f ↔ n.index < f.cells.size := Iff.rfl

instance (n : NodeId) (f : Forest) : Decidable (n ∈ f) := decidable_of_iff _ mem_iff.symm

theorem cell_of_notMem (h : n ∉ f) : f.cell n = ⟨[], true⟩ := by
  rw [cell, Array.getElem?_eq_none (Nat.le_of_not_lt h), Option.getD_none]

@[simp] theorem notMem_empty : n ∉ empty := Nat.not_lt_zero _

theorem entries_of_notMem (h : n ∉ f) : f.entries n = [] := by rw [entries, cell_of_notMem h]

theorem mem_of_frozen_eq_false (h : f.frozen n = false) : n ∈ f := by
  by_contra hn
  rw [frozen, cell_of_notMem hn] at h
  cases h

/-! ## Making a node -/

theorem mem_grow : n ∈ (f.grow c).2 ↔ n ∈ f ∨ n = ⟨f.cells.size⟩ := by
  rw [mem_iff, mem_iff, grow, Array.size_push, Nat.lt_succ_iff_lt_or_eq]
  exact or_congr_right ⟨fun h ↦ congrArg NodeId.mk h, fun h ↦ congrArg NodeId.index h⟩

theorem cell_grow_self : (f.grow c).2.cell ⟨f.cells.size⟩ = c := by
  rw [cell, grow, Array.getElem?_push_size, Option.getD_some]

theorem cell_grow_of_ne (h : n ≠ ⟨f.cells.size⟩) : (f.grow c).2.cell n = f.cell n := by
  have hne : n.index ≠ f.cells.size := fun he ↦ h (congrArg NodeId.mk he)
  rw [cell, grow, Array.getElem?_push, if_neg hne, ← cell]

/-! ## Changing what a node holds -/

@[simp] theorem size_update (change : Cell → Cell) :
    (f.update n change).cells.size = f.cells.size := Array.size_modify

@[simp] theorem mem_update (change : Cell → Cell) : m ∈ f.update n change ↔ m ∈ f := by
  rw [mem_iff, mem_iff, size_update]

theorem cell_update_self (h : n ∈ f) (change : Cell → Cell) :
    (f.update n change).cell n = change (f.cell n) := by
  rw [cell, cell, update, Array.getElem?_modify, if_pos rfl, Array.getElem?_eq_getElem h]
  rfl

theorem cell_update_of_ne (h : m ≠ n) (change : Cell → Cell) :
    (f.update n change).cell m = f.cell m := by
  have hne : n.index ≠ m.index := fun he ↦ h (congrArg NodeId.mk he.symm)
  rw [cell, update, Array.getElem?_modify, if_neg hne, ← cell]

/-! ## Storing a value -/

variable {key : String} {v : Value}

@[simp] theorem size_store : (f.store n key v).cells.size = f.cells.size := size_update _

@[simp] theorem mem_store : m ∈ f.store n key v ↔ m ∈ f := mem_update _

theorem entries_store_self (h : n ∈ f) :
    (f.store n key v).entries n = (f.entries n).put key v := by
  rw [entries, store, cell_update_self h, ← entries]

theorem cell_store_of_ne (h : m ≠ n) : (f.store n key v).cell m = f.cell m :=
  cell_update_of_ne h _

@[simp] theorem frozen_store : (f.store n key v).frozen m = f.frozen m := by
  by_cases hm : m = n
  · subst hm
    by_cases h : m ∈ f
    · rw [frozen, store, cell_update_self h, ← frozen]
    · rw [frozen, frozen, cell_of_notMem h, cell_of_notMem (mem_store.not.mpr h)]
  · rw [frozen, cell_store_of_ne hm, ← frozen]

end Forest

/-! ## The nodes that a value refers to -/

namespace Value

/-- The nodes that a value refers to, without those that they hold. -/
def nodes (v : Value) : List NodeId := (v.graft fun id ↦ .node id true []).nodes

@[simp] theorem nodes_scalar (s : Scalar) : nodes (.scalar s) = [] := rfl

@[simp] theorem nodes_seq (kind : SeqKind) (items : List Value) :
    nodes (.seq kind items) = items.flatMap nodes := by
  rw [nodes, graft_seq, Tree.nodes_seq, List.flatMap_map]
  rfl

@[simp] theorem nodes_set (items : List Scalar) : nodes (.set items) = [] := rfl

@[simp] theorem nodes_mapping (entries : List (Value × Value)) :
    nodes (.mapping entries) = entries.flatMap fun e ↦ nodes e.1 ++ nodes e.2 := by
  rw [nodes, graft_mapping, Tree.nodes_mapping, List.flatMap_map]
  rfl

@[simp] theorem nodes_node (id : NodeId) : nodes (.node id) = [id] := rfl

@[simp] theorem nodes_deferred (id : DeferredId) : nodes (.deferred id) = [] := rfl

/-- Equal trees of the nodes give equal trees of the value. -/
theorem graft_congr {sub sub' : NodeId → Tree} {v : Value} (h : ∀ c ∈ v.nodes, sub c = sub' c) :
    v.graft sub = v.graft sub' := by
  induction v with
  | scalar s => rfl
  | seq kind items ih =>
    rw [graft_seq, graft_seq]
    refine congrArg _ (List.map_congr_left fun v hv ↦ ih v hv fun c hc ↦ h c ?_)
    rw [nodes_seq, List.mem_flatMap]
    exact ⟨v, hv, hc⟩
  | set items => rfl
  | mapping entries ih =>
    rw [graft_mapping, graft_mapping]
    refine congrArg _ (List.map_congr_left fun e he ↦ ?_)
    have hmem : ∀ c ∈ nodes e.1 ++ nodes e.2, sub c = sub' c := fun c hc ↦ h c (by
      rw [nodes_mapping, List.mem_flatMap]
      exact ⟨e, he, hc⟩)
    rw [(ih e he).1 fun c hc ↦ hmem c (List.mem_append_left _ hc),
      (ih e he).2 fun c hc ↦ hmem c (List.mem_append_right _ hc)]
  | node id => exact h id List.mem_cons_self
  | deferred id => rfl

/-- The nodes of a tree that is put together from trees of nodes. -/
theorem nodes_graft (sub : NodeId → Tree) (v : Value) :
    (v.graft sub).nodes = v.nodes.flatMap fun a ↦ (sub a).nodes := by
  induction v with
  | seq kind items ih =>
    rw [graft_seq, Tree.nodes_seq, nodes_seq, List.flatMap_map, List.flatMap_assoc]
    exact List.flatMap_congr ih
  | mapping entries ih =>
    rw [graft_mapping, Tree.nodes_mapping, nodes_mapping, List.flatMap_map, List.flatMap_assoc]
    refine List.flatMap_congr fun e he ↦ ?_
    rw [(ih e he).1, (ih e he).2, List.flatMap_append]
  | _ => simp

theorem mem_nodes_graft {sub : NodeId → Tree} {v : Value} {c : NodeId} :
    c ∈ (v.graft sub).nodes ↔ ∃ a ∈ v.nodes, c ∈ (sub a).nodes := by
  rw [nodes_graft, List.mem_flatMap]

/-- A value as it is stored: no mapping stands in it, and all its sequences are of one kind. -/
inductive Uniform (kind : SeqKind) : Value → Prop
  | scalar (s : Scalar) : Uniform kind (.scalar s)
  | seq {items : List Value} (h : ∀ v ∈ items, Uniform kind v) : Uniform kind (.seq kind items)
  | set (items : List Scalar) : Uniform kind (.set items)
  | node (id : NodeId) : Uniform kind (.node id)
  | deferred (id : DeferredId) : Uniform kind (.deferred id)

@[simp] theorem nodes_fixed (v : Value) : v.fixed.nodes = v.nodes := by
  induction v with
  | seq kind items ih =>
    rw [fixed_seq, nodes_seq, nodes_seq, List.flatMap_map]
    exact List.flatMap_congr ih
  | _ => rfl

theorem Uniform.fixed {kind : SeqKind} {v : Value} (h : v.Uniform kind) :
    v.fixed.Uniform .tuple := by
  induction h with
  | seq _ ih =>
    rw [fixed_seq]
    refine .seq fun v hv ↦ ?_
    obtain ⟨w, hw, rfl⟩ := List.mem_map.mp hv
    exact ih w hw
  | scalar s => exact .scalar s
  | set items => exact .set items
  | node id => exact .node id
  | deferred id => exact .deferred id

theorem Uniform.fixed_eq {v : Value} (h : v.Uniform .tuple) : v.fixed = v := by
  induction h with
  | seq _ ih =>
    rw [fixed_seq]
    exact congrArg _ ((List.map_congr_left ih).trans (List.map_id _))
  | _ => rfl

end Value

/-! ## The nodes that a node holds -/

namespace Forest

/-- The nodes that a node holds: those that stand under its keys, alone or inside sequences. -/
def children (f : Forest) (n : NodeId) : List NodeId := (f.entries n).flatMap fun e ↦ e.2.nodes

/-- A node reaches itself, what it holds, and what that reaches. -/
def Reaches (f : Forest) : NodeId → NodeId → Prop :=
  Relation.ReflTransGen fun n c ↦ c ∈ f.children n

variable {f g : Forest} {n m c : NodeId}

theorem children_of_notMem (h : n ∉ f) : f.children n = [] := by
  rw [children, entries_of_notMem h, List.flatMap_nil]

theorem mem_of_mem_children (h : c ∈ f.children n) : n ∈ f := by
  by_contra hn
  rw [children_of_notMem hn] at h
  exact absurd h List.not_mem_nil

theorem children_congr (h : g.cell n = f.cell n) : g.children n = f.children n := by
  rw [children, children, entries, entries, h]

theorem Reaches.refl (f : Forest) (n : NodeId) : f.Reaches n n := Relation.ReflTransGen.refl

theorem Reaches.trans (h : f.Reaches n m) (h' : f.Reaches m c) : f.Reaches n c :=
  Relation.ReflTransGen.trans h h'

theorem Reaches.head (h : m ∈ f.children n) (h' : f.Reaches m c) : f.Reaches n c :=
  Relation.ReflTransGen.head h h'

theorem Reaches.tail (h : f.Reaches n m) (h' : c ∈ f.children m) : f.Reaches n c :=
  Relation.ReflTransGen.tail h h'

/-- What is reached through cells that have not changed is still reached. -/
theorem Reaches.of_cell_eq (h : f.Reaches n c)
    (hcell : ∀ m, f.Reaches n m → g.cell m = f.cell m) : g.Reaches n c := by
  induction h with
  | refl => exact .refl g n
  | tail hm hc ih => exact ih.tail ((children_congr (hcell _ hm)).symm ▸ hc)

end Forest

end LayeredConfig
