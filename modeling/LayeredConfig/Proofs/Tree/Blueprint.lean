import LayeredConfig.Proofs.Tree.Merging

/-!
# Contents read as trees

Comparing a tree that can be written to, and writing it out, needs its content only. So a content
may be read as a tree in its own right, with some identity for its nodes, and every question that
does not ask for identities has the same answer there.
-/

namespace LayeredConfig

namespace Blueprint

mutual

/-- A tree with the content; all its nodes have the same identity. -/
def tree : Blueprint → Tree
  | .scalar s => .scalar s
  | .set items => .set items
  | .deferred id => .deferred id
  | .list items => .seq .list (itemTrees items)
  | .node fields => .node ⟨0⟩ false (fieldTrees fields)
termination_by structural x => x

private def itemTrees : List Blueprint → List Tree
  | [] => []
  | b :: rest => tree b :: itemTrees rest
termination_by structural x => x

private def fieldTrees : List (String × Blueprint) → Entries Tree
  | [] => []
  | (key, b) :: rest => (key, tree b) :: fieldTrees rest
termination_by structural x => x

end

private theorem itemTrees_eq (items : List Blueprint) : itemTrees items = items.map tree := by
  induction items with
  | nil => rfl
  | cons b rest ih => rw [itemTrees, ih, List.map_cons]

private theorem fieldTrees_eq (fields : Entries Blueprint) :
    fieldTrees fields = fields.mapValues tree := by
  induction fields with
  | nil => rfl
  | cons e rest ih => rw [fieldTrees, ih, Entries.mapValues, Entries.mapValues, List.map_cons]

@[simp] theorem tree_list (items : List Blueprint) :
    tree (.list items) = .seq .list (items.map tree) :=
  congrArg (Tree.seq .list) (itemTrees_eq items)

@[simp] theorem tree_node (fields : Entries Blueprint) :
    tree (.node fields) = .node ⟨0⟩ false (fields.mapValues tree) :=
  congrArg (Tree.node ⟨0⟩ false) (fieldTrees_eq fields)

/-- No computation stands in the blueprint. -/
inductive Settled : Blueprint → Prop
  | scalar (s : Scalar) : Settled (.scalar s)
  | set (items : List Scalar) : Settled (.set items)
  | list {items : List Blueprint} (h : ∀ b ∈ items, Settled b) : Settled (.list items)
  | node {fields : Entries Blueprint} (h : ∀ e ∈ fields, Settled e.2) : Settled (.node fields)

theorem Settled.fields {fields : Entries Blueprint} (h : (Blueprint.node fields).Settled) :
    ∀ e ∈ fields, e.2.Settled := by
  cases h with
  | node h => exact h

theorem Settled.items {items : List Blueprint} (h : (Blueprint.list items).Settled) :
    ∀ b ∈ items, b.Settled := by
  cases h with
  | list h => exact h

/-- The written form of what holds no computation does not depend on the names of computations. -/
theorem Settled.quoted_tree {b : Blueprint} (h : b.Settled) (names names' : DeferredId → String) :
    b.tree.quoted names = b.tree.quoted names' := by
  induction h with
  | scalar s => rfl
  | set items =>
    cases items <;> rfl
  | list _ ih =>
    rw [tree_list, Tree.quoted_list, Tree.quoted_list, List.map_map, List.map_map]
    exact congrArg (Tree.bracketed "[" "]") (List.map_congr_left ih)
  | node _ ih =>
    rw [tree_node, Tree.quoted_node, Tree.quoted_node, Entries.mapValues, List.map_map,
      List.map_map]
    refine congrArg (Tree.bracketed _ _) (List.map_congr_left fun e he ↦ ?_)
    exact congrArg (Quoted.text e.1 ++ ": " ++ ·) (ih e he)

theorem Settled.display_tree {b : Blueprint} (h : b.Settled) (names names' : DeferredId → String) :
    b.tree.display names = b.tree.display names' := by
  cases h with
  | scalar s => rfl
  | set items => exact (Settled.set items).quoted_tree names names'
  | list hall => exact (Settled.list hall).quoted_tree names names'
  | node hall => exact (Settled.node hall).quoted_tree names names'

mutual

/-- The value that writing the content out as mappings, lists and scalars gives. -/
def plain : Blueprint → Value
  | .scalar s => .scalar s
  | .set items => .set items
  | .deferred id => .deferred id
  | .list items => .list (plainItems items)
  | .node fields => .mapping (plainFields fields)
termination_by structural x => x

private def plainItems : List Blueprint → List Value
  | [] => []
  | b :: rest => plain b :: plainItems rest
termination_by structural x => x

private def plainFields : List (String × Blueprint) → List (Value × Value)
  | [] => []
  | (key, b) :: rest => (.text key, plain b) :: plainFields rest
termination_by structural x => x

end

private theorem plainItems_eq (items : List Blueprint) : plainItems items = items.map plain := by
  induction items with
  | nil => rfl
  | cons b rest ih => rw [plainItems, ih, List.map_cons]

private theorem plainFields_eq (fields : Entries Blueprint) :
    plainFields fields = fields.map fun e ↦ (Value.text e.1, e.2.plain) := by
  induction fields with
  | nil => rfl
  | cons e rest ih => rw [plainFields, ih, List.map_cons]

theorem plain_list (items : List Blueprint) : plain (.list items) = .list (items.map plain) :=
  congrArg (Value.seq .list) (plainItems_eq items)

theorem plain_node (fields : Entries Blueprint) :
    plain (.node fields) = .mapping (fields.map fun e ↦ (.text e.1, e.2.plain)) :=
  congrArg Value.mapping (plainFields_eq fields)

/-! ## Merging what holds no computation -/

theorem Settled.put {fields : Entries Blueprint} (h : ∀ e ∈ fields, e.2.Settled) {b : Blueprint}
    (hb : b.Settled) (key : String) : ∀ e ∈ fields.put key b, e.2.Settled := by
  intro e he
  rcases Entries.mem_put he with rfl | he
  · exact hb
  · exact h e he

private theorem settled_mergeFields {fields : Entries Blueprint}
    (ih : ∀ e ∈ fields, ∀ o : Option Blueprint, (∀ b, o = some b → b.Settled) →
      (merge o e.2).Settled) {old : Entries Blueprint} (hold : ∀ e ∈ old, e.2.Settled) :
    ∀ e ∈ mergeFields old fields, e.2.Settled := by
  induction fields generalizing old with
  | nil => exact hold
  | cons e rest ihrest =>
    obtain ⟨key, b⟩ := e
    rw [mergeFields]
    refine ihrest (fun e he ↦ ih e (List.mem_cons_of_mem _ he)) (Settled.put hold ?_ key)
    exact ih (key, b) List.mem_cons_self _ fun c hc ↦ hold (key, c) (Entries.mem_of_find? hc)

theorem Settled.merge {b : Blueprint} (hb : b.Settled) (o : Option Blueprint)
    (ho : ∀ c, o = some c → c.Settled) : (Blueprint.merge o b).Settled := by
  -- only a node and nothing treat the old value differently from what replaces it
  induction hb generalizing o with
  | @node fields hall ih =>
    by_cases h : ∃ oldFields, o = some (.node oldFields)
    · obtain ⟨oldFields, rfl⟩ := h
      rw [Blueprint.merge]
      exact .node (settled_mergeFields ih (ho _ rfl).fields)
    · rw [merge_of_ne fun oldFields hc ↦ h ⟨oldFields, hc⟩]
      exact .node hall
  | scalar s =>
    by_cases h : s = .null ∧ ∃ oldFields, o = some (.node oldFields)
    · obtain ⟨rfl, oldFields, rfl⟩ := h
      rw [Blueprint.merge]
      exact ho _ rfl
    · by_cases hs : s = .null
      · rw [merge_of_ne fun oldFields hc ↦ h ⟨hs, oldFields, hc⟩]
        exact .scalar s
      · rw [merge_of_plain (fun hc ↦ hs (Blueprint.scalar.inj hc)) fun fields hc ↦ by cases hc]
        exact .scalar s
  | set items => exact .set items
  | list hall _ => exact .list hall

theorem Settled.mergeFields {old fields : Entries Blueprint} (hold : ∀ e ∈ old, e.2.Settled)
    (h : ∀ e ∈ fields, e.2.Settled) : ∀ e ∈ Blueprint.mergeFields old fields, e.2.Settled :=
  settled_mergeFields (fun e he ↦ (h e he).merge) hold

end Blueprint

namespace Tree

variable {t u : Tree}

/-- What stands at the end of a path holds no computation if the tree holds none. -/
theorem settled_at? (h : t.content.Settled) {p : List String} (hu : t.at? p = some u) :
    u.content.Settled := by
  induction p generalizing t with
  | nil => exact Option.some.inj hu ▸ h
  | cons key rest ih =>
    cases hb : t.branches? with
    | none =>
      rw [at?_cons_of_none hb] at hu
      cases hu
    | some branches =>
      rw [at?_cons hb] at hu
      obtain ⟨x, hx, hxu⟩ := Option.bind_eq_some_iff.mp hu
      rw [content_of_branches hb] at h
      have he : (key, x.content) ∈ branches.mapValues content :=
        List.mem_map.mpr ⟨(key, x), Entries.mem_of_find? hx, rfl⟩
      exact ih (h.fields _ he) hxu

/-- Whether a value equals a scalar depends on its content only. -/
theorem equal_scalar_content (t : Tree) (s : Scalar) :
    t.content.tree.equal (.scalar s) = t.equal (.scalar s) := by
  cases t with
  | seq kind items =>
    rw [content_seq, Blueprint.tree_list]
    rfl
  | mapping entries =>
    rw [content_mapping, Blueprint.tree_node]
    rfl
  | node id frozen fields =>
    rw [content_node, Blueprint.tree_node]
    rfl
  | _ => rfl

/-- Whether a value counts as set depends on its content only. -/
theorem truthy_content (t : Tree) : t.content.tree.truthy = t.truthy := by
  cases t with
  | seq kind items =>
    rw [content_seq, Blueprint.tree_list]
    cases items <;> rfl
  | mapping entries =>
    rw [content_mapping, Blueprint.tree_node]
    cases entries with
    | nil => rfl
    | cons e rest =>
      -- whichever of several equal keys counts, there is one
      rw [List.map_cons]
      cases hfields : Entries.ofPairs (_ :: _) with
      | nil => exact absurd hfields (Entries.ofPairs_cons_ne_nil _ _)
      | cons e rest => rfl
  | node id frozen fields =>
    rw [content_node, Blueprint.tree_node]
    cases fields <;> rfl
  | _ => rfl

/-! ## A tree that can be written to, and its content -/

theorem all_zip_map {α β γ : Type} (f : α → γ) (p : γ → β → Bool) (q : α → β → Bool)
    {xs : List α} (h : ∀ x ∈ xs, ∀ y, p (f x) y = q x y) (ys : List β) :
    (((xs.map f).zip ys).all fun z ↦ p z.1 z.2) = (xs.zip ys).all fun z ↦ q z.1 z.2 := by
  induction xs generalizing ys with
  | nil => rfl
  | cons x xs ih =>
    cases ys with
    | nil => rfl
    | cons y ys =>
      rw [List.map_cons, List.zip_cons_cons, List.zip_cons_cons, List.all_cons, List.all_cons,
        h x List.mem_cons_self, ih fun z hz ↦ h z (List.mem_cons_of_mem _ hz)]

namespace Writable

/-- Comparing a tree compares its content. -/
theorem itemEqual_content (ht : t.Writable) (u : Tree) :
    t.content.tree.itemEqual u = t.itemEqual u := by
  -- the right side is not touched, so it stays general through the induction
  induction ht generalizing u with
  | scalar s => rfl
  | set items => rfl
  | deferred id => rfl
  | @list items _ ih =>
    rw [content_seq, Blueprint.tree_list]
    cases u with
    | seq kind ys =>
      rw [itemEqual_seq, itemEqual_seq, List.map_map, List.length_map,
        all_zip_map (Blueprint.tree ∘ content) itemEqual itemEqual ih]
    | _ => rfl
  | @node id fields _ ih =>
    rw [content_node, Blueprint.tree_node]
    cases u with
    | node id' frozen ys =>
      rw [itemEqual_node, itemEqual_node, Entries.mapValues_mapValues, Entries.mapValues,
        List.length_map, List.all_map]
      refine congrArg (fields.length == ys.length && ·) ?_
      rw [Bool.eq_iff_iff, List.all_eq_true, List.all_eq_true]
      refine forall₂_congr fun e he ↦ ?_
      simp only [Function.comp_apply, ih e he]
    | _ => rfl

theorem equal_content (ht : t.Writable) (u : Tree) : t.content.tree.equal u = t.equal u := by
  cases ht with
  | scalar s => rfl
  | list h => exact (Writable.list h).itemEqual_content u
  | set items => rfl
  | node id h => exact (Writable.node id h).itemEqual_content u
  | deferred id => rfl

theorem sameKind_content (ht : t.Writable) (u : Tree) :
    t.content.tree.sameKind u = t.sameKind u := by
  cases ht with
  | list h => rw [content_seq, Blueprint.tree_list]; cases u <;> rfl
  | node id h => rw [content_node, Blueprint.tree_node]; cases u <;> rfl
  | _ => rfl

theorem quoted_content (ht : t.Writable) (names : DeferredId → String) :
    t.content.tree.quoted names = t.quoted names := by
  induction ht with
  | @list items _ ih =>
    rw [content_seq, Blueprint.tree_list, quoted_list, quoted_list, List.map_map, List.map_map]
    exact congrArg (bracketed "[" "]") (List.map_congr_left ih)
  | @node id fields _ ih =>
    rw [content_node, Blueprint.tree_node, quoted_node, quoted_node, Entries.mapValues_mapValues,
      Entries.mapValues, List.map_map]
    refine congrArg (bracketed _ _) (List.map_congr_left fun e he ↦ ?_)
    exact congrArg (Quoted.text e.1 ++ ": " ++ ·) (ih e he)
  | _ => rfl

theorem display_content (ht : t.Writable) (names : DeferredId → String) :
    t.content.tree.display names = t.display names := by
  cases ht with
  | scalar s => rfl
  | list h =>
    have hquoted := (Writable.list h).quoted_content names
    rw [content_seq, Blueprint.tree_list] at hquoted ⊢
    exact hquoted
  | set items => rfl
  | node id h =>
    have hquoted := (Writable.node id h).quoted_content names
    rw [content_node, Blueprint.tree_node] at hquoted ⊢
    exact hquoted
  | deferred id => rfl

end Writable

end Tree

end LayeredConfig
