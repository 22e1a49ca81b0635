import LayeredConfig.Proofs.Forest.Ownership
import LayeredConfig.Proofs.Tree.Content

/-!
# Making nodes

Converting a value makes new nodes and touches no other. `Placed f nodes g` says what is known of
the forest `g` afterwards and of the nodes that the made value refers to: they are new, no node
holds them, and none stands among them twice, so that the value may be stored anywhere.
-/

namespace LayeredConfig

/-! ## Stored values as trees -/

namespace Value

variable {sub : NodeId → Tree} {v : Value}

theorem Uniform.wellKeyed_graft {kind : SeqKind} (hv : v.Uniform kind)
    (h : ∀ c ∈ v.nodes, (sub c).WellKeyed) : (v.graft sub).WellKeyed := by
  induction hv with
  | scalar s => exact .scalar s
  | @seq items _ ih =>
    rw [graft_seq]
    refine .seq kind fun t ht ↦ ?_
    obtain ⟨w, hw, rfl⟩ := List.mem_map.mp ht
    refine ih w hw fun c hc ↦ h c ?_
    rw [nodes_seq]
    exact List.mem_flatMap.mpr ⟨w, hw, hc⟩
  | set items => exact .set items
  | node id => exact h id List.mem_cons_self
  | deferred id => exact .deferred id

theorem distinct_graft (h : ∀ c ∈ v.nodes, (sub c).Distinct) : (v.graft sub).Distinct := by
  induction v with
  | scalar s => exact .scalar s
  | seq kind items ih =>
    rw [graft_seq]
    refine .seq kind fun t ht ↦ ?_
    obtain ⟨w, hw, rfl⟩ := List.mem_map.mp ht
    refine ih w hw fun c hc ↦ h c ?_
    rw [nodes_seq]
    exact List.mem_flatMap.mpr ⟨w, hw, hc⟩
  | set items => exact .set items
  | mapping entries ih =>
    rw [graft_mapping]
    refine .mapping fun e he ↦ ?_
    obtain ⟨a, ha, rfl⟩ := List.mem_map.mp he
    refine (ih a ha).2 fun c hc ↦ h c ?_
    rw [nodes_mapping]
    exact List.mem_flatMap.mpr ⟨a, ha, List.mem_append_right _ hc⟩
  | node id => exact h id List.mem_cons_self
  | deferred id => exact .deferred id

end Value

namespace Forest

variable {f g h : Forest} {n m c : NodeId} {v : Value} {xs ys : List NodeId}

theorem Sound.wellKeyed_view (hf : f.Sound) {kind : SeqKind} (hv : v.Uniform kind) :
    (f.view v).WellKeyed := by
  refine hv.wellKeyed_graft fun n hn ↦ ?_
  -- what a node holds need not be mentioned by `v`, so this is shown of every node
  clear hn
  induction n using hf.node_induction with
  | h n ih =>
    change (f.view (.node n)).WellKeyed
    rw [hf.view_node]
    refine .node _ _ fun e he ↦ ?_
    obtain ⟨a, ha, rfl⟩ := List.mem_map.mp he
    exact (hf.uniform n a ha).wellKeyed_graft fun c hc ↦ ih c (List.mem_flatMap.mpr ⟨a, ha, hc⟩)

theorem Sound.distinct_view (hf : f.Sound) (v : Value) : (f.view v).Distinct := by
  refine Value.distinct_graft fun n hn ↦ ?_
  clear hn
  induction n using hf.node_induction with
  | h n ih =>
    change (f.view (.node n)).Distinct
    rw [hf.view_node]
    refine .node _ _ (by rw [Entries.keys_mapValues]; exact hf.distinct n) fun e he ↦ ?_
    obtain ⟨a, ha, rfl⟩ := List.mem_map.mp he
    exact Value.distinct_graft fun c hc ↦ ih c (List.mem_flatMap.mpr ⟨a, ha, hc⟩)

/-! ## Forests with more nodes -/

/-- All nodes of the first forest are in the second one, unchanged. -/
structure Extends (f g : Forest) : Prop where
  size_le : f.cells.size ≤ g.cells.size
  cell_eq : ∀ {n}, n ∈ f → g.cell n = f.cell n

namespace Extends

theorem refl (f : Forest) : Extends f f := ⟨Nat.le_refl _, fun _ ↦ rfl⟩

theorem mem (hfg : Extends f g) (hn : n ∈ f) : n ∈ g := Nat.lt_of_lt_of_le hn hfg.size_le

theorem trans (hfg : Extends f g) (hgh : Extends g h) : Extends f h :=
  ⟨Nat.le_trans hfg.size_le hgh.size_le,
    fun hn ↦ (hgh.cell_eq (hfg.mem hn)).trans (hfg.cell_eq hn)⟩

theorem children_eq (hfg : Extends f g) (hn : n ∈ f) : g.children n = f.children n :=
  children_congr (hfg.cell_eq hn)

theorem view_eq (hfg : Extends f g) (hf : f.Sound) (hg : g.Sound) (hv : ∀ a ∈ v.nodes, a ∈ f) :
    g.view v = f.view v :=
  hf.view_congr hg fun a ha _ hc ↦ hfg.cell_eq (hf.mem_of_reaches (hv a ha) hc)

theorem reaches (hfg : Extends f g) (hf : f.Sound) (hn : n ∈ f) (h : g.Reaches n c) :
    f.Reaches n c := by
  induction h with
  | refl => exact .refl f n
  | tail _ hc ih => exact ih.tail (hfg.children_eq (hf.mem_of_reaches hn ih) ▸ hc)

end Extends

/-! ## Filling a node -/

/-- Replaces all that a node holds. -/
def setEntries (f : Forest) (n : NodeId) (entries : Entries Value) : Forest :=
  f.update n fun c ↦ { c with entries := entries }

section SetEntries

variable {entries : Entries Value}

@[simp] theorem mem_setEntries : m ∈ f.setEntries n entries ↔ m ∈ f := mem_update _

theorem cell_setEntries_of_ne (h : m ≠ n) : (f.setEntries n entries).cell m = f.cell m :=
  cell_update_of_ne h _

theorem entries_setEntries_self (h : n ∈ f) : (f.setEntries n entries).entries n = entries := by
  rw [Forest.entries, setEntries, cell_update_self h]

@[simp] theorem frozen_setEntries : (f.setEntries n entries).frozen m = f.frozen m := by
  by_cases hm : m = n
  · subst hm
    by_cases h : m ∈ f
    · rw [frozen, setEntries, cell_update_self h, ← frozen]
    · rw [frozen, frozen, cell_of_notMem h, cell_of_notMem (mem_setEntries.not.mpr h)]
  · rw [frozen, cell_setEntries_of_ne hm, ← frozen]

theorem children_setEntries_self (h : n ∈ f) :
    (f.setEntries n entries).children n = entries.flatMap fun e ↦ e.2.nodes := by
  rw [children, entries_setEntries_self h]

theorem children_setEntries_of_ne (h : m ≠ n) :
    (f.setEntries n entries).children m = f.children m :=
  children_congr (cell_setEntries_of_ne h)

theorem store_eq_setEntries (key : String) :
    f.store n key v = f.setEntries n ((f.entries n).put key v) := by
  by_cases h : n ∈ f
  · have hcell : f.cells[n.index]? = some (f.cell n) := by
      rw [cell, Array.getElem?_eq_getElem h, Option.getD_some]
    rw [store, setEntries, update, update]
    refine congrArg Forest.mk (Array.ext_getElem? fun i ↦ ?_)
    rw [Array.getElem?_modify, Array.getElem?_modify]
    split
    · next hi => rw [← hi, hcell]; rfl
    · rfl
  · have hsize : f.cells.size ≤ n.index := Nat.le_of_not_lt h
    rw [store, setEntries, update, update]
    refine congrArg Forest.mk (Array.ext_getElem? fun i ↦ ?_)
    rw [Array.getElem?_modify, Array.getElem?_modify]
    split
    · next hi => rw [← hi, Array.getElem?_eq_none hsize]; rfl
    · rfl

/-- A node that can be written to may be filled with anything that no other node holds. -/
theorem Sound.setEntries (hf : f.Sound) (hn : f.frozen n = false) (distinct : entries.keys.Nodup)
    (uniform : ∀ e ∈ entries, e.2.Uniform .list)
    (once : (entries.flatMap fun e ↦ e.2.nodes).Nodup)
    (younger : ∀ c ∈ entries.flatMap fun e ↦ e.2.nodes, n.index < c.index ∧ c ∈ f)
    (unheld : ∀ c ∈ entries.flatMap fun e ↦ e.2.nodes, ∀ m, m ≠ n → c ∉ f.children m) :
    (f.setEntries n entries).Sound := by
  have hmem := mem_of_frozen_eq_false hn
  have hself : (f.setEntries n entries).children n = entries.flatMap fun e ↦ e.2.nodes :=
    children_setEntries_self hmem
  have hother : ∀ {m}, m ≠ n → (f.setEntries n entries).children m = f.children m :=
    children_setEntries_of_ne
  constructor
  · intro m c hc
    rw [mem_setEntries]
    by_cases hm : m = n
    · subst hm
      exact younger c (hself ▸ hc)
    · exact hf.younger (hother hm ▸ hc)
  · intro m
    by_cases hm : m = n
    · subst hm
      rwa [entries_setEntries_self hmem]
    · rw [Forest.entries, cell_setEntries_of_ne hm]
      exact hf.distinct m
  · intro m
    by_cases hm : m = n
    · subst hm
      rwa [hself]
    · rw [hother hm]
      exact hf.once m
  · -- of two holders that both are not `n` nothing has changed; `n` holds nothing of another
    intro m k c hcm hck
    by_cases hm : m = n <;> by_cases hk : k = n
    · rw [hm, hk]
    · subst hm
      exact absurd (hother hk ▸ hck) (unheld c (hself ▸ hcm) k hk)
    · subst hk
      exact absurd (hother hm ▸ hcm) (unheld c (hself ▸ hck) m hm)
    · exact hf.single (hother hm ▸ hcm) (hother hk ▸ hck)
  · intro m e he
    rw [frozen_setEntries]
    by_cases hm : m = n
    · subst hm
      rw [entries_setEntries_self hmem] at he
      rw [hn]
      exact uniform e he
    · rw [Forest.entries, cell_setEntries_of_ne hm] at he
      exact hf.uniform m e he
  · -- a frozen node is not `n`
    intro m c hm hc
    rw [frozen_setEntries] at hm ⊢
    have hne : m ≠ n := fun heq ↦ by rw [heq, hn] at hm; cases hm
    exact hf.closed hm (hother hne ▸ hc)

/-- Filling a node does not change the trees of what does not reach it. -/
theorem Sound.view_setEntries (hf : f.Sound) (hg : (f.setEntries n entries).Sound)
    (hv : ∀ a ∈ v.nodes, ¬f.Reaches a n) : (f.setEntries n entries).view v = f.view v :=
  hf.view_congr hg fun a ha _ hc ↦ cell_setEntries_of_ne fun heq ↦ hv a ha (heq ▸ hc)

end SetEntries

/-! ## Making what a blueprint describes -/

/-- The nodes that are not in the smaller forest hold none that is. -/
theorem Sound.notMem_of_mem_children (hg : g.Sound) (hm : m ∉ f) (hc : c ∈ g.children m) :
    c ∉ f := by
  have := (hg.younger hc).1
  rw [mem_iff] at hm ⊢
  omega

/-- A new node without entries adds nothing to what is held. -/
theorem entries_grow_nil (b : Bool) : (f.grow ⟨[], b⟩).2.entries m = f.entries m := by
  by_cases hm : m = ⟨f.cells.size⟩
  · have hnot : (⟨f.cells.size⟩ : NodeId) ∉ f := Nat.lt_irrefl _
    rw [hm, entries, cell_grow_self, entries_of_notMem hnot]
  · rw [entries, cell_grow_of_ne hm, ← entries]

theorem Extends.grow (f : Forest) (c : Cell) : Extends f (f.grow c).2 where
  size_le := by rw [Forest.grow, Array.size_push]; exact Nat.le_succ _
  cell_eq hn := cell_grow_of_ne fun h ↦ Nat.lt_irrefl _ (h ▸ mem_iff.mp hn)

theorem Sound.grow (hf : f.Sound) : (f.grow ⟨[], false⟩).2.Sound := by
  have hent := fun m ↦ entries_grow_nil (f := f) (m := m) false
  have hchild : ∀ m, (f.grow ⟨[], false⟩).2.children m = f.children m := fun m ↦ by
    rw [children, hent, ← children]
  have hold : ∀ {m}, m ∈ f → (f.grow ⟨[], false⟩).2.frozen m = f.frozen m := fun hm ↦ by
    rw [frozen, (Extends.grow f _).cell_eq hm, ← frozen]
  constructor
  · intro n c hc
    obtain ⟨hlt, hmem⟩ := hf.younger (hchild n ▸ hc)
    exact ⟨hlt, (Extends.grow f _).mem hmem⟩
  · intro n
    rw [hent]
    exact hf.distinct n
  · intro n
    rw [hchild]
    exact hf.once n
  · intro n m c hn hm
    exact hf.single (hchild n ▸ hn) (hchild m ▸ hm)
  · intro n e he
    rw [hent] at he
    by_cases hn : n ∈ f
    · rw [hold hn]
      exact hf.uniform n e he
    · rw [entries_of_notMem hn] at he
      exact absurd he List.not_mem_nil
  · intro n c hn hc
    rw [hchild] at hc
    have hmem := mem_of_mem_children hc
    rw [hold (hf.younger hc).2]
    exact hf.closed (hold hmem ▸ hn) hc

/-- The forest `g` arises from `f` by making nodes. Those listed are new, none of them is listed
twice, and no node holds one. -/
structure Placed (f : Forest) (nodes : List NodeId) (g : Forest) : Prop where
  sound : g.Sound
  grown : Extends f g
  writable : ∀ {c}, c ∈ g → c ∉ f → g.frozen c = false
  nodup : nodes.Nodup
  mem : ∀ c ∈ nodes, c ∈ g
  new : ∀ c ∈ nodes, c ∉ f
  unheld : ∀ c ∈ nodes, ∀ m, c ∉ g.children m

namespace Placed

theorem nil (hf : f.Sound) : Placed f [] f where
  sound := hf
  grown := .refl f
  writable hc hn := absurd hc hn
  nodup := List.nodup_nil
  mem _ h := absurd h List.not_mem_nil
  new _ h := absurd h List.not_mem_nil
  unheld _ h := absurd h List.not_mem_nil

theorem append (hfg : Placed f xs g) (hgh : Placed g ys h) : Placed f (xs ++ ys) h where
  sound := hgh.sound
  grown := hfg.grown.trans hgh.grown
  writable {c} hc hn := by
    by_cases hcg : c ∈ g
    · rw [frozen, hgh.grown.cell_eq hcg, ← frozen]
      exact hfg.writable hcg hn
    · exact hgh.writable hc hcg
  nodup := List.nodup_append.mpr ⟨hfg.nodup, hgh.nodup, fun a ha b hb hab ↦
    hgh.new b hb (hab ▸ hfg.mem a ha)⟩
  mem c hc := (List.mem_append.mp hc).elim (fun hc ↦ hgh.grown.mem (hfg.mem c hc)) (hgh.mem c)
  new c hc := (List.mem_append.mp hc).elim (hfg.new c) fun hc hf ↦
    hgh.new c hc (hfg.grown.mem hf)
  unheld c hc m hm := by
    -- a node made later may hold only what was made later still
    rcases List.mem_append.mp hc with hc | hc
    · by_cases hmg : m ∈ g
      · exact hfg.unheld c hc m (hgh.grown.children_eq hmg ▸ hm)
      · exact hgh.sound.notMem_of_mem_children hmg hm (hfg.mem c hc)
    · exact hgh.unheld c hc m hm

/-- A new node without entries. -/
theorem grow (hf : f.Sound) : Placed f [⟨f.cells.size⟩] (f.grow ⟨[], false⟩).2 where
  sound := hf.grow
  grown := .grow f _
  writable hc hn := by
    rw [(mem_grow.mp hc).resolve_left hn, frozen, cell_grow_self]
  nodup := List.nodup_singleton _
  mem c hc := mem_grow.mpr (.inr (List.mem_singleton.mp hc))
  new c hc hf := by
    rw [List.mem_singleton.mp hc] at hf
    exact Nat.lt_irrefl _ hf
  unheld c hc m hm := by
    rw [children, entries_grow_nil, ← children] at hm
    rw [List.mem_singleton.mp hc] at hm
    exact Nat.lt_irrefl _ (hf.younger hm).2

/-- A new node is filled with nodes that were made after it. -/
theorem fill {fields : Entries Value} (hf : f.Sound)
    (hg : Placed (f.grow ⟨[], false⟩).2 (fields.flatMap fun e ↦ e.2.nodes) g)
    (distinct : fields.keys.Nodup) (uniform : ∀ e ∈ fields, e.2.Uniform .list) :
    Placed f [⟨f.cells.size⟩] (g.setEntries ⟨f.cells.size⟩ fields) := by
  have hnew := grow hf
  have hn : (⟨f.cells.size⟩ : NodeId) ∈ (f.grow ⟨[], false⟩).2 := hnew.mem _ List.mem_cons_self
  have hwritable : g.frozen ⟨f.cells.size⟩ = false := by
    rw [frozen, hg.grown.cell_eq hn, cell_grow_self]
  have hsound : (g.setEntries ⟨f.cells.size⟩ fields).Sound := by
    refine hg.sound.setEntries hwritable distinct uniform hg.nodup (fun c hc ↦ ⟨?_, hg.mem c hc⟩)
      fun c hc m _ ↦ hg.unheld c hc m
    have hc := hg.new c hc
    rw [mem_iff, Forest.grow, Array.size_push] at hc
    exact Nat.lt_of_succ_le (Nat.le_of_not_lt hc)
  have hboth := hnew.append hg
  have hne : ∀ {c : NodeId}, c ∈ f → c ≠ ⟨f.cells.size⟩ := fun hc heq ↦
    Nat.lt_irrefl _ (heq ▸ mem_iff.mp hc)
  refine ⟨hsound, ⟨?_, fun {c} hc ↦ ?_⟩, fun hc hnot ↦ ?_, List.nodup_singleton _, fun c hc ↦ ?_,
    hnew.new, fun c hc m hm ↦ ?_⟩
  · rw [setEntries, size_update]
    exact hboth.grown.size_le
  · rw [cell_setEntries_of_ne (hne hc)]
    exact hboth.grown.cell_eq hc
  · rw [frozen_setEntries]
    exact hboth.writable (mem_setEntries.mp hc) hnot
  · exact mem_setEntries.mpr (hboth.mem c (List.mem_append_left _ hc))
  · have hc' := List.mem_singleton.mp hc
    subst hc'
    by_cases hm' : m = ⟨f.cells.size⟩
    · rw [hm', children_setEntries_self (hg.grown.mem hn)] at hm
      exact hg.new _ hm hn
    · rw [children_setEntries_of_ne hm'] at hm
      exact hboth.unheld _ (List.mem_append_left _ hc) m hm

end Placed

/-- The value `v` was made of the blueprint `b`. -/
structure Made (f : Forest) (b : Blueprint) (v : Value) (g : Forest) : Prop where
  placed : Placed f v.nodes g
  uniform : v.Uniform .list
  content : (g.view v).content = b

private theorem placeItems_made {items : List Blueprint}
    (ih : ∀ b ∈ items, ∀ f : Forest, f.Sound → Made f b (f.place b).1 (f.place b).2) :
    ∀ f : Forest, f.Sound →
      Placed f ((f.placeItems items).1.flatMap Value.nodes) (f.placeItems items).2 ∧
      (∀ v ∈ (f.placeItems items).1, v.Uniform .list) ∧
      (f.placeItems items).1.map (fun v ↦ ((f.placeItems items).2.view v).content) = items := by
  induction items with
  | nil => exact fun f hf ↦ ⟨.nil hf, fun v hv ↦ absurd hv List.not_mem_nil, rfl⟩
  | cons b rest ihrest =>
    intro f hf
    have hb := ih b List.mem_cons_self f hf
    obtain ⟨hrest, huniform, hcontent⟩ :=
      ihrest (fun b hb ↦ ih b (List.mem_cons_of_mem _ hb)) _ hb.placed.sound
    rw [placeItems]
    refine ⟨hb.placed.append hrest, fun v hv ↦ ?_, ?_⟩
    · rcases List.mem_cons.mp hv with rfl | hv
      · exact hb.uniform
      · exact huniform v hv
    · have hview := hrest.grown.view_eq hb.placed.sound hrest.sound hb.placed.mem
      rw [List.map_cons, hcontent, hview, hb.content]

private theorem placeFields_made {fields : Entries Blueprint}
    (ih : ∀ e ∈ fields, ∀ f : Forest, f.Sound → Made f e.2 (f.place e.2).1 (f.place e.2).2) :
    ∀ f : Forest, f.Sound →
      Placed f ((f.placeFields fields).1.flatMap fun e ↦ e.2.nodes) (f.placeFields fields).2 ∧
      (∀ e ∈ (f.placeFields fields).1, e.2.Uniform .list) ∧
      (f.placeFields fields).1.mapValues (fun v ↦ ((f.placeFields fields).2.view v).content)
        = fields := by
  induction fields with
  | nil => exact fun f hf ↦ ⟨.nil hf, fun v hv ↦ absurd hv List.not_mem_nil, rfl⟩
  | cons e rest ihrest =>
    obtain ⟨key, b⟩ := e
    intro f hf
    have hb := ih (key, b) List.mem_cons_self f hf
    obtain ⟨hrest, huniform, hcontent⟩ :=
      ihrest (fun e he ↦ ih e (List.mem_cons_of_mem _ he)) _ hb.placed.sound
    rw [placeFields]
    refine ⟨hb.placed.append hrest, fun e he ↦ ?_, ?_⟩
    · rcases List.mem_cons.mp he with rfl | he
      · exact hb.uniform
      · exact huniform e he
    · have hview := hrest.grown.view_eq hb.placed.sound hrest.sound hb.placed.mem
      rw [Entries.mapValues_cons, hcontent, hview, hb.content]

theorem place_node (f : Forest) (fields : Entries Blueprint) :
    f.place (.node fields) = (.node ⟨f.cells.size⟩,
      ((f.grow ⟨[], false⟩).2.placeFields fields).2.setEntries ⟨f.cells.size⟩
        ((f.grow ⟨[], false⟩).2.placeFields fields).1) := by
  rw [place]
  rfl

/-- **Making a blueprint** makes a value with its content, and touches no node that was there. -/
theorem Sound.place (hf : f.Sound) {b : Blueprint} (hb : b.Distinct) :
    Made f b (f.place b).1 (f.place b).2 := by
  induction hb generalizing f with
  | scalar s => exact ⟨.nil hf, .scalar s, rfl⟩
  | set items => exact ⟨.nil hf, .set items, rfl⟩
  | deferred id => exact ⟨.nil hf, .deferred id, rfl⟩
  | list _ ih =>
    obtain ⟨hplaced, huniform, hcontent⟩ := placeItems_made (fun b hb f hf ↦ ih b hb hf) f hf
    rw [Forest.place]
    refine ⟨by rwa [Value.nodes_seq], .seq huniform, ?_⟩
    rw [view_seq, Tree.content_seq, List.map_map]
    exact congrArg Blueprint.list hcontent
  | @node fields keys _ ih =>
    have hnew := Placed.grow hf
    obtain ⟨hplaced, huniform, hcontent⟩ :=
      placeFields_made (fun e he f hf ↦ ih e he hf) _ hnew.sound
    have hkeys : ((f.grow ⟨[], false⟩).2.placeFields fields).1.keys.Nodup := by
      rw [← hcontent, Entries.keys_mapValues] at keys
      exact keys
    have hfill := Placed.fill hf hplaced hkeys huniform
    rw [place_node]
    refine ⟨hfill, .node _, ?_⟩
    rw [hfill.sound.view_node, Tree.content_node,
      entries_setEntries_self (hplaced.grown.mem (hnew.mem _ List.mem_cons_self)),
      Entries.mapValues_mapValues]
    -- filling the node changes no tree below it, because what it holds is younger
    refine congrArg Blueprint.node ((Entries.mapValues_congr fun e he ↦ ?_).trans hcontent)
    refine congrArg Tree.content (hplaced.sound.view_setEntries hfill.sound fun a ha hr ↦ ?_)
    have hnot := hplaced.new a (List.mem_flatMap.mpr ⟨e, he, ha⟩)
    have hle := hplaced.sound.index_le_of_reaches hr
    rw [mem_grow, not_or, mem_iff] at hnot
    exact hnot.2 (congrArg NodeId.mk (Nat.le_antisymm hle (Nat.le_of_not_lt hnot.1)))

end Forest

end LayeredConfig
