import LayeredConfig.Proofs.Node.Comparing

/-!
# Copies and their originals

A copy has the contents of its original and can be written to. So it holds lists, also where a
frozen part of the original holds tuples, and a list never equals a tuple. The copy equals the
original as long as no frozen node in it holds a sequence, and that is the only exception
(`Memory.Reachable.copy_equals_iff`): freezing the copy makes the two equal if the original is
frozen.
-/

namespace LayeredConfig

/-! ## Members that correspond -/

/-- Lists that correspond member by member are related if their members are. -/
theorem forall₂_iff_of_map_eq {α β γ : Type} {r : α → β → Prop} {p : β → Prop} {f : α → γ}
    {g : β → γ} {xs : List α} {ys : List β} (h : xs.map f = ys.map g)
    (hiff : ∀ x ∈ xs, ∀ y ∈ ys, f x = g y → (r x y ↔ p y)) :
    List.Forall₂ r xs ys ↔ ∀ y ∈ ys, p y := by
  induction xs generalizing ys with
  | nil =>
    rw [List.map_eq_nil_iff.mp h.symm]
    simp
  | cons x rest ih =>
    cases ys with
    | nil => cases h
    | cons y rest' =>
      obtain ⟨hxy, hrest⟩ := List.cons.inj h
      rw [List.forall₂_cons, List.forall_mem_cons,
        hiff x List.mem_cons_self y List.mem_cons_self hxy, ih hrest fun x hx y hy ↦
          hiff x (List.mem_cons_of_mem _ hx) y (List.mem_cons_of_mem _ hy)]

namespace Entries

variable {α β γ : Type} {r : α → β → Prop} {p : β → Prop} {f : α → γ} {g : β → γ}
  {xs : Entries α} {ys : Entries β}

theorem paired_flip_iff {r : β → α → Prop} (hx : xs.keys.Nodup) (hy : ys.keys.Nodup) :
    Paired r ys xs ↔ Paired (fun a b ↦ r b a) xs ys := ⟨fun h ↦ h.flip hy, fun h ↦ h.flip hx⟩

/-- Entries that correspond under each key are paired if their values are related. -/
theorem paired_iff_of_mapValues_eq (hy : ys.keys.Nodup) (h : xs.mapValues f = ys.mapValues g)
    (hiff : ∀ x ∈ xs, ∀ y ∈ ys, f x.2 = g y.2 → (r x.2 y.2 ↔ p y.2)) :
    Paired r xs ys ↔ ∀ y ∈ ys, p y.2 := by
  have hx : xs.keys.Nodup := by rwa [← keys_mapValues f, h, keys_mapValues]
  have hfind : ∀ key, (xs.find? key).map f = (ys.find? key).map g := fun key ↦ by
    rw [← find?_mapValues, h, find?_mapValues]
  rw [paired_iff_find? hx hy]
  constructor
  · intro hrel y hmem
    have hkey := hrel y.1
    have hvalue := hfind y.1
    rw [find?_of_mem hy hmem] at hkey hvalue
    obtain ⟨a, ha, hab⟩ := Option.map_eq_some_iff.mp hvalue
    rw [ha] at hkey
    cases hkey with
    | some hrel => exact (hiff (y.1, a) (mem_of_find? ha) y hmem hab).mp hrel
  · intro hall key
    have hvalue := hfind key
    cases hb : ys.find? key with
    | none =>
      rw [hb, Option.map_none, Option.map_eq_none_iff] at hvalue
      rw [hvalue]
      exact .none
    | some b =>
      rw [hb, Option.map_some] at hvalue
      obtain ⟨a, ha, hab⟩ := Option.map_eq_some_iff.mp hvalue
      have hmem := mem_of_find? hb
      rw [ha]
      exact .some ((hiff (key, a) (mem_of_find? ha) (key, b) hmem hab).mpr (hall (key, b) hmem))

end Entries

/-! ## Trees without tuples -/

namespace Tree

variable {t u : Tree} {kind : SeqKind} {items : List Tree} {id : NodeId} {frozen : Bool}
  {fields : Entries Tree}

/-- A stored tree whose sequences are lists, whether or not its nodes are frozen. -/
inductive Listed : Tree → Prop
  | scalar (s : Scalar) : Listed (.scalar s)
  | list {items : List Tree} (h : ∀ t ∈ items, Listed t) : Listed (.seq .list items)
  | set (items : List Scalar) : Listed (.set items)
  | node (id : NodeId) (frozen : Bool) {fields : Entries Tree} (h : ∀ e ∈ fields, Listed e.2) :
      Listed (.node id frozen fields)
  | deferred (id : DeferredId) : Listed (.deferred id)

theorem listed_seq_iff : Listed (.seq kind items) ↔ kind = .list ∧ ∀ t ∈ items, t.Listed :=
  ⟨fun h ↦ by cases h with | list h => exact ⟨rfl, h⟩, fun h ↦ h.1 ▸ .list h.2⟩

theorem listed_node_iff : Listed (.node id frozen fields) ↔ ∀ e ∈ fields, e.2.Listed :=
  ⟨fun h ↦ by cases h with | node _ _ h => exact h, .node id frozen⟩

/-- **A tree equals an open tree with the same content** if it holds no tuple. -/
theorem Writable.same_iff_listed (ht : t.Writable) (hu : u.Distinct) (h : t.content = u.content) :
    (Same t u ↔ u.Listed) ∧ (Same u t ↔ u.Listed) := by
  induction ht generalizing u with
  | scalar s =>
    obtain rfl := eq_scalar_of_content h.symm
    exact ⟨iff_of_true (itemEqual_self _) (.scalar s), iff_of_true (itemEqual_self _) (.scalar s)⟩
  | @list items _ ih =>
    rw [content_seq] at h
    obtain ⟨kind, items', rfl, hitems⟩ := eq_seq_of_content h.symm
    cases hu with
    | seq _ hall =>
      have hiff := fun x hx y hy ↦ ih x hx (hall y hy)
      rw [same_seq_iff, same_seq_iff, listed_seq_iff, eq_comm (b := kind),
        forall₂_iff_of_map_eq hitems.symm fun x hx y hy hxy ↦ (hiff x hx y hy hxy).1]
      refine ⟨Iff.rfl, and_congr_right fun _ ↦ ?_⟩
      rw [← forall₂_iff_of_map_eq (r := flip Same) hitems.symm
        fun x hx y hy hxy ↦ (hiff x hx y hy hxy).2]
      exact ⟨List.Forall₂.flip, List.Forall₂.flip⟩
  | set items =>
    rw [eq_set_of_content h.symm]
    exact ⟨iff_of_true (itemEqual_self _) (.set items),
      iff_of_true (itemEqual_self _) (.set items)⟩
  | @node id fields _ ih =>
    rw [content_node] at h
    cases hu with
    | @node id' frozen fields' hkeys hall =>
      rw [content_node] at h
      have hiff := fun x hx y hy ↦ ih x hx (hall y hy)
      have hfields := Blueprint.node.inj h
      have hkeys' : fields.keys.Nodup := by
        rwa [← Entries.keys_mapValues content, hfields, Entries.keys_mapValues]
      rw [same_node_iff, same_node_iff, listed_node_iff, Entries.paired_flip_iff hkeys' hkeys,
        Entries.paired_iff_of_mapValues_eq hkeys hfields fun x hx y hy hxy ↦ (hiff x hx y hy hxy).1,
        Entries.paired_iff_of_mapValues_eq hkeys hfields fun x hx y hy hxy ↦ (hiff x hx y hy hxy).2]
      exact ⟨Iff.rfl, Iff.rfl⟩
    | mapping _ =>
      -- a node never equals a mapping, and no mapping is stored
      exact ⟨iff_of_false nofun nofun, iff_of_false nofun nofun⟩
    | seq _ _ => rw [content_seq] at h; cases h
    | _ => cases h
  | deferred id =>
    rw [eq_deferred_of_content h.symm]
    exact ⟨iff_of_true (itemEqual_self _) (.deferred id),
      iff_of_true (itemEqual_self _) (.deferred id)⟩

end Tree

/-! ## Sequences in frozen nodes -/

/-- The tree of a stored value holds no tuple if the value is none and the trees of its nodes hold
none. -/
theorem Value.Uniform.listed_graft_iff {sub : NodeId → Tree} {kind : SeqKind} {v : Value}
    (hv : v.Uniform kind) : (v.graft sub).Listed ↔
      (kind = .tuple → ∀ k items, v ≠ .seq k items) ∧ ∀ a ∈ v.nodes, (sub a).Listed := by
  induction hv with
  | scalar s =>
    exact iff_of_true (.scalar s) ⟨fun _ _ _ ↦ nofun, fun _ ha ↦ absurd ha List.not_mem_nil⟩
  | @seq items _ ih =>
    rw [graft_seq, Tree.listed_seq_iff, nodes_seq]
    constructor
    · rintro ⟨rfl, hitems⟩
      refine ⟨nofun, fun a ha ↦ ?_⟩
      obtain ⟨w, hw, haw⟩ := List.mem_flatMap.mp ha
      exact ((ih w hw).mp (hitems _ (List.mem_map.mpr ⟨w, hw, rfl⟩))).2 a haw
    · rintro ⟨hkind, hnodes⟩
      have hlist : kind = .list := by
        cases kind with
        | list => rfl
        | tuple => exact absurd rfl (hkind rfl _ _)
      refine ⟨hlist, fun t ht ↦ ?_⟩
      obtain ⟨w, hw, rfl⟩ := List.mem_map.mp ht
      refine (ih w hw).mpr ⟨fun h ↦ ?_, fun a ha ↦ hnodes a (List.mem_flatMap.mpr ⟨w, hw, ha⟩)⟩
      rw [hlist] at h
      cases h
  | set items =>
    exact iff_of_true (.set items) ⟨fun _ _ _ ↦ nofun, fun _ ha ↦ absurd ha List.not_mem_nil⟩
  | node id =>
    refine ⟨fun h ↦ ⟨fun _ _ _ ↦ nofun, fun a ha ↦ ?_⟩, fun h ↦ h.2 id List.mem_cons_self⟩
    rwa [List.mem_singleton.mp ha]
  | deferred id =>
    exact iff_of_true (.deferred id) ⟨fun _ _ _ ↦ nofun, fun _ ha ↦ absurd ha List.not_mem_nil⟩

namespace Forest

variable {f g : Forest} {n c : NodeId}

/-- A sequence stands under a key of the node. -/
def HoldsSequence (f : Forest) (n : NodeId) : Prop :=
  ∃ e ∈ f.entries n, ∃ kind items, e.2 = .seq kind items

/-- **A tree holds no tuple** if no frozen node in it holds a sequence. -/
theorem Sound.listed_view_iff (hf : f.Sound) (n : NodeId) : (f.view (.node n)).Listed ↔
    ∀ c, f.Reaches n c → f.frozen c = true → ¬f.HoldsSequence c := by
  induction n using hf.node_induction with
  | h n ih =>
    have hentry : ∀ e ∈ f.entries n, ((f.view e.2).Listed ↔
        (f.frozen n = true → ∀ k items, e.2 ≠ .seq k items) ∧
          ∀ a ∈ e.2.nodes, (f.view (.node a)).Listed) := by
      intro e he
      refine (hf.uniform n e he).listed_graft_iff.trans (and_congr_left' ?_)
      cases f.frozen n <;> simp
    rw [hf.view_node, Tree.listed_node_iff]
    constructor
    · intro h c hc hz
      rcases Relation.ReflTransGen.cases_head hc with rfl | ⟨a, ha, hac⟩
      · rintro ⟨e, he, k, items, heq⟩
        have hlisted := h (e.1, f.view e.2) (List.mem_map.mpr ⟨e, he, rfl⟩)
        exact ((hentry e he).mp hlisted).1 hz k items heq
      · obtain ⟨e, he, hae⟩ := List.mem_flatMap.mp ha
        have hlisted := h (e.1, f.view e.2) (List.mem_map.mpr ⟨e, he, rfl⟩)
        exact (ih a ha).mp (((hentry e he).mp hlisted).2 a hae) c hac hz
    · intro h e' he'
      obtain ⟨e, he, rfl⟩ := List.mem_map.mp he'
      refine (hentry e he).mpr ⟨fun hz k items heq ↦ ?_, fun a ha ↦ ?_⟩
      · exact h n (.refl f n) hz ⟨e, he, k, items, heq⟩
      · have hchild : a ∈ f.children n := List.mem_flatMap.mpr ⟨e, he, ha⟩
        exact (ih a hchild).mpr fun c hc ↦ h c (.head hchild hc)

theorem Sound.reaches_freeze_iff (hf : f.Sound) (m : NodeId) :
    (f.freeze n).Reaches m c ↔ f.Reaches m c := by
  simp only [Reaches, hf.children_freeze]

/-- A node that was there goes on to reach what it reached. -/
theorem Extends.reaches_iff (hfg : Extends f g) (hf : f.Sound) (hg : g.Sound) (hn : n ∈ f) :
    g.Reaches n c ↔ f.Reaches n c := by
  have hview : g.view (.node n) = f.view (.node n) :=
    hfg.view_eq hf hg fun a ha ↦ List.mem_singleton.mp ha ▸ hn
  rw [← hg.mem_nodes_view_node, hview, hf.mem_nodes_view_node]

/-- Freezing keeps the sequences of a node, as tuples. -/
theorem Sound.holdsSequence_freeze_iff (hf : f.Sound) (h : f.Reaches n c) :
    (f.freeze n).HoldsSequence c ↔ f.HoldsSequence c := by
  have hentries : (f.freeze n).entries c = (f.entries c).mapValues Value.fixed := by
    rw [entries, hf.cell_freeze_of_reaches h, Cell.sealed, entries]
  have hfixed : ∀ v : Value, (∃ kind items, v.fixed = .seq kind items) ↔
      ∃ kind items, v = .seq kind items := by
    intro v
    cases v with
    | seq kind items =>
      rw [Value.fixed_seq]
      exact iff_of_true ⟨_, _, rfl⟩ ⟨_, _, rfl⟩
    | _ => rfl
  simp only [HoldsSequence, hentries, Entries.mapValues, List.mem_map, exists_exists_and_eq_and,
    hfixed]

end Forest

namespace Memory

variable {m m' : Memory} {n k : NodeId}

/-- A node equals an open one with the same contents if no frozen node in it holds a sequence. -/
theorem equals_iff_of_content (hm : m.forest.Sound) (hk : (m.view (.node k)).Writable)
    (h : (m.view (.node k)).content = (m.view (.node n)).content) :
    (m.Equals (.node k) (.node n) ↔
      ∀ c, m.forest.Reaches n c → m.forest.frozen c = true → ¬m.forest.HoldsSequence c) ∧
    (m.Equals (.node n) (.node k) ↔
      ∀ c, m.forest.Reaches n c → m.forest.frozen c = true → ¬m.forest.HoldsSequence c) := by
  rw [equals_node_iff hm, equals_node_iff hm, ← hm.listed_view_iff]
  exact hk.same_iff_listed (hm.distinct_view (.node n)) h

/-- The contents of two nodes are equal after both were frozen if they were equal before. -/
theorem equals_freeze_of_content (hm : m.forest.Sound)
    (h : (m.view (.node k)).content = (m.view (.node n)).content)
    (hn : m.forest.frozen n = true) :
    Equals { m with forest := m.forest.freeze k } (.node k) (.node n) := by
  refine (equals_node_iff (hm.freeze k)).mpr (@Tree.Standing.same_of_content _ _ true
    ((hm.freeze k).standing_of_frozen (hm.frozen_freeze_of_reaches (.refl m.forest k)))
    ((hm.freeze k).standing_of_frozen (hm.frozen_freeze_of_frozen k hn)) ?_)
  have hcontent : ((m.forest.freeze k).view (.node k)).content
      = ((m.forest.freeze k).view (.node n)).content := by
    rw [hm.content_freeze, hm.content_freeze]
    exact h
  rw [view, hcontent]
  exact Tree.itemEqual_self _

/-- **When a copy equals its original.** A copy has the contents of its original. It equals the
original if no frozen node in the original holds a sequence, and it equals what freezing makes of
the original if no node in the original holds one. Once both are frozen they are equal. -/
theorem Reachable.copy_equals_iff (hm : m.Reachable) (hn : n ∈ m.forest)
    (call : DeferredId → Eval Value) :
    ∃ k m₁ m₂ m₃, (Operation.copy n).performWith call m = .ok (.node k) m₁ ∧
      (Operation.freeze n).performWith call m₁ = .ok (.node n) m₂ ∧
      (Operation.freeze k).performWith call m₂ = .ok (.node k) m₃ ∧
      (m₁.view (.node k)).content = (m₁.view (.node n)).content ∧
      (m₁.Equals (.node k) (.node n) ↔
        ∀ c, m.forest.Reaches n c → m.forest.frozen c = true → ¬m.forest.HoldsSequence c) ∧
      (m₂.Equals (.node n) (.node k) ↔
        ∀ c, m.forest.Reaches n c → ¬m.forest.HoldsSequence c) ∧
      m₃.Equals (.node k) (.node n) := by
  have hf := hm.sound
  obtain ⟨k, m₁, hcopy, hdraft⟩ := draft_of_copy hf n call
  have hf₁ := hdraft.sound
  let m₂ : Memory := { m₁ with forest := m₁.forest.freeze n }
  have hf₂ : m₂.forest.Sound := hf₁.freeze n
  -- the original is what it was, and reaches nothing of the copy
  have hreach : ∀ c, m₁.forest.Reaches n c ↔ m.forest.Reaches n c := fun c ↦
    hdraft.beyond.grown.reaches_iff hf hf₁ hn
  have hcell : ∀ {c}, m.forest.Reaches n c → m₁.forest.cell c = m.forest.cell c := fun hc ↦
    hdraft.beyond.grown.cell_eq (hf.mem_of_reaches hn hc)
  have hwritable : (m₁.view (.node k)).Writable :=
    (standing_of_open hf₁ hdraft.writable).writable
  have hcontent : (m₁.view (.node k)).content = (m₁.view (.node n)).content := by
    rw [hdraft.content_view, hdraft.beyond.view_eq hf (known_node hn), content_eq_fields hf]
  -- the copy is not frozen with the original, whose contents stay the same
  have hkview : m₂.view (.node k) = m₁.view (.node k) := by
    refine (hf₁.written_freeze n).view_eq hf₁ (known_node hdraft.mem) fun a ha c hc hnc ↦ ?_
    rw [List.mem_singleton.mp ha] at hc
    exact hdraft.not_reaches (hf.mem_of_reaches hn ((hreach c).mp hnc)) hc
  have hcontent₂ : (m₂.view (.node k)).content = (m₂.view (.node n)).content := by
    rw [hkview, hcontent]
    exact (hf₁.content_freeze n n).symm
  refine ⟨k, m₁, m₂, _, hcopy, rfl, rfl, hcontent, ?_, ?_, equals_freeze_of_content hf₂ hcontent₂
    (hf₁.frozen_freeze_of_reaches (.refl m₁.forest n))⟩
  · refine (equals_iff_of_content hf₁ hwritable hcontent).1.trans (forall_congr' fun c ↦ ?_)
    rw [hreach]
    refine forall_congr' fun hc ↦ ?_
    rw [Forest.frozen, Forest.HoldsSequence, Forest.entries, hcell hc]
    rfl
  · refine (equals_iff_of_content hf₂ (hkview ▸ hwritable) hcontent₂).2.trans
      (forall_congr' fun c ↦ ?_)
    rw [hf₁.reaches_freeze_iff, hreach]
    refine forall_congr' fun hc ↦ ?_
    have hc₁ := (hreach c).mpr hc
    rw [hf₁.frozen_freeze_of_reaches hc₁, hf₁.holdsSequence_freeze_iff hc₁, Forest.HoldsSequence,
      Forest.entries, hcell hc]
    exact forall_prop_of_true rfl

/-- A node with a list in it. -/
def listing : Memory :=
  after ((Operation.create (.mapping [(.text "a", .list [.int 1])])).performWith
    (evaluateWithin 0)) default

theorem reachable_listing : listing.Reachable := .single (.operation default _ 0)

/-- A list in a node that is not frozen is copied to an equal one. -/
theorem copy_equals_sample : ∃ k m₁, listing.Reachable ∧ ⟨0⟩ ∈ listing.forest ∧
    (Operation.copy ⟨0⟩).performWith evaluate listing = .ok (.node k) m₁ ∧
    m₁.Equals (.node k) (.node ⟨0⟩) := by
  have hmem : ⟨0⟩ ∈ listing.forest := by decide +kernel
  have hopen : listing.forest.Open ⟨0⟩ := reachable_listing.sound.open_of_nodes (by decide +kernel)
  obtain ⟨k, m₁, _, _, hcopy, _, _, _, hiff, _⟩ := reachable_listing.copy_equals_iff hmem evaluate
  refine ⟨k, m₁, reachable_listing, hmem, hcopy, hiff.mpr fun c hc hz ↦ ?_⟩
  rw [hopen c hc] at hz
  cases hz

/-- **A copy may differ from its original.** The list of a frozen node comes back as a list in its
copy, and the list of a copy stays one when the original is frozen. -/
theorem copy_differs_from_frozen : listing.Reachable ∧
    (∃ m₁ k m₂, (Operation.freeze ⟨0⟩).performWith evaluate listing = .ok (.node ⟨0⟩) m₁ ∧
      (Operation.copy ⟨0⟩).performWith evaluate m₁ = .ok (.node k) m₂ ∧
      ¬m₂.Equals (.node k) (.node ⟨0⟩)) ∧
    ∃ k m₁ m₂, (Operation.copy ⟨0⟩).performWith evaluate listing = .ok (.node k) m₁ ∧
      (Operation.freeze ⟨0⟩).performWith evaluate m₁ = .ok (.node ⟨0⟩) m₂ ∧
      ¬m₂.Equals (.node ⟨0⟩) (.node k) :=
  ⟨reachable_listing, ⟨_, ⟨1⟩, _, rfl, rfl, by unfold Equals; decide +kernel⟩,
    ⟨1⟩, _, _, rfl, rfl, by unfold Equals; decide +kernel⟩

end Memory

end LayeredConfig
