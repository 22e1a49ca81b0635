import LayeredConfig.Proofs.Forest.Freezing
import LayeredConfig.Proofs.Forest.Merging
import LayeredConfig.Proofs.Node.Run
import LayeredConfig.Proofs.Tree.Blueprint

/-!
# Reading without side effects

While a configuration is checked, nodes are made and computations are counted, but no node that is
there changes. `Memory.Beyond m m'` says so, and what is read in `m` is then read in `m'` as well.
A value without computations is described by its content alone (`Memory.Stored`), and a node by the
contents that its keys lead to (`Memory.Presents`), whether they are stored or computed.
-/

namespace LayeredConfig

namespace Memory

variable {m m' m'' : Memory} {v : Value} {b : Blueprint} {n : NodeId} {key : String}

/-- The values that exist in a memory. -/
def Known (m : Memory) (v : Value) : Prop := ∀ a ∈ v.nodes, a ∈ m.forest

theorem known_scalar (m : Memory) (a : Scalar) : m.Known (.scalar a) :=
  fun _ h ↦ absurd h List.not_mem_nil

theorem known_node (hn : n ∈ m.forest) : m.Known (.node n) := fun _ ha ↦
  List.mem_singleton.mp ha ▸ hn

/-- No node of the first memory has changed in the second, and no computation does anything else
there. -/
structure Beyond (m m' : Memory) : Prop where
  sound : m'.forest.Sound
  grown : Forest.Extends m.forest m'.forest
  size_le : m.computations.size ≤ m'.computations.size
  body_eq : ∀ d : DeferredId, d.index < m.computations.size →
    (m'.computation d).body = (m.computation d).body

theorem Beyond.refl (hm : m.forest.Sound) : Beyond m m :=
  ⟨hm, .refl m.forest, Nat.le_refl _, fun _ _ ↦ rfl⟩

theorem Beyond.trans (h : Beyond m m') (h' : Beyond m' m'') : Beyond m m'' :=
  ⟨h'.sound, h.grown.trans h'.grown, Nat.le_trans h.size_le h'.size_le, fun d hd ↦
    (h'.body_eq d (Nat.lt_of_lt_of_le hd h.size_le)).trans (h.body_eq d hd)⟩

theorem Beyond.view_eq (h : Beyond m m') (hm : m.forest.Sound) (hv : ∀ a ∈ v.nodes, a ∈ m.forest) :
    m'.view v = m.view v := h.grown.view_eq hm h.sound hv

theorem Beyond.of_extends {g : Forest} (hg : g.Sound) (h : Forest.Extends m.forest g) :
    Beyond m { m with forest := g } := ⟨hg, h, Nat.le_refl _, fun _ _ ↦ rfl⟩

/-- A new computation runs what it is made of. -/
theorem computation_define (m : Memory) (c : Computation) :
    (m.define c).2.computation (m.define c).1 = c := by
  rw [computation, define, Array.getElem?_push_size, Option.getD_some]

theorem Beyond.define (hm : m.forest.Sound) (c : Computation) : Beyond m (m.define c).2 := by
  refine ⟨hm, .refl m.forest, ?_, fun d hd ↦ ?_⟩
  · rw [Memory.define, Array.size_push]
    exact Nat.le_succ _
  · rw [computation, computation, Memory.define, Array.getElem?_push, if_neg (Nat.ne_of_lt hd)]

theorem truthy_view (hm : m.forest.Sound) (v : Value) : (m.view v).truthy = m.forest.truthy v := by
  -- both sides ask only whether there is a first item or entry
  cases v with
  | seq kind items =>
    rw [view, Forest.view_seq]
    cases items <;> rfl
  | mapping entries =>
    rw [view, Forest.view_mapping]
    cases entries <;> rfl
  | node c =>
    rw [view, hm.view_node, Tree.truthy, Forest.truthy]
    cases m.forest.entries c <;> rfl
  | _ => rfl

/-- The contents of the fields of a node. -/
theorem content_node_eq (hm : m.forest.Sound) (n : NodeId) :
    (m.view (.node n)).content = .node ((m.forest.fields n).mapValues Tree.content) := by
  rw [view, hm.view_eq_fields, Tree.content_node]

/-- What is found under a key of a node, by the content of the node. -/
theorem find?_of_content (hm : m.forest.Sound) {fields : Entries Blueprint}
    (hcontent : (m.view (.node n)).content = .node fields) (key : String) :
    (m.forest.find? n key).map (fun v ↦ (m.view v).content) = fields.find? key := by
  rw [view, hm.view_eq_fields, Tree.content_node] at hcontent
  rw [← Blueprint.node.inj hcontent, Entries.find?_mapValues, Forest.find?_fields, Option.map_map]
  rfl

/-- The memories differ only in how often computations ran. -/
structure Reruns (m m' : Memory) : Prop where
  forest_eq : m'.forest = m.forest
  size_eq : m'.computations.size = m.computations.size
  body_eq : ∀ d, (m'.computation d).body = (m.computation d).body

instance : IsPreorder Memory Reruns where
  refl _ := ⟨rfl, rfl, fun _ ↦ rfl⟩
  trans _ _ _ h h' := ⟨h'.forest_eq.trans h.forest_eq, h'.size_eq.trans h.size_eq,
    fun d ↦ (h'.body_eq d).trans (h.body_eq d)⟩

theorem reruns_countRun (m : Memory) (d : DeferredId) : Reruns m (m.countRun d) := by
  refine ⟨rfl, Array.size_modify, fun e ↦ ?_⟩
  rw [computation, computation, Memory.countRun, Array.getElem?_modify]
  split
  · cases m.computations[e.index]? <;> rfl
  · rfl

theorem Reruns.view_eq (h : Reruns m m') (v : Value) : m'.view v = m.view v := by
  rw [view, view, h.forest_eq]

theorem Reruns.beyond (h : Reruns m m') (hm : m.forest.Sound) : Beyond m m' :=
  ⟨h.forest_eq.symm ▸ hm, h.forest_eq.symm ▸ .refl m.forest, Nat.le_of_eq h.size_eq.symm,
    fun d _ ↦ h.body_eq d⟩

/-! ## Values without computations -/

/-- What holds no computation stands for itself. -/
theorem resolve_of_settled (h : (m.view v).content.Settled) (call : DeferredId → Eval Value) :
    Node.resolve call v = pure v := by
  cases v with
  | deferred d => cases h
  | _ => rfl

/-- What holds no computation is none. -/
theorem find?_ne_deferred (h : (m.view ((m.forest.find? n key).getD .null)).content.Settled)
    (d : DeferredId) : m.forest.find? n key ≠ some (.deferred d) := by
  intro hd
  rw [hd] at h
  cases h

theorem eq_deferred_of_content (hm : m.forest.Sound) {d : DeferredId}
    (h : (m.view v).content = .deferred d) : v = .deferred d :=
  hm.eq_deferred_of_view (Tree.eq_deferred_of_content h)

/-- The value is stored in an open tree, holds no computation, and has the given content. -/
structure Stored (m : Memory) (v : Value) (b : Blueprint) : Prop where
  mem : ∀ a ∈ v.nodes, a ∈ m.forest
  writable : (m.view v).Writable
  content : (m.view v).content = b
  settled : b.Settled

theorem stored_scalar (m : Memory) (s : Scalar) : Stored m (.scalar s) (.scalar s) :=
  ⟨known_scalar m s, .scalar s, rfl, .scalar s⟩

/-- An empty node is made, and no other. -/
theorem create_null (hm : m.forest.Sound) :
    ∃ c m', Node.create .null m = .ok c m' ∧ Beyond m m' ∧ c ∉ m.forest ∧
      Stored m' (.node c) (.node []) := by
  obtain ⟨c, g, heq, hmade⟩ := hm.create_null
  have hcopy := hmade.copyOf
  refine ⟨c, { m with forest := g }, onForest_of_ok heq,
    .of_extends hmade.placed.sound hmade.placed.grown, hmade.placed.new c List.mem_cons_self,
    hmade.placed.mem, hcopy.writable, hcopy.content, ?_⟩
  exact .node fun e he ↦ absurd he List.not_mem_nil

namespace Stored

theorem beyond (h : Stored m v b) (hm : m.forest.Sound) (hmm : Beyond m m') : Stored m' v b := by
  have hview := hmm.view_eq hm h.mem
  exact ⟨fun a ha ↦ hmm.grown.mem (h.mem a ha), hview ▸ h.writable, hview ▸ h.content, h.settled⟩

theorem resolve_eq (h : Stored m v b) (call : DeferredId → Eval Value) :
    Node.resolve call v = pure v := resolve_of_settled (h.content ▸ h.settled) call

theorem truthy_eq (h : Stored m v b) (hm : m.forest.Sound) :
    m.forest.truthy v = b.tree.truthy := by
  rw [← truthy_view hm, ← h.content, Tree.truthy_content]

theorem eq_scalar {s : Scalar} (h : Stored m v (.scalar s)) (hm : m.forest.Sound) :
    v = .scalar s := hm.eq_scalar_of_view (Tree.eq_scalar_of_content h.content)

theorem display_eq (h : Stored m v b) (names : DeferredId → String) :
    m.display v = b.tree.display names := by
  rw [display, ← h.writable.display_content, h.content]
  exact h.settled.display_tree _ _

theorem eq_node {fields : Entries Blueprint} (h : Stored m v (.node fields)) :
    ∃ c, v = .node c := by
  obtain ⟨branches, hb, _⟩ := Tree.branches_of_content h.content
  cases v with
  | node c => exact ⟨c, rfl⟩
  | mapping entries =>
    have hw := h.writable
    rw [view, Forest.view_mapping] at hw
    cases hw
  | seq kind items =>
    rw [view, Forest.view_seq] at hb
    cases hb
  | _ => cases hb

/-- What a stored node holds is stored as well, with the content that the blueprint says. -/
theorem fields {c : NodeId} {fields : Entries Blueprint} (h : Stored m (.node c) (.node fields))
    (hm : m.forest.Sound) (key : String) :
    (fields.find? key = none → m.forest.find? c key = none) ∧
    ∀ b, fields.find? key = some b → ∃ v, m.forest.find? c key = some v ∧ Stored m v b := by
  have hcontent := h.content
  rw [view, hm.view_node, Tree.content_node, Entries.mapValues_mapValues] at hcontent
  obtain rfl := Blueprint.node.inj hcontent
  rw [Entries.find?_mapValues, ← Forest.find?]
  refine ⟨fun hnone ↦ Option.map_eq_none_iff.mp hnone, fun b hb ↦ ?_⟩
  obtain ⟨v, hv, hvb⟩ := Option.map_eq_some_iff.mp hb
  have he : (key, v) ∈ m.forest.entries c := Entries.mem_of_find? hv
  refine ⟨v, hv, fun a ha ↦ (hm.younger (Forest.mem_children_of_find? hv ha)).2, ?_, hvb, ?_⟩
  · have hw := h.writable
    rw [view, hm.view_node] at hw
    obtain ⟨id, heq, hall⟩ := hw.eq_node rfl
    exact hall (key, m.forest.view v) (List.mem_map.mpr ⟨(key, v), he, rfl⟩)
  · rw [← hvb]
    exact h.settled.fields (key, _) (List.mem_map.mpr ⟨(key, v), he, rfl⟩)

end Stored

end Memory

/-! ## Reading keys -/

namespace Node

variable {m : Memory} {n : NodeId} {key : String} {call : DeferredId → Eval Value}

theorem getWith_of_some {v : Value} (h : m.forest.find? n key = some v) :
    getWith call n (.text key) m = resolve call v m := by
  rw [getWith, bind_of_ok (show checkKey (.text key) m = .ok key m from rfl), get_bind, h]

theorem getWith_of_none (h : m.forest.find? n key = none) :
    getWith call n (.text key) m
      = .error (.configuration (.notFound (.scalar (.text key)))) m := by
  rw [getWith, bind_of_ok (show checkKey (.text key) m = .ok key m from rfl), get_bind, h]
  rfl

theorem hasKey_text (n : NodeId) (key : String) (m : Memory) :
    hasKey n (.text key) m = .ok (m.forest.find? n key).isSome m := rfl

/-- A key that is no text is not there, or it is refused; the node makes no difference. -/
theorem hasKey_eq_of_not_text {key : Value} (h : ∀ s, key ≠ .text s) (n : NodeId) (m : Memory) :
    hasKey n key m
      = key.unhashable?.elim (.ok false m) fun kind ↦ .error (.unhashable kind) m := by
  unfold hasKey
  split
  · next s => exact absurd rfl (h s)
  · cases key.unhashable? <;> rfl

theorem hasKey_of_not_text {key : Value} (h : ∀ s, key ≠ .text s) (n : NodeId) (m : Memory) :
    hasKey n key m = .ok false m ∨ ∃ e, hasKey n key m = .error e m := by
  rw [hasKey_eq_of_not_text h]
  cases key.unhashable? with
  | some kind => exact .inr ⟨_, rfl⟩
  | none => exact .inl rfl

end Node

namespace Memory

variable {m m' : Memory} {n c : NodeId} {fields : Entries Blueprint} {key : String}

/-- In this memory and beyond, reading the keys of the node gives the contents of the given fields,
and no other key is there. -/
def Presents (m : Memory) (n : NodeId) (fields : Entries Blueprint) : Prop :=
  ∀ m', Beyond m m' → ∀ key,
    (fields.find? key = none → m'.forest.find? n key = none) ∧
    ∀ b, fields.find? key = some b → (m'.forest.find? n key).isSome = true ∧
      ∃ v m'', Node.get n (.text key) m' = .ok v m'' ∧ Beyond m' m'' ∧ Stored m'' v b

namespace Presents

theorem beyond (h : Presents m n fields) (hmm : Beyond m m') : Presents m' n fields :=
  fun m'' h' ↦ h m'' (hmm.trans h')

theorem hasKey (h : Presents m n fields) (hmm : Beyond m m') (key : String) :
    Node.hasKey n (.text key) m' = .ok (fields.find? key).isSome m' := by
  rw [Node.hasKey_text]
  cases hb : fields.find? key with
  | none =>
    rw [(h m' hmm key).1 hb]
    rfl
  | some b =>
    rw [((h m' hmm key).2 b hb).1]
    rfl

/-- The value of a key; nothing if the key is not there. -/
theorem valueOf (h : Presents m n fields) (hmm : Beyond m m') (key : String) :
    ∃ v m'', Node.valueOf n (.text key) m' = .ok v m'' ∧ Beyond m' m'' ∧
      Stored m'' v ((fields.find? key).getD (.scalar .null)) := by
  have hkey := h.hasKey hmm key
  cases hb : fields.find? key with
  | none =>
    rw [hb] at hkey
    refine ⟨.null, m', ?_, .refl hmm.sound, stored_scalar m' .null⟩
    rw [Node.valueOf, bind_of_ok hkey]
    rfl
  | some b =>
    rw [hb] at hkey
    obtain ⟨v, m'', hget, hbeyond, hstored⟩ := ((h m' hmm key).2 b hb).2
    refine ⟨v, m'', ?_, hbeyond, hstored⟩
    rw [Node.valueOf, bind_of_ok hkey]
    exact hget

end Presents

/-- A stored node presents its content. -/
theorem Stored.presents (h : Stored m (.node c) (.node fields)) (hm : m.forest.Sound) :
    Presents m c fields := by
  intro m' hmm key
  have hstored := h.beyond hm hmm
  obtain ⟨hnone, hsome⟩ := hstored.fields hmm.sound key
  refine ⟨hnone, fun b hb ↦ ?_⟩
  obtain ⟨v, hv, hvb⟩ := hsome b hb
  refine ⟨by rw [hv]; rfl, v, m', ?_, .refl hmm.sound, hvb⟩
  rw [Node.get, Node.getWith_of_some hv, hvb.resolve_eq]
  rfl

end Memory

/-! ## Predicates on a key -/

/-- The value of a key, or nothing when it is not defined, given how to run computations. -/
def Node.valueWith (call : DeferredId → Eval Value) (n : NodeId) (key : Value) : Eval Value := do
  if ← hasKey n key then getWith call n key else return .null

/-- What stands for itself is read as it is. -/
theorem Node.valueWith_of_plain {m : Memory} {n : NodeId} {key : String}
    (h : ∀ d, m.forest.find? n key ≠ some (.deferred d)) (call : DeferredId → Eval Value) :
    valueWith call n (.text key) m = .ok ((m.forest.find? n key).getD .null) m := by
  rw [valueWith, bind_of_ok (hasKey_text n key m)]
  cases hv : m.forest.find? n key with
  | none => rfl
  | some v =>
    rw [Option.isSome_some, if_pos rfl, getWith_of_some hv]
    cases v with
    | deferred d => exact absurd hv (h d)
    | _ => rfl

variable {m : Memory} {n : NodeId} {key : String} {value : Value} {d : DeferredId}

/-- **A predicate on a key** reads the key and compares what it finds. The run is counted first. -/
theorem evaluateWithin_holds (hbody : (m.computation d).body = (Computation.holds n key value).body)
    (depth : ℕ) :
    evaluateWithin (depth + 1) d m = (do
      let v ← Node.valueWith (evaluateWithin depth) n (.text key)
      return .bool (← equalValues v value) : Eval Value) (m.countRun d) := by
  have hcount : (modify fun m ↦ m.countRun d : Eval Unit) m = .ok () (m.countRun d) := rfl
  have hhas : (Operation.hasKey n (.text key)).performWith (evaluateWithin depth) (m.countRun d)
      = .ok (.bool ((m.countRun d).forest.find? n key).isSome) (m.countRun d) := rfl
  rw [evaluateWithin, get_bind, bind_of_ok hcount, hbody, Node.valueWith, bind_assoc,
    bind_of_ok (Node.hasKey_text n key _)]
  refine (bind_of_ok hhas).trans ?_
  cases ((m.countRun d).forest.find? n key).isSome <;> rfl

/-- If no computation stands under the key, what stands there is compared. -/
theorem evaluate_holds
    (hbody : (m.computation d).body = (Computation.holds n key value).body)
    (hplain : ∀ e, m.forest.find? n key ≠ some (.deferred e)) :
    evaluate d m
      = .ok (.bool ((m.view ((m.forest.find? n key).getD .null)).equal (m.view value)))
        (m.countRun d) := by
  have hfind : (m.countRun d).forest.find? n key = m.forest.find? n key := rfl
  rw [← hfind] at hplain
  exact (evaluateWithin_holds hbody 255).trans (bind_of_ok (Node.valueWith_of_plain hplain _))

end LayeredConfig
