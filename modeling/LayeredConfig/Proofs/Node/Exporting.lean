import LayeredConfig.Proofs.Node.Reading

/-!
# Writing out a node

Writing out goes down level by level and runs the computations that stand under the keys of the
nodes it meets. Where there are none it reads and does nothing else, so that what comes out is a
function of the content, `Blueprint.plain`. A node whose computations always give the same scalars
is written out as if the scalars were stored.
-/

namespace LayeredConfig

open Memory (Reruns resolve_of_settled)

/-- The content as it is read, given what the computations under the keys answer. -/
def Blueprint.answered (answer : DeferredId → Scalar) : Blueprint → Blueprint
  | .deferred d => .scalar (answer d)
  | b => b

theorem Blueprint.Settled.answered_eq {b : Blueprint} (h : b.Settled)
    (answer : DeferredId → Scalar) : b.answered answer = b := by
  cases h <;> rfl

/-- With answers in the place of the computations that stand under the keys, none is left. -/
theorem Blueprint.settled_answered {stored : Entries Blueprint}
    (h : ∀ e ∈ stored, e.2.Settled ∨ ∃ d, e.2 = .deferred d) (answer : DeferredId → Scalar) :
    ∀ e ∈ stored.mapValues (Blueprint.answered answer), e.2.Settled := by
  intro e he
  obtain ⟨a, ha, rfl⟩ := List.mem_map.mp he
  change (a.2.answered answer).Settled
  rcases h a ha with hsettled | ⟨d, hd⟩
  · rwa [hsettled.answered_eq]
  · rw [hd]
    exact .scalar (answer d)

/-- The computation gives the scalar, in this memory and in every other that differs only in how
often computations ran. -/
def Memory.Answers (m : Memory) (d : DeferredId) (s : Scalar) : Prop :=
  ∀ m', Reruns m m' → ∃ m'', evaluate d m' = .ok (.scalar s) m'' ∧ Reruns m' m''

namespace Node

variable {α : Type} {m : Memory} {n c : NodeId} {v : Value} {call : DeferredId → Eval Value}

/-- Reading entries one after the other, where each reading keeps a relation. -/
theorem foldEntries_of_ok {R : Memory → Memory → Prop} [IsPreorder Memory R]
    (use : String → Value → Eval α) (result : String × Value → α) {entries : Entries Value}
    (h : ∀ e ∈ entries, ∀ m', R m m' →
      ∃ m'', (resolve call e.2 >>= use e.1) m' = .ok (result e) m'' ∧ R m' m'') :
    ∃ m', foldEntries call use entries m = .ok (entries.map result) m' ∧ R m m' := by
  induction entries generalizing m with
  | nil => exact ⟨m, rfl, Std.Refl.refl m⟩
  | cons e rest ih =>
    obtain ⟨key, stored⟩ := e
    obtain ⟨m₁, hfirst, hm₁⟩ := h (key, stored) List.mem_cons_self m (Std.Refl.refl m)
    obtain ⟨m₂, hrest, hm₂⟩ := @ih m₁ fun e he m' hm' ↦
      h e (List.mem_cons_of_mem _ he) m' (IsTrans.trans _ _ _ hm₁ hm')
    refine ⟨m₂, ?_, IsTrans.trans _ _ _ hm₁ hm₂⟩
    rw [foldEntries, ← bind_assoc, bind_of_ok hfirst, bind_of_ok hrest]
    rfl

/-- Writing out a stored value without computations, when its nodes can be written out. -/
theorem exportValue_of_settled {sub : NodeId → Eval Value} {kind : SeqKind}
    (hv : v.Uniform kind) (hsettled : (m.view v).content.Settled)
    (hsub : ∀ c ∈ v.nodes, (m.view (.node c)).content.Settled →
      sub c m = .ok (m.view (.node c)).content.plain m) :
    exportValue sub v m = .ok (m.view v).content.plain m := by
  induction hv with
  | scalar s => rfl
  | @seq items _ ih =>
    rw [Memory.view, Forest.view_seq, Tree.content_seq] at hsettled ⊢
    rw [exportValue_seq, Blueprint.plain_list, List.map_map, List.map_map]
    refine bind_of_ok (mapM_of_ok fun w hw ↦ ih w hw ?_ fun c hc ↦ hsub c ?_)
    · exact hsettled.items _ (List.mem_map.mpr ⟨_, List.mem_map.mpr ⟨w, hw, rfl⟩, rfl⟩)
    · rw [Value.nodes_seq]
      exact List.mem_flatMap.mpr ⟨w, hw, hc⟩
  | set items => rfl
  | node id => exact hsub id List.mem_cons_self hsettled
  | deferred id => cases hsettled

/-- Writing out the given levels of a node without computations, if they are enough. -/
theorem exportLevels_of_settled (hm : m.forest.Sound) (hc : c ∈ m.forest) {levels : ℕ}
    (hlevels : m.forest.cells.size ≤ levels + c.index)
    (hsettled : (m.view (.node c)).content.Settled) :
    exportLevels call levels c m = .ok (m.view (.node c)).content.plain m := by
  -- the levels that are left cover the nodes that are younger than `c`
  induction c using hm.node_induction generalizing levels with
  | h c ih =>
    cases levels with
    | zero => exact absurd (Forest.mem_iff.mp hc) (by omega)
    | succ levels =>
      have hcontent : (m.view (.node c)).content
          = .node ((m.forest.entries c).mapValues fun v ↦ (m.view v).content) := by
        rw [Memory.view, hm.view_node, Tree.content_node, Entries.mapValues_mapValues]
        rfl
      rw [hcontent] at hsettled ⊢
      let use : String → Value → Eval (Value × Value) := fun key v ↦
        return (.text key, ← exportValue (exportLevels call levels) v)
      have hstep : ∀ e ∈ m.forest.entries c, ∀ m', m = m' → ∃ m'',
          (resolve call e.2 >>= use e.1) m' = .ok (.text e.1, (m.view e.2).content.plain) m'' ∧
            m' = m'' := by
        rintro e he _ rfl
        have hentry : (m.view e.2).content.Settled :=
          hsettled.fields (e.1, _) (List.mem_map.mpr ⟨e, he, rfl⟩)
        refine ⟨m, ?_, rfl⟩
        rw [resolve_of_settled hentry]
        refine bind_of_ok (exportValue_of_settled (hm.uniform c e he) hentry fun a ha hnode ↦ ?_)
        have hchild : a ∈ m.forest.children c := List.mem_flatMap.mpr ⟨e, he, ha⟩
        have := (hm.younger hchild).1
        exact ih a hchild (hm.younger hchild).2 (by omega) hnode
      obtain ⟨m', hfold, rfl⟩ := foldEntries_of_ok use _ hstep
      rw [exportLevels, get_bind, bind_of_ok hfold, Blueprint.plain_node, Entries.mapValues,
        List.map_map]
      rfl

/-- Writing out a node without computations changes nothing. -/
theorem exportWith_of_settled (hm : m.forest.Sound) (hn : n ∈ m.forest)
    (hsettled : (m.view (.node n)).content.Settled) (call : DeferredId → Eval Value) :
    exportWith call n m = .ok (m.view (.node n)).content.plain m := by
  rw [exportWith, get_bind]
  exact exportLevels_of_settled hm hn (by omega) hsettled

theorem toMapping_of_settled (hm : m.forest.Sound) (hn : n ∈ m.forest)
    (hsettled : (m.view (.node n)).content.Settled) :
    toMapping n m = .ok (m.view (.node n)).content.plain m :=
  exportWith_of_settled hm hn hsettled evaluate

/-- **Writing out a node** gives its content, with the answers of the computations under its keys
in their place. -/
theorem toMapping_of_content (hm : m.forest.Sound) {fields : Entries Blueprint}
    (hcontent : (m.view (.node n)).content = .node fields) {answer : DeferredId → Scalar}
    (hfields : ∀ e ∈ fields, e.2.Settled ∨ ∃ d, e.2 = .deferred d ∧ m.Answers d (answer d)) :
    ∃ m', toMapping n m
      = .ok (Blueprint.node (fields.mapValues (Blueprint.answered answer))).plain m' ∧
      Reruns m m' := by
  rw [Memory.view, hm.view_node, Tree.content_node, Entries.mapValues_mapValues] at hcontent
  obtain rfl := Blueprint.node.inj hcontent
  have hlevels : m.forest.cells.size + nestingLimit = (m.forest.cells.size + 255) + 1 := rfl
  let use : String → Value → Eval (Value × Value) := fun key v ↦
    return (.text key, ← exportValue (exportLevels evaluate (m.forest.cells.size + 255)) v)
  have hstep : ∀ e ∈ m.forest.entries n, ∀ m', Reruns m m' → ∃ m'',
      (resolve evaluate e.2 >>= use e.1) m'
        = .ok (.text e.1, ((m.view e.2).content.answered answer).plain) m'' ∧ Reruns m' m'' := by
    intro e he m' hm'
    have hfield : (m.view e.2).content.Settled ∨
        ∃ d, (m.view e.2).content = .deferred d ∧ m.Answers d (answer d) :=
      hfields (e.1, _) (List.mem_map.mpr ⟨e, he, rfl⟩)
    -- an entry without computations changes nothing; a predicate counts one more run
    rcases hfield with hsettled | ⟨d, hd, hanswers⟩
    · have hview : m'.view = m.view := funext hm'.view_eq
      have hentry : (m'.view e.2).content.Settled := hview ▸ hsettled
      have hm₁ := (hm'.beyond hm).sound
      refine ⟨m', ?_, Std.Refl.refl m'⟩
      rw [resolve_of_settled hentry, hsettled.answered_eq, ← hview]
      refine bind_of_ok (exportValue_of_settled (hm.uniform n e he) hentry fun a ha hnode ↦ ?_)
      have hchild : a ∈ m'.forest.children n := by
        rw [hm'.forest_eq]
        exact List.mem_flatMap.mpr ⟨e, he, ha⟩
      refine exportLevels_of_settled hm₁ (hm₁.younger hchild).2 ?_ hnode
      rw [hm'.forest_eq]
      omega
    · obtain ⟨m'', hok, hm''⟩ := hanswers m' hm'
      refine ⟨m'', ?_, hm''⟩
      rw [Memory.eq_deferred_of_content hm hd]
      exact bind_of_ok hok
  obtain ⟨m', hfold, hm'⟩ := foldEntries_of_ok use _ hstep
  refine ⟨m', ?_, hm'⟩
  rw [toMapping, exportWith, get_bind, hlevels, exportLevels, get_bind, bind_of_ok hfold,
    Blueprint.plain_node, Entries.mapValues_mapValues, Entries.mapValues, List.map_map]
  rfl

end Node

end LayeredConfig
