import LayeredConfig.Proofs.Forest.Merging
import LayeredConfig.Proofs.Node.Run

/-!
# Merging loses no setting and invents none

The outcome of a merge, by paths: what the receiver holds at the end of a path afterwards depends
only on what it held there before and on what came in along that path.
-/

namespace LayeredConfig

variable {m : Memory} {n : NodeId} {v : Value}

/-- **Merging, path by path.** Merging a node, or a mapping whose keys are texts, into a node that
reaches nothing frozen and none of the incoming nodes succeeds. Every path then leads to what
`Tree.PathMerged` says; and wherever both sides held a node, its keys are those of the receiver in
their order, followed by the new ones in the order in which they came. -/
theorem Memory.Reachable.merge_by_paths (hm : m.Reachable)
    (hopen : ∀ c, m.forest.Reaches n c → m.forest.frozen c = false)
    (hv : (∃ other, v = .node other) ∨ (∃ entries, v = .mapping entries) ∧ (m.view v).WellKeyed)
    (hapart : ∀ c ∈ (m.view v).nodes, ¬m.forest.Reaches n c) (call : DeferredId → Eval Value) :
    ∃ m', (Operation.merge n v).performWith call m = .ok (.node n) m' ∧
      (∀ p, Tree.PathMerged m.forest.CopyOf (m.view (.node n)) (m.view v) (m'.view (.node n)) p) ∧
      ∀ p a b as bs, (m.view (.node n)).at? p = some a → (m.view v).at? p = some b →
        a.branches? = some as → b.branches? = some bs →
        ∃ c cs, (m'.view (.node n)).at? p = some c ∧ c.branches? = some cs ∧
          cs.keys = as.keys ++ bs.keys.filter (· ∉ as.keys) := by
  have hf := hm.sound
  have hkeyed : (m.view v).WellKeyed := by
    rcases hv with ⟨other, rfl⟩ | ⟨_, hkeyed⟩
    · have huniform : (Value.node other).Uniform .list := .node other
      exact hf.wellKeyed_view huniform
    · exact hkeyed
  have hbranches : ∃ xs, (m.view v).branches? = some xs := by
    rcases hv with ⟨other, rfl⟩ | ⟨⟨entries, rfl⟩, _⟩
    · exact ⟨_, congrArg Tree.branches? (hf.view_eq_fields other)⟩
    · exact ⟨_, congrArg Tree.branches? (Forest.view_mapping entries)⟩
  obtain ⟨xs, hxs⟩ := hbranches
  obtain ⟨g, hok, hfg, hmerged⟩ := hf.mergeValue_merged hopen hxs hkeyed hapart
  have hold : m.view (.node n) = .node n (m.forest.frozen n) (m.forest.fields n) :=
    hf.view_eq_fields n
  have hnew : Memory.view { m with forest := g } (.node n)
      = .node n (m.forest.frozen n) (g.fields n) := by
    rw [← hfg.frozen_eq (Forest.mem_of_frozen_eq_false (hopen n (.refl m.forest n)))]
    exact hfg.sound.view_eq_fields n
  have hdistinct : (m.view v).Distinct := hf.distinct_view v
  refine ⟨{ m with forest := g }, ?_, fun p ↦ ?_, fun p a b as bs ha hb has hbs ↦ ?_⟩
  · exact bind_of_ok (onForest_of_ok hok)
  · rw [hold, hnew]
    exact hmerged.at? Forest.CopyOf.content Forest.CopyOf.parts n _ p hxs hdistinct
  · rw [hold] at ha
    rw [hnew]
    exact hmerged.keys_at? n _ p hxs hdistinct ha hb has hbs

/-- Nothing does not replace a node. -/
theorem null_keeps_node : ∃ m m' : Memory, m.Reachable ∧
    (Operation.merge ⟨0⟩ (.mapping [(.text "a", .null)])).performWith evaluate m
      = .ok (.node ⟨0⟩) m' ∧
    (m'.view (.node ⟨0⟩)).at? ["a"] = some (.node ⟨1⟩ false [("b", .scalar (.int 1))]) := by
  let make := Operation.create (.mapping [(.text "a", .mapping [(.text "b", .int 1)])])
  let m := after (make.performWith (evaluateWithin 0)) default
  have hm : m.Reachable := .single (.operation default make 0)
  have hopen : ∀ c, m.forest.Reaches ⟨0⟩ c → m.forest.frozen c = false := by
    have hall : ∀ c ∈ (m.forest.view (.node ⟨0⟩)).nodes, m.forest.frozen c = false := by
      decide +kernel
    exact fun c hc ↦ hall c ((hm.sound.mem_nodes_view_node ⟨0⟩).mpr hc)
  have hkeyed : (m.view (.mapping [(.text "a", .null)])).WellKeyed :=
    Tree.wellKeyed_of_blueprint (b := .node [("a", .scalar .null)]) rfl
  obtain ⟨m', hok, hpaths, _⟩ := hm.merge_by_paths (n := ⟨0⟩) hopen (.inr ⟨⟨_, rfl⟩, hkeyed⟩)
    (fun c hc ↦ absurd hc List.not_mem_nil) evaluate
  exact ⟨m, m', hm, hok, (hpaths ["a"]).kept rfl _ rfl (Option.some_ne_none _)⟩

end LayeredConfig
