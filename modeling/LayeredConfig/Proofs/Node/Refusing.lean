import LayeredConfig.Proofs.Forest.Merging
import LayeredConfig.Proofs.Node.Run

/-!
# What a write that fails leaves behind

Setting a value is all or nothing. A merge is so, too, as far as its argument is concerned, which is
converted before anything is written. But it writes key by key, and a node below the receiver may
have been frozen on its own. If the merge comes to such a node with another one for it, it ends
there, and what it has written until then stays. `Memory.Reachable.failed_write` says that nothing
else goes wrong half-way, and what is left when this does.
-/

namespace LayeredConfig

variable {m m' : Memory} {n : NodeId} {key v : Value} {e : Failure} {call : DeferredId → Eval Value}

/-- **Setting is all or nothing.** -/
theorem set_eq_error (hm : m.forest.Sound)
    (h : (Operation.set n key v).performWith call m = .error e m') : m' = m := by
  have hcheck : Keeps Eq (Node.checkKey key) := Node.keeps_checkKey key
  rcases bind_eq_error.mp h with h | ⟨_, _, _, h⟩
  · rcases bind_eq_error.mp h with hkey | ⟨name, m₁, hkey, hassign⟩
    · exact (hcheck.of_error hkey).symm
    · obtain rfl := hcheck.of_ok hkey
      obtain ⟨_, g, herror, -, rfl⟩ := onForest_eq_error hassign
      rw [hm.assign_error herror]
  · cases h

/-- A merge that fails has changed nothing, or it was refused below a receiver that is not frozen. -/
theorem merge_eq_error (hm : m.forest.Sound)
    (h : (Operation.merge n v).performWith call m = .error e m') :
    m' = m ∨ ∃ e' g, Forest.mergeValue n v m.forest = .error e' g ∧ e = .configuration e' ∧
      m' = { m with forest := g } ∧ m.forest.frozen n = false ∧ m.forest.Refused n e' := by
  rcases bind_eq_error.mp h with h | ⟨_, _, _, h⟩
  · obtain ⟨e', g, herror, rfl, rfl⟩ := onForest_eq_error h
    rcases hm.mergeValue_error herror with ⟨rfl, _⟩ | ⟨hn, hrefused⟩
    · exact .inl rfl
    · exact .inr ⟨e', g, herror, rfl, rfl, hn, hrefused⟩
  · cases h

/-- **All or nothing, unless a frozen node stands in the way.** A value that cannot be set changes
nothing. A merge that fails changes nothing either, except when the receiver is not frozen and the
merge comes to a node below it that is. Then the failure says that the configuration is read-only;
frozen nodes and all nodes that the receiver does not reach hold what they held. So does the
argument, unless the receiver reaches a part of it; and what the receiver holds is what
`Tree.Halted` says: the entries in front of the one that was refused are merged, at each level that
the merge went down, and no others. -/
theorem Memory.Reachable.failed_write (hm : m.Reachable) (call : DeferredId → Eval Value) :
    (∀ n key v e m', (Operation.set n key v).performWith call m = .error e m' → m' = m) ∧
    ∀ n v e m', (Operation.merge n v).performWith call m = .error e m' → m' = m ∨
      m.forest.frozen n = false ∧ (∃ c, m.forest.Reaches n c ∧ m.forest.frozen c = true) ∧
      e = .configuration (.readOnlyNode (.scalar .null)) ∧
      (∀ c ∈ m.forest, m.forest.frozen c = true ∨ ¬m.forest.Reaches n c →
        m'.forest.cell c = m.forest.cell c) ∧
      ((∀ c ∈ (m.view v).nodes, c ∈ m.forest ∧ ¬m.forest.Reaches n c) →
        m'.view v = m.view v ∧ ∃ new, m'.view (.node n) = .node n false new ∧
          Tree.Halted m.forest.CopyOf (m.forest.fields n) (m.view v).fields new) := by
  have hf := hm.sound
  refine ⟨fun n key v e m' h ↦ set_eq_error hf h, fun n v e m' h ↦ ?_⟩
  rcases merge_eq_error hf h with hsame | ⟨e', g, herror, rfl, rfl, hn, hrefused⟩
  · exact .inl hsame
  have hedited := hf.edited_mergeValue n v
  rw [after_of_error herror] at hedited
  by_cases hsame : g = m.forest
  · exact .inl (by rw [hsame])
  refine .inr ⟨hn, hrefused.frozen, by rw [hrefused.error], fun c hc hcase ↦ ?_, fun hapart ↦ ?_⟩
  · exact hcase.elim (hedited.frozen hc) (hedited.frame hc)
  · have hreached : ∀ a ∈ v.nodes, ∀ c, m.forest.Reaches a c → c ∈ (m.view v).nodes :=
      fun a ha c hc ↦ Forest.mem_nodes_view.mpr ⟨a, ha, (hf.mem_nodes_view_node a).mpr hc⟩
    refine ⟨hedited.view_eq hf (fun a ha ↦ (hapart a (hreached a ha a (.refl _ a))).1)
      fun a ha c hc ↦ (hapart c (hreached a ha c hc)).2, g.fields n, ?_, ?_⟩
    · rw [← hn, ← hedited.frozen_eq (Forest.mem_of_frozen_eq_false hn)]
      exact hedited.sound.view_eq_fields n
    · rcases hf.mergeValue_ends hn fun c hc ↦ (hapart c hc).2 with ⟨_, _, hunchanged⟩ | hends
      · rw [herror] at hunchanged
        exact absurd (EStateM.Result.error.inj hunchanged).2 hsame
      · rw [herror] at hends
        exact (hends.resolve_left fun hc ↦ hsame hc.2).2

/-! ## A node with a frozen one in it -/

/-- A node with a number and a node in it, the latter frozen. -/
def halfFrozen : Memory :=
  let source := .mapping [(.text "a", .int 1), (.text "b", .mapping [(.text "c", .int 1)])]
  let made := after ((Operation.create source).performWith (evaluateWithin 0)) default
  after ((Operation.freeze ⟨1⟩).performWith (evaluateWithin 0)) made

theorem reachable_halfFrozen : halfFrozen.Reachable := by
  unfold halfFrozen
  exact (Relation.ReflTransGen.single (.operation default _ 0)).tail (.operation _ _ 0)

/-- A mapping that comes in for both. -/
def replacement : Value :=
  .mapping [(.text "a", .int 2), (.text "b", .mapping [(.text "c", .int 2)])]

/-- Setting in the frozen node changes nothing, and merging into the outer one leaves a tree that the
first key alone was merged into. -/
theorem failed_write_halfFrozen :
    (∃ e m', (Operation.set ⟨1⟩ (.text "c") (.int 2)).performWith evaluate halfFrozen = .error e m' ∧
      m' = halfFrozen) ∧
    ∃ e m' new, (Operation.merge ⟨0⟩ replacement).performWith evaluate halfFrozen = .error e m' ∧
      m'.view (.node ⟨0⟩) = .node ⟨0⟩ false new ∧
      Tree.Halted halfFrozen.forest.CopyOf (halfFrozen.forest.fields ⟨0⟩)
        (halfFrozen.view replacement).fields new := by
  obtain ⟨hset, hmerge⟩ := reachable_halfFrozen.failed_write evaluate
  refine ⟨⟨_, _, rfl, hset ⟨1⟩ (.text "c") (.int 2) _ _ rfl⟩, ?_⟩
  rcases hmerge ⟨0⟩ replacement _ _ rfl with hsame | ⟨_, _, _, _, hapart⟩
  · have hfind := congrArg (fun m : Memory ↦ m.forest.find? ⟨0⟩ "a") hsame
    exact absurd (Option.some.inj hfind) (by simp)
  · obtain ⟨_, new, hnew, hhalted⟩ := hapart fun c hc ↦ absurd hc List.not_mem_nil
    exact ⟨_, _, new, rfl, hnew, hhalted⟩

/-- **A merge may fail half-way.** The number has been replaced when the merge comes to the frozen
node. -/
theorem merge_fails_half_way : halfFrozen.Reachable ∧ ∃ e m',
    (Operation.merge ⟨0⟩ replacement).performWith evaluate halfFrozen = .error e m' ∧
    halfFrozen.forest.find? ⟨0⟩ "a" = some (.int 1) ∧
    m'.forest.find? ⟨0⟩ "a" = some (.int 2) := ⟨reachable_halfFrozen, _, _, rfl, rfl, rfl⟩

end LayeredConfig
