import LayeredConfig.Proofs.Forest.Overlap
import LayeredConfig.Proofs.Node.Layering
import LayeredConfig.Proofs.Node.Ownership

/-!
# Merging nodes that share nodes

A node may be merged into itself, into a node that it holds, and into one that holds it. The merge
always ends (`Memory.Reachable.merge_ends`), although the incoming tree may grow under its hands.
But its outcome is not always that of merging a copy: a value that comes in late may have been
written to by the very merge. `Memory.Reachable.merge_as_copy` says that nothing else makes a
difference.
-/

namespace LayeredConfig

namespace Memory

variable {m : Memory} {n other : NodeId}

/-- The tree `{b: 5, a: {a: {c: {q: 1}}, c: {}}}`. -/
def nested : Memory := { (default : Memory) with forest := ⟨#[
  ⟨[("b", .int 5), ("a", .node ⟨1⟩)], false⟩,
  ⟨[("a", .node ⟨2⟩), ("c", .node ⟨4⟩)], false⟩,
  ⟨[("c", .node ⟨3⟩)], false⟩,
  ⟨[("q", .int 1)], false⟩,
  ⟨[], false⟩]⟩ }

theorem reachable_nested : nested.Reachable := by
  let inner := Value.mapping [(.text "c", .mapping [(.text "q", .int 1)])]
  let outer := Value.mapping [(.text "a", inner), (.text "c", .mapping [])]
  let make := Operation.create (.mapping [(.text "b", .int 5), (.text "a", outer)])
  have hmade : after (make.performWith (evaluateWithin 0)) default = nested := rfl
  rw [← hmade]
  exact .single (.operation default make 0)

/-- **Every merge ends**, whatever the two nodes share and whatever is frozen. It is a run without a
bound on its levels, the only one that there is. Its calls go along different paths of the tree that
the receiver had when it began, and so there are finitely many of them, none of which is deeper than
that tree. No node is stored inside itself afterwards. -/
theorem Reachable.merge_ends (hm : m.Reachable) (n other : NodeId)
    (call : DeferredId → Eval Value) :
    ∃ calls r, Forest.MergeRun (.call n other) m.forest calls r ∧
      (∀ calls' r', Forest.MergeRun (.call n other) m.forest calls' r' →
        calls' = calls ∧ r' = r) ∧
      (Operation.merge n (.node other)).performWith call m = (match r with
        | .ok _ g => .ok (.node n) { m with forest := g }
        | .error e g => .error (.configuration e) { m with forest := g }) ∧
      (∀ c ∈ calls, c.path.length < (m.view (.node n)).levels ∧ ∃ frozen fields,
        (m.view (.node n)).at? c.path = some (.node c.receiver frozen fields)) ∧
      (calls.map MergeCall.path).Nodup ∧
      ∀ c, ¬Relation.TransGen
        (after ((Operation.merge n (.node other)).performWith call) m).forest.Holds c c := by
  obtain ⟨calls, hrun, hdown⟩ := hm.sound.exists_mergeRun n other
  have hat : ∀ c ∈ calls, ∃ frozen fields,
      (m.view (.node n)).at? c.path = some (.node c.receiver frozen fields) := by
    intro c hc
    obtain ⟨key, _, rest, hpath, frozen, fields, hfind⟩ := hdown.path c hc
    refine ⟨frozen, fields, ?_⟩
    rw [hpath, view, hm.sound.view_eq_fields, Tree.at?_cons rfl]
    exact hfind
  have hwritten : Forest.Written n m.forest
      (after ((Operation.merge n (.node other)).performWith call) m).forest :=
    writes_performWith rfl m hm.sound
  refine ⟨calls, _, hrun, fun _ _ h ↦ hrun.unique h, ?_, ?_, hdown.once,
    hwritten.sound.not_holds_cycle⟩
  · cases hr : Forest.mergeValue n (.node other) m.forest with
    | ok u g => exact bind_of_ok (onForest_of_ok hr)
    | error e g => exact bind_of_error (onForest_of_error hr)
  · intro c hc
    obtain ⟨frozen, fields, h⟩ := hat c hc
    exact ⟨Tree.length_lt_levels_of_at? h rfl, frozen, fields, h⟩

/-- The whole tree merged into a node inside it. -/
theorem merge_ends_sample : nested.Reachable ∧ ∃ calls r,
    Forest.MergeRun (.call ⟨1⟩ ⟨0⟩) nested.forest calls r ∧ ∀ c ∈ calls, c.path.length < 3 := by
  obtain ⟨calls, r, hrun, _, _, hcalls, _⟩ := reachable_nested.merge_ends ⟨1⟩ ⟨0⟩ evaluate
  have hlevels : (nested.view (.node ⟨1⟩)).levels = 3 := rfl
  rw [hlevels] at hcalls
  exact ⟨reachable_nested, calls, r, hrun, fun c hc ↦ (hcalls c hc).1⟩

/-- **Merging a node is merging its copy** if what comes in is not written to before its turn. This
is so for a node and itself, and for two nodes of which neither stands below the other. What is
merged are then the contents from the start. -/
theorem Reachable.merge_as_copy (hm : m.Reachable)
    (hopen : ∀ c, m.forest.Reaches n c → m.forest.frozen c = false)
    (h : other = n ∨ ¬m.forest.Reaches n other ∧ ¬m.forest.Reaches other n ∨
      Tree.orderly (some (m.view (.node n))) (m.view (.node other)) = true)
    (call : DeferredId → Eval Value) :
    ∃ m₁ k m₂ m₃, (Operation.merge n (.node other)).performWith call m = .ok (.node n) m₁ ∧
      (Operation.copy other).performWith call m = .ok (.node k) m₂ ∧
      (Operation.merge n (.node k)).performWith call m₂ = .ok (.node n) m₃ ∧
      (m₁.view (.node n)).content = .node
        (Blueprint.mergeFields (m.view (.node n)).fields (m.view (.node other)).fields) ∧
      (m₁.view (.node n)).content = (m₃.view (.node n)).content ∧
      (m₁.view (.node n)).equal (m₃.view (.node n)) = true := by
  have hf := hm.sound
  have horderly : Tree.orderly (some (m.view (.node n))) (m.view (.node other)) = true := by
    rcases h with rfl | ⟨hn, hother⟩ | h
    · exact hf.orderly_self other
    · exact hf.orderly_of_not_reaches hn hother
    · exact h
  obtain ⟨g, hok, hpassed⟩ := hf.mergeValue_passed hopen horderly
  obtain ⟨k, m₂, m₃, hcopy, hinto, hm₃, hopen₃, hfields₃⟩ := merge_of_copy hf hopen other call
  -- both leave the merge of the contents from the start
  have hfields : (Memory.view { m with forest := g } (.node n)).fields
      = Blueprint.mergeFields (m.view (.node n)).fields (m.view (.node other)).fields := by
    rw [fields_view hpassed.edited.sound, fields_view hf, fields_view hf]
    exact hpassed.merged.content fun h ↦ h
  refine ⟨{ m with forest := g }, k, m₂, m₃, bind_of_ok (onForest_of_ok hok), hcopy, hinto, ?_,
    equal_of_fields hpassed.edited.sound hm₃ (Forest.Open.edited hopen hpassed.edited) hopen₃ ?_⟩
  · rw [content_eq_fields hpassed.edited.sound, hfields]
  · rw [hfields, hfields₃]

/-- A node merged into the root of its own tree. -/
theorem merge_as_copy_sample : ∃ m₁ k m₂ m₃,
    (Operation.merge ⟨0⟩ (.node ⟨2⟩)).performWith evaluate nested = .ok (.node ⟨0⟩) m₁ ∧
    (Operation.copy ⟨2⟩).performWith evaluate nested = .ok (.node k) m₂ ∧
    (Operation.merge ⟨0⟩ (.node k)).performWith evaluate m₂ = .ok (.node ⟨0⟩) m₃ ∧
    (m₁.view (.node ⟨0⟩)).equal (m₃.view (.node ⟨0⟩)) = true := by
  have hopen : nested.forest.Open ⟨0⟩ :=
    reachable_nested.sound.open_of_nodes (by decide +kernel)
  have horderly :
      Tree.orderly (some (nested.view (.node ⟨0⟩))) (nested.view (.node ⟨2⟩)) = true := by
    decide +kernel
  obtain ⟨m₁, k, m₂, m₃, hmerge, hcopy, hinto, _, _, hequal⟩ :=
    reachable_nested.merge_as_copy hopen (.inr (.inr horderly)) evaluate
  exact ⟨m₁, k, m₂, m₃, hmerge, hcopy, hinto, hequal⟩

/-- **Merging a node is not always merging its copy.** When the tree is merged into the node under
`a`, that node has been given the number by the time it comes in itself, and so the number goes one
level further down than it should. The other way round, `c` is filled on the way down under `a`
before its own turn, and comes in full. -/
theorem merge_differs_from_copy : nested.Reachable ∧
    (∀ c ∈ (nested.view (.node ⟨0⟩)).nodes, nested.forest.frozen c = false) ∧
    nested.forest.find? ⟨0⟩ "a" = some (.node ⟨1⟩) ∧
    (∃ m₁ k m₂ m₃,
      (Operation.merge ⟨1⟩ (.node ⟨0⟩)).performWith evaluate nested = .ok (.node ⟨1⟩) m₁ ∧
      (Operation.copy ⟨0⟩).performWith evaluate nested = .ok (.node k) m₂ ∧
      (Operation.merge ⟨1⟩ (.node k)).performWith evaluate m₂ = .ok (.node ⟨1⟩) m₃ ∧
      (m₁.view (.node ⟨1⟩)).fields.find? "a" = some (.node
        [("c", .node [("q", .scalar (.int 1))]),
          ("a", .node [("c", .node [("q", .scalar (.int 1))])]), ("b", .scalar (.int 5))]) ∧
      (m₃.view (.node ⟨1⟩)).fields.find? "a" = some (.node
        [("c", .node [("q", .scalar (.int 1))]),
          ("a", .node [("c", .node [("q", .scalar (.int 1))])])])) ∧
    ∃ m₁ k m₂ m₃,
      (Operation.merge ⟨0⟩ (.node ⟨1⟩)).performWith evaluate nested = .ok (.node ⟨0⟩) m₁ ∧
      (Operation.copy ⟨1⟩).performWith evaluate nested = .ok (.node k) m₂ ∧
      (Operation.merge ⟨0⟩ (.node k)).performWith evaluate m₂ = .ok (.node ⟨0⟩) m₃ ∧
      (m₁.view (.node ⟨0⟩)).fields.find? "c" = some (.node [("q", .scalar (.int 1))]) ∧
      (m₃.view (.node ⟨0⟩)).fields.find? "c" = some (.node []) := by
  have hf := reachable_nested.sound
  have hall : ∀ c ∈ (nested.view (.node ⟨0⟩)).nodes, nested.forest.frozen c = false := by
    decide +kernel
  have hroot : nested.forest.Open ⟨0⟩ := hf.open_of_nodes hall
  have hbelow : nested.forest.Open ⟨1⟩ := hf.open_of_nodes (by decide +kernel)
  -- what the direct merges leave, node by node
  let up : Memory := { nested with forest := ⟨#[
    ⟨[("b", .int 5), ("a", .node ⟨1⟩)], false⟩,
    ⟨[("a", .node ⟨2⟩), ("c", .node ⟨4⟩), ("b", .int 5)], false⟩,
    ⟨[("c", .node ⟨3⟩), ("a", .node ⟨5⟩), ("b", .int 5)], false⟩,
    ⟨[("q", .int 1)], false⟩, ⟨[], false⟩, ⟨[("c", .node ⟨6⟩)], false⟩,
    ⟨[("q", .int 1)], false⟩]⟩ }
  let down : Memory := { nested with forest := ⟨#[
    ⟨[("b", .int 5), ("a", .node ⟨1⟩), ("c", .node ⟨5⟩)], false⟩,
    ⟨[("a", .node ⟨2⟩), ("c", .node ⟨4⟩)], false⟩, ⟨[("c", .node ⟨3⟩)], false⟩,
    ⟨[("q", .int 1)], false⟩, ⟨[("q", .int 1)], false⟩, ⟨[("q", .int 1)], false⟩]⟩ }
  refine ⟨reachable_nested, hall, rfl, ?_, ?_⟩
  · obtain ⟨k, m₂, m₃, hcopy, hinto, _, _, hfields⟩ := merge_of_copy hf hbelow ⟨0⟩ evaluate
    refine ⟨up, k, m₂, m₃, rfl, hcopy, hinto, rfl, ?_⟩
    rw [hfields]
    rfl
  · obtain ⟨k, m₂, m₃, hcopy, hinto, _, _, hfields⟩ := merge_of_copy hf hroot ⟨1⟩ evaluate
    refine ⟨down, k, m₂, m₃, rfl, hcopy, hinto, rfl, ?_⟩
    rw [hfields]
    rfl

end Memory

end LayeredConfig
