import LayeredConfig.Proofs.Node.Run

/-!
# Freezing is permanent

A frozen tree is what it was when it was frozen, in every state that a program can get to, and
every write to one of its nodes is refused, whatever reference the program holds. The node that
was frozen need not be the root of its tree, and the operations of the run may be performed by
computations while others are reading.
-/

namespace LayeredConfig

variable {m : Memory} {n : NodeId} {call : DeferredId → Eval Value}

theorem set_of_frozen (hn : m.forest.frozen n = true) (key : String) (v : Value) :
    (Operation.set n (.text key) v).performWith call m
      = .error (.configuration (.readOnlyNode (.scalar (.text key)))) m :=
  bind_of_error (onForest_of_error (Forest.assign_of_frozen hn key v))

theorem merge_of_frozen (hn : m.forest.frozen n = true) (v : Value) :
    (Operation.merge n v).performWith call m
      = .error (.configuration (.readOnlyNode (.scalar .null))) m :=
  bind_of_error (onForest_of_error (Forest.mergeValue_of_frozen hn v))

/-- **Freezing is permanent and deep.** Freezing a node succeeds. In every later state it reaches
the nodes that it reached then; each of them holds what it held then, with a tuple for every
sequence at every depth, and refuses to be written to and to be merged into. -/
theorem Memory.Reachable.freeze_permanent (hm : m.Reachable) (hn : n ∈ m.forest)
    (call : DeferredId → Eval Value) :
    ∃ m₁, (Operation.freeze n).performWith call m = .ok (.node n) m₁ ∧
      ∀ m₂, Memory.Run m₁ m₂ →
        m₂.view (.node n) = m₁.view (.node n) ∧
        ∀ c, (m₂.forest.Reaches n c ↔ m₁.forest.Reaches n c) ∧ (m₂.forest.Reaches n c →
          m₂.forest.frozen c = true ∧
          m₂.forest.entries c = m₁.forest.entries c ∧
          (∀ e ∈ m₂.forest.entries c, e.2.Uniform .tuple) ∧
          (∀ key v call, (Operation.set c (.text key) v).performWith call m₂
            = .error (.configuration (.readOnlyNode (.scalar (.text key)))) m₂) ∧
          ∀ v call, (Operation.merge c v).performWith call m₂
            = .error (.configuration (.readOnlyNode (.scalar .null))) m₂) := by
  have hf := hm.sound
  refine ⟨{ m with forest := m.forest.freeze n }, rfl, fun m₂ hrun ↦ ?_⟩
  have hsound : (m.forest.freeze n).Sound := hf.freeze n
  have hlater : Forest.Later (m.forest.freeze n) m₂.forest := hrun.follows hsound
  have hmem : n ∈ m.forest.freeze n := Forest.mem_freeze.mpr hn
  have hfrozen : (m.forest.freeze n).frozen n = true :=
    hf.frozen_freeze_of_reaches (.refl m.forest n)
  refine ⟨hlater.view_of_frozen hsound hmem hfrozen, fun c ↦ ?_⟩
  have hreach : m₂.forest.Reaches n c ↔ (m.forest.freeze n).Reaches n c :=
    hlater.reaches_iff_of_frozen hsound hmem hfrozen
  refine ⟨hreach, fun hc ↦ ?_⟩
  -- the cell of every node below is the one that freezing left, and all else follows from it
  have hcell : m₂.forest.cell c = (m.forest.freeze n).cell c :=
    hlater.cell_of_frozen hsound hmem hfrozen (hreach.mp hc)
  have hz : m₂.forest.frozen c = true := by
    rw [Forest.frozen, hcell]
    exact hsound.frozen_of_reaches hfrozen (hreach.mp hc)
  refine ⟨hz, congrArg Cell.entries hcell, fun e he ↦ ?_, fun key v call ↦ set_of_frozen hz key v,
    fun v call ↦ merge_of_frozen hz v⟩
  have huniform := hlater.sound.uniform c e he
  rwa [hz] at huniform

/-- A node inside a list of a node that is frozen refuses to be written to. -/
theorem set_refused_in_list : ∃ m m₁ : Memory, m.Reachable ∧
    (Operation.freeze ⟨0⟩).performWith evaluate m = .ok (.node ⟨0⟩) m₁ ∧
    ⟨1⟩ ∈ m₁.forest.children ⟨0⟩ ∧
    (Operation.set ⟨1⟩ (.text "b") .null).performWith evaluate m₁
      = .error (.configuration (.readOnlyNode (.scalar (.text "b")))) m₁ := by
  let make := Operation.create (.mapping [(.text "a", .list [.mapping [(.text "b", .int 1)]])])
  have hm : (after (make.performWith (evaluateWithin 0)) default).Reachable :=
    .single (.operation default make 0)
  obtain ⟨m₁, hok, hlater⟩ := hm.freeze_permanent (n := ⟨0⟩) (by decide +kernel) evaluate
  -- the list is a tuple by now, and it still holds the node
  have hchild : ⟨1⟩ ∈ m₁.forest.children ⟨0⟩ := by
    rw [← (EStateM.Result.ok.inj hok).2]
    decide +kernel
  have hall := ((hlater m₁ .refl).2 ⟨1⟩).2 (.head hchild (.refl _ _))
  exact ⟨_, m₁, hm, hok, hchild, hall.2.2.2.1 "b" .null evaluate⟩

end LayeredConfig
