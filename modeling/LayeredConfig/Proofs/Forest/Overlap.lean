import LayeredConfig.Proofs.Forest.Descent
import LayeredConfig.Proofs.Tree.Overlap

/-!
# Merging nodes that share nodes

A merge reads what comes in while it writes to the receiver. As long as it is orderly
(`Tree.fieldsOrderly`), every value is still what it was when the merge began by the time it comes
in, so that the merge is one of the contents from the start (`Forest.MergeRun.passed`). Besides that
it says which nodes have changed, because this is what the keys that are still to come need.
-/

namespace LayeredConfig

namespace MergeTask

/-- The node that is written to. -/
def receiver : MergeTask → NodeId
  | .call n _ => n
  | .entries n _ => n

/-- What comes in. -/
def incoming (f : Forest) : MergeTask → Entries Value
  | .call _ other => f.entries other
  | .entries _ incoming => incoming

end MergeTask

namespace Forest

variable {f g h : Forest} {n a other : NodeId} {key : String} {v : Value} {t : Tree}
  {rest : Entries Value}

/-! ## No node stands twice in a tree -/

theorem nodes_view (v : Value) :
    (f.view v).nodes = v.nodes.flatMap fun a ↦ (f.view (.node a)).nodes := Value.nodes_graft _ v

theorem Sound.nodup_nodes_view (hf : f.Sound) (n : NodeId) : (f.view (.node n)).nodes.Nodup := by
  induction n using hf.node_induction with
  | h n ih =>
    have hnodes : (f.view (.node n)).nodes
        = n :: (f.children n).flatMap fun a ↦ (f.view (.node a)).nodes := by
      rw [hf.view_node, Tree.nodes_node, Entries.mapValues, List.flatMap_map, children,
        List.flatMap_assoc]
      exact congrArg _ (List.flatMap_congr fun e _ ↦ nodes_view e.2)
    rw [hnodes, List.nodup_cons, List.nodup_flatMap]
    refine ⟨?_, ih, (hf.once n).imp_of_mem ?_⟩
    · intro h
      obtain ⟨a, ha, hn⟩ := List.mem_flatMap.mp h
      exact hf.not_reaches_of_mem_children ha ((hf.mem_nodes_view_node a).mp hn)
    · intro a b ha hb hab c hac hbc
      rw [hf.mem_nodes_view_node] at hac hbc
      exact hf.not_reaches_of_ne ha hb hab hac hbc

/-! ## Entries in good order -/

/-- Entries that an orderly merge may bring into the node. -/
structure Passable (f : Forest) (n : NodeId) (incoming : Entries Value) : Prop where
  writable : f.frozen n = false
  distinct : incoming.keys.Nodup
  uniform : ∀ e ∈ incoming, ∃ kind, e.2.Uniform kind
  mem : ∀ e ∈ incoming, ∀ a ∈ e.2.nodes, a ∈ f
  orderly : Tree.fieldsOrderly n (f.fields n) (incoming.mapValues f.view) = true

/-- **What an orderly merge leaves**: all as it was but the nodes that it writes to, and in the node
the merge of the contents from the start. -/
structure Passed (f : Forest) (n : NodeId) (incoming : Entries Value) (g : Forest) : Prop where
  edited : Edited n f g
  frame : ∀ c ∈ f, c ∉ Tree.fieldsWritten n (f.fields n) (incoming.mapValues f.view) →
    g.cell c = f.cell c
  merged : Tree.Merged (fun t b ↦ t.content = b) (f.fields n)
    ((incoming.mapValues f.view).mapValues Tree.content) (g.fields n)

/-- What one step of an orderly merge leaves. -/
structure StepPassed (f : Forest) (n : NodeId) (key : String) (v : Value) (t : Tree) (g : Forest) :
    Prop where
  edited : Edited n f g
  frame : ∀ c ∈ f, c ∉ Tree.written n ((f.fields n).find? key) (f.view v) → g.cell c = f.cell c
  fields : g.fields n = (f.fields n).put key t
  merged : Tree.MergedAt (fun t b ↦ t.content = b) ((f.fields n).find? key) (f.view v).content t

namespace StepPassed

variable (hstep : StepPassed f n key v t g)

include hstep

/-- What is still to come in looks as it did before the step. -/
theorem view_eq (hf : f.Sound) (hin : Passable f n ((key, v) :: rest)) :
    ∀ e ∈ rest, g.view e.2 = f.view e.2 := by
  have horderly := hin.orderly
  rw [Entries.mapValues_cons, Tree.fieldsOrderly_cons] at horderly
  obtain ⟨_, hclear, _⟩ := horderly
  intro e he
  apply hf.view_congr hstep.edited.sound
  intro a ha c hc
  apply hstep.frame c (hf.mem_of_reaches (hin.mem e (List.mem_cons_of_mem _ he) a ha) hc)
  intro hwritten
  apply hclear c hwritten (e.1, f.view e.2) (List.mem_map.mpr ⟨e, he, rfl⟩)
  exact mem_nodes_view.mpr ⟨a, ha, (hf.mem_nodes_view_node a).mpr hc⟩

theorem find?_eq (hkey : key ∉ rest.keys) :
    ∀ k ∈ rest.keys, (g.fields n).find? k = (f.fields n).find? k := by
  intro k hk
  have hne : k ≠ key := fun heq ↦ hkey (heq ▸ hk)
  rw [hstep.fields, Entries.find?_put_of_ne hne]

/-- The other entries are in good order after the step. -/
theorem passable (hf : f.Sound) (hin : Passable f n ((key, v) :: rest)) : Passable g n rest := by
  obtain ⟨hkey, hrest⟩ : key ∉ Entries.keys rest ∧ (Entries.keys rest).Nodup :=
    List.nodup_cons.mp hin.distinct
  have hviews : rest.mapValues g.view = rest.mapValues f.view :=
    Entries.mapValues_congr (hstep.view_eq hf hin)
  have horderly := hin.orderly
  rw [Entries.mapValues_cons, Tree.fieldsOrderly_cons] at horderly
  refine ⟨?_, hrest, fun e he ↦ hin.uniform e (List.mem_cons_of_mem _ he),
    fun e he a ha ↦ hstep.edited.mem (hin.mem e (List.mem_cons_of_mem _ he) a ha), ?_⟩
  · rw [hstep.edited.frozen_eq (mem_of_frozen_eq_false hin.writable), hin.writable]
  · rw [hviews, Tree.fieldsOrderly_congr, horderly.2.2]
    rw [Entries.keys_mapValues]
    exact hstep.find?_eq hkey

/-- A step and what follows it. -/
theorem passed (hf : f.Sound) (hin : Passable f n ((key, v) :: rest)) (hrest : Passed g n rest h) :
    Passed f n ((key, v) :: rest) h := by
  obtain ⟨hkey, _⟩ : key ∉ Entries.keys rest ∧ (Entries.keys rest).Nodup :=
    List.nodup_cons.mp hin.distinct
  have hviews : rest.mapValues g.view = rest.mapValues f.view :=
    Entries.mapValues_congr (hstep.view_eq hf hin)
  refine ⟨hstep.edited.trans hrest.edited, ?_, ?_⟩
  · intro c hc hnot
    rw [Entries.mapValues_cons, Tree.fieldsWritten_cons, List.mem_append, not_or] at hnot
    rw [hrest.frame c (hstep.edited.mem hc) ?_, hstep.frame c hc hnot.1]
    rw [hviews, Tree.fieldsWritten_congr]
    · exact hnot.2
    · rw [Entries.keys_mapValues]
      exact hstep.find?_eq hkey
  · have hmerged := hrest.merged
    rw [hviews, hstep.fields] at hmerged
    exact .step hstep.merged hmerged

end StepPassed

/-! ## The three steps -/

/-- A step that goes down. -/
theorem Passed.step_descend (hf : f.Sound) (ha : f.find? n key = some (.node a))
    (h : Passed f a (f.entries other) g) :
    StepPassed f n key (.node other) (.node a (f.frozen a) (g.fields a)) g := by
  have hold := hf.find?_fields_of_node ha
  refine ⟨h.edited.mono (reaches_of_find? ha), ?_, hf.fields_of_edited_child ha h.edited, ?_⟩
  · rw [hold, hf.view_eq_fields, Tree.written_node]
    exact h.frame
  · rw [hold, hf.view_eq_fields, Tree.content_node]
    exact .descend a (f.frozen a) h.merged

/-- A step that leaves a node as it is. -/
theorem Sound.step_keep (hf : f.Sound) (ha : f.find? n key = some (.node a)) :
    StepPassed f n key .null (f.view (.node a)) f := by
  have hold := find?_fields_of_find? ha
  refine ⟨.refl hf n, fun _ _ _ ↦ rfl, (Entries.put_of_find? hold).symm, ?_⟩
  rw [hold, hf.view_eq_fields]
  exact .keep a (f.frozen a) (f.fields a)

/-- A step that puts a copy in the place of what was there. -/
theorem Sound.step_replace {kind : SeqKind} (hf : f.Sound) (hn : f.frozen n = false)
    (hv : v.Uniform kind) (h : ∀ a, f.find? n key = some (.node a) → v ≠ .null ∧ ∀ b, v ≠ .node b)
    (hwrite : write n key v f = .ok () g) : ∃ t, StepPassed f n key v t g := by
  obtain ⟨g', t, hok, hfields, hcopy⟩ := hf.write_fields hn (hf.wellKeyed_view hv) key
  obtain rfl := (EStateM.Result.ok.inj (hok.symm.trans hwrite)).2
  have hedited := hf.edited_write hn key v
  rw [after_of_ok hwrite] at hedited
  have hreplaces := hf.replaces hv h
  rw [← find?_fields] at hreplaces
  refine ⟨t, hedited, ?_, hfields, .replace hreplaces hcopy.content⟩
  rw [Tree.written_of_replaced hreplaces]
  intro c hc hne
  exact hf.cell_write hwrite hc fun heq ↦ hne (List.mem_singleton.mpr heq)

/-! ## The run -/

variable {task : MergeTask} {calls : List MergeCall}
  {r : EStateM.Result ConfigurationError Forest Unit}

/-- What a node holds, if it comes in in good order. -/
theorem Sound.passable (hf : f.Sound) (hn : f.frozen n = false)
    (h : Tree.fieldsOrderly n (f.fields n) (f.fields other) = true) :
    Passable f n (f.entries other) :=
  ⟨hn, hf.distinct other, fun e he ↦ ⟨_, hf.uniform other e he⟩,
    fun e he _ ha ↦ (hf.younger (List.mem_flatMap.mpr ⟨e, he, ha⟩)).2, h⟩

/-- What comes in under a key at which both sides hold a node is in good order, too. -/
theorem Passable.below (hf : f.Sound) (ha : f.find? n key = some (.node a))
    (hopen : f.frozen a = false) (h : Passable f n ((key, .node other) :: rest)) :
    Passable f a (f.entries other) := by
  have horderly := h.orderly
  rw [Entries.mapValues_cons, Tree.fieldsOrderly_cons, hf.find?_fields_of_node ha,
    hf.view_eq_fields other, Tree.orderly_node] at horderly
  exact hf.passable hopen horderly.1

/-- A call that gets through has not met a frozen receiver. -/
theorem MergeRun.writable (hrun : MergeRun (.call n other) f calls (.ok () g)) :
    f.frozen n = false := by
  cases hrun with
  | enter hn _ => exact hn

/-- **An orderly merge** that gets through merges the contents from the start. -/
theorem MergeRun.passed (hrun : MergeRun task f calls r) (hok : r = .ok () g) (hf : f.Sound)
    (hin : Passable f task.receiver (task.incoming f)) :
    Passed f task.receiver (task.incoming f) g := by
  induction hrun generalizing g with
  | frozen => cases hok
  | enter _ _ ih => exact ih hok hf hin
  | done f n =>
    cases hok
    exact ⟨.refl hf n, fun _ _ _ ↦ rfl, .done _⟩
  | descend ha hsub _ ihsub ihrest =>
    have hstep := (ihsub rfl hf (hin.below hf ha hsub.writable)).step_descend hf ha
    exact hstep.passed hf hin (ihrest hok hstep.edited.sound (hstep.passable hf hin))
  | halt => cases hok
  | keep ha _ ihrest =>
    have hstep := hf.step_keep ha
    exact hstep.passed hf hin (ihrest hok hstep.edited.sound (hstep.passable hf hin))
  | @replace f g n key v rest calls r hreplace hwrite _ ihrest =>
    obtain ⟨kind, hv⟩ := hin.uniform (key, v) List.mem_cons_self
    obtain ⟨t, hstep⟩ := hf.step_replace hin.writable hv hreplace hwrite
    exact hstep.passed hf hin (ihrest hok hstep.edited.sound (hstep.passable hf hin))
  | fail => cases hok

/-- **An orderly merge of nodes** merges what they held, if it gets through. -/
theorem Sound.passed_of_mergeValue (hf : f.Sound) (hok : mergeValue n (.node other) f = .ok () g)
    (h : Tree.orderly (some (f.view (.node n))) (f.view (.node other)) = true) :
    Passed f n (f.entries other) g := by
  rw [hf.view_eq_fields, hf.view_eq_fields, Tree.orderly_node] at h
  obtain ⟨calls, hrun, _⟩ := hf.exists_mergeRun n other
  rw [hok] at hrun
  exact hrun.passed rfl hf (hf.passable hrun.writable h)

/-- It does if the receiver reaches nothing frozen. -/
theorem Sound.mergeValue_passed (hf : f.Sound) (hopen : f.Open n)
    (h : Tree.orderly (some (f.view (.node n))) (f.view (.node other)) = true) :
    ∃ g, mergeValue n (.node other) f = .ok () g ∧ Passed f n (f.entries other) g := by
  have huniform : (Value.node other).Uniform .list := .node other
  have hfields : (f.view (.node other)).branches? = some (f.fields other) := by
    rw [hf.view_eq_fields]
    rfl
  obtain ⟨g, hok⟩ := hf.mergeValue_ok hopen hfields (hf.wellKeyed_view huniform)
  exact ⟨g, hok, hf.passed_of_mergeValue hok h⟩

/-! ## Merges that are orderly -/

/-- Merging a node into itself is orderly. -/
theorem Sound.orderly_self (hf : f.Sound) (n : NodeId) :
    Tree.orderly (some (f.view (.node n))) (f.view (.node n)) = true :=
  Tree.orderly_self (hf.nodup_nodes_view n) (hf.distinct_view _)

/-- Two nodes neither of which stands below the other share no node. -/
theorem Sound.orderly_of_not_reaches (hf : f.Sound) (h : ¬f.Reaches n other)
    (h' : ¬f.Reaches other n) :
    Tree.orderly (some (f.view (.node n))) (f.view (.node other)) = true := by
  apply Tree.orderly_of_apart
  rintro _ ⟨⟩ c hn hother
  rw [hf.mem_nodes_view_node] at hn hother
  exact (hf.reaches_or_reaches hn hother).elim h h'

end Forest

end LayeredConfig
