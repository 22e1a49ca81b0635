import LayeredConfig.Proofs.Node.Exporting
import LayeredConfig.Proofs.Tree.Materializing

/-!
# Writing out a node whose computations give scalars

Writing out a node reads it once, in order. The computations under its keys run when their turn
comes, each once for each key that it stands under, and nothing else happens
(`Memory.Answered`). Items of lists are not read but taken as they are, so that a computation in a
list neither runs nor is replaced; it stands in what is written out.
-/

namespace LayeredConfig

variable {call : DeferredId → Eval Value}

/-- The script leaves events and gives a scalar. -/
inductive Script.Brief : Script → Prop
  | done (s : Scalar) : Brief (.done (.scalar s))
  | note (e : Event) {rest : Script} (h : Brief rest) : Brief (.note e rest)

theorem Script.Brief.run {script : Script} (h : script.Brief) (perform : Operation → Eval Value)
    (m : Memory) : ∃ s trace, script.run perform m = .ok (.scalar s) { m with trace := trace } := by
  induction h generalizing m with
  | done s => exact ⟨s, m.trace, rfl⟩
  | note e _ ih => exact ih { m with trace := m.trace.push e }

namespace Memory

variable {m m' m'' : Memory} {d : DeferredId} {ds es : List DeferredId}
  {answers rest : List (DeferredId × Scalar)}

/-! ## Runs of computations that only answer -/

/-- The computations ran, as often as they are listed, and left events; nothing else changed. -/
structure Ran (m : Memory) (ds : List DeferredId) (m' : Memory) : Prop where
  forest_eq : m'.forest = m.forest
  names_eq : m'.names = m.names
  computations_eq : m'.computations = (ds.foldl countRun m).computations

theorem computations_foldl_countRun (h : m'.computations = m.computations) :
    (ds.foldl countRun m').computations = (ds.foldl countRun m).computations := by
  induction ds generalizing m m' with
  | nil => exact h
  | cons d rest ih =>
    refine ih ?_
    rw [countRun, countRun, h]

theorem reruns_foldl_countRun (m : Memory) (ds : List DeferredId) :
    Reruns m (ds.foldl countRun m) := by
  induction ds generalizing m with
  | nil => exact Std.Refl.refl m
  | cons d rest ih => exact IsTrans.trans _ _ _ (reruns_countRun m d) (ih _)

namespace Ran

theorem refl (m : Memory) : m.Ran [] m := ⟨rfl, rfl, rfl⟩

/-- What a computation does stays the same. -/
theorem body_eq (h : m.Ran ds m') (d : DeferredId) :
    (m'.computation d).body = (m.computation d).body := by
  rw [computation, h.computations_eq]
  exact (reruns_foldl_countRun m ds).body_eq d

theorem trans (h : m.Ran ds m') (h' : m'.Ran es m'') : m.Ran (ds ++ es) m'' := by
  refine ⟨h'.forest_eq.trans h.forest_eq, h'.names_eq.trans h.names_eq, ?_⟩
  rw [h'.computations_eq, computations_foldl_countRun h.computations_eq, List.foldl_append]

end Ran

/-- Whatever ran before, the computation gives a scalar and does nothing else. -/
def AnswersPlainly (m : Memory) (call : DeferredId → Eval Value) (d : DeferredId) : Prop :=
  ∀ ds m', m.Ran ds m' → ∃ s m'', call d m' = .ok (.scalar s) m'' ∧ m'.Ran [d] m''

theorem AnswersPlainly.of_ran (h : m.AnswersPlainly call d) (hran : m.Ran ds m') :
    m'.AnswersPlainly call d := fun es m'' h' ↦ h (ds ++ es) m'' (hran.trans h')

/-- A computation that leaves events and gives a scalar does nothing else. -/
theorem answersPlainly_of_brief (h : ∀ runs, ((m.computation d).body runs).Brief) :
    m.AnswersPlainly evaluate d := by
  intro ds m' hran
  have hbrief : ((m'.computation d).body (m'.computation d).runs).Brief := hran.body_eq d ▸ h _
  obtain ⟨s, trace, hok⟩ := hbrief.run
    (Operation.performWith (evaluateWithin (nestingLimit - 1))) (m'.countRun d)
  exact ⟨s, _, hok, rfl, rfl, rfl⟩

/-- The computations run one after the other and give the scalars. -/
inductive Answered (call : DeferredId → Eval Value) :
    Memory → List (DeferredId × Scalar) → Memory → Prop
  | nil (m : Memory) : Answered call m [] m
  | cons {m m₁ m₂ : Memory} {d : DeferredId} {s : Scalar} {answers : List (DeferredId × Scalar)}
      (hcall : call d m = .ok (.scalar s) m₁) (hran : m.Ran [d] m₁)
      (h : Answered call m₁ answers m₂) : Answered call m ((d, s) :: answers) m₂

namespace Answered

theorem append (h : Answered call m answers m') (h' : Answered call m' rest m'') :
    Answered call m (answers ++ rest) m'' := by
  induction h with
  | nil m => exact h'
  | cons hcall hran _ ih => exact .cons hcall hran (ih h')

theorem ran (h : Answered call m answers m') : m.Ran (answers.map Prod.fst) m' := by
  induction h with
  | nil m => exact .refl m
  | cons _ hran _ ih => exact hran.trans ih

end Answered

end Memory

theorem Node.resolve_of_ne_deferred {v : Value} (h : ∀ d, v ≠ .deferred d) :
    resolve call v = pure v := by
  cases v with
  | deferred d => exact absurd rfl (h d)
  | _ => rfl

/-! ## Writing out a part of a node -/

namespace Forest

variable {f : Forest} {b : Blueprint} {sub : NodeId → Eval Value}

/-- On this forest the evaluation writes out the content, with the computations under its keys
answered. -/
def WritesOut (f : Forest) (call : DeferredId → Eval Value) (b : Blueprint) (x : Eval Value) :
    Prop :=
  ∀ m : Memory, m.forest = f → (∀ d ∈ b.deferreds, m.AnswersPlainly call d) →
    ∃ c answers m', x m = .ok c.plain m' ∧ Memory.Answered call m answers m' ∧ b.Resolved answers c

/-- Items are written out one after the other; a computation among them stays. -/
theorem mapM_exportValue {items : List Value} (h : ∀ v ∈ items, (∀ d, v ≠ .deferred d) →
      f.WritesOut call (f.view v).content (Node.exportValue sub v))
    {m : Memory} (hm : m.forest = f)
    (hplain : ∀ d ∈ (Blueprint.list (items.map fun v ↦ (f.view v).content)).deferreds,
      m.AnswersPlainly call d) :
    ∃ written answers m',
      items.mapM (Node.exportValue sub) m = .ok (written.map Blueprint.plain) m' ∧
      Memory.Answered call m answers m' ∧
      (Blueprint.list (items.map fun v ↦ (f.view v).content)).Resolved answers (.list written) := by
  induction items generalizing m with
  | nil => exact ⟨[], [], m, rfl, .nil m, .listNil⟩
  | cons v rest ih =>
    rw [List.map_cons, Blueprint.deferreds_list_cons, List.forall_mem_append] at hplain
    have hrest := fun w hw ↦ h w (List.mem_cons_of_mem _ hw)
    rw [List.map_cons, List.mapM_cons]
    by_cases hv : ∃ d, v = .deferred d
    · obtain ⟨d, rfl⟩ := hv
      obtain ⟨written, answers, m', hok, hanswered, hresolved⟩ := ih hrest hm hplain.2
      refine ⟨.deferred d :: written, answers, m', ?_, hanswered, .listDeferred d hresolved⟩
      have hfirst : Node.exportValue sub (.deferred d) m = .ok (.deferred d) m := rfl
      rw [bind_of_ok hfirst, bind_of_ok hok]
      rfl
    · obtain ⟨c, answers, m₁, hfirst, hanswered, hresolved⟩ :=
        h v List.mem_cons_self (fun d hd ↦ hv ⟨d, hd⟩) m hm hplain.1
      have hran := hanswered.ran
      obtain ⟨written, answers', m', hok, hanswered', hresolved'⟩ :=
        ih hrest (hran.forest_eq.trans hm) fun d hd ↦ (hplain.2 d hd).of_ran hran
      refine ⟨c :: written, answers ++ answers', m', ?_, hanswered.append hanswered',
        .listCons hresolved hresolved'⟩
      rw [bind_of_ok hfirst, bind_of_ok hok]
      rfl

/-- Entries are read one after the other; a computation among them runs. -/
theorem foldEntries_exportValue {entries : Entries Value}
    (h : ∀ e ∈ entries, (∀ d, e.2 ≠ .deferred d) →
      f.WritesOut call (f.view e.2).content (Node.exportValue sub e.2))
    {m : Memory} (hm : m.forest = f)
    (hplain : ∀ d ∈ (Blueprint.node (entries.mapValues fun v ↦ (f.view v).content)).deferreds,
      m.AnswersPlainly call d) :
    ∃ written answers m',
      Node.foldEntries call (fun key v ↦ return (Value.text key, ← Node.exportValue sub v))
        entries m = .ok (written.map fun e ↦ (.text e.1, e.2.plain)) m' ∧
      Memory.Answered call m answers m' ∧
      (Blueprint.node (entries.mapValues fun v ↦ (f.view v).content)).Resolved answers
        (.node written) := by
  induction entries generalizing m with
  | nil => exact ⟨[], [], m, rfl, .nil m, .nodeNil⟩
  | cons e rest ih =>
    obtain ⟨key, v⟩ := e
    rw [Entries.mapValues, List.map_cons, Blueprint.deferreds_node_cons, List.forall_mem_append]
      at hplain
    have hrest := fun e he ↦ h e (List.mem_cons_of_mem _ he)
    rw [Node.foldEntries]
    by_cases hv : ∃ d, v = .deferred d
    · obtain ⟨d, rfl⟩ := hv
      obtain ⟨s, m₁, hcall, hran⟩ := hplain.1 d List.mem_cons_self [] m (.refl m)
      obtain ⟨written, answers, m', hok, hanswered, hresolved⟩ :=
        ih hrest (hran.forest_eq.trans hm) fun d hd ↦ (hplain.2 d hd).of_ran hran
      refine ⟨(key, .scalar s) :: written, (d, s) :: answers, m', ?_, .cons hcall hran hanswered,
        .nodeDeferred key d s hresolved⟩
      have hresolve : Node.resolve call (.deferred d) m = .ok (.scalar s) m₁ := hcall
      have huse : (do return (Value.text key, ← Node.exportValue sub (.scalar s)) : Eval _) m₁
          = .ok (.text key, .scalar s) m₁ := rfl
      rw [bind_of_ok hresolve, bind_of_ok huse, bind_of_ok hok]
      rfl
    · have hne : ∀ d, v ≠ .deferred d := fun d hd ↦ hv ⟨d, hd⟩
      obtain ⟨c, answers, m₁, hfirst, hanswered, hresolved⟩ :=
        h (key, v) List.mem_cons_self hne m hm hplain.1
      have hran := hanswered.ran
      obtain ⟨written, answers', m', hok, hanswered', hresolved'⟩ :=
        ih hrest (hran.forest_eq.trans hm) fun d hd ↦ (hplain.2 d hd).of_ran hran
      refine ⟨(key, c) :: written, answers ++ answers', m', ?_, hanswered.append hanswered',
        .nodeCons key hresolved hresolved'⟩
      have huse : (do return (Value.text key, ← Node.exportValue sub v) : Eval _) m
          = .ok (.text key, c.plain) m₁ := bind_of_ok hfirst
      rw [Node.resolve_of_ne_deferred hne, pure_bind, bind_of_ok huse, bind_of_ok hok]
      rfl

/-- A stored value is written out if the nodes in it are. -/
theorem writesOut_exportValue {v : Value} {kind : SeqKind} (hv : v.Uniform kind)
    (hne : ∀ d, v ≠ .deferred d)
    (hsub : ∀ c ∈ v.nodes, f.WritesOut call (f.view (.node c)).content (sub c)) :
    f.WritesOut call (f.view v).content (Node.exportValue sub v) := by
  induction hv with
  | scalar s => exact fun m _ _ ↦ ⟨.scalar s, [], m, rfl, .nil m, .scalar s⟩
  | @seq items _ ih =>
    intro m hm hplain
    have hitem : ∀ w ∈ items, (∀ d, w ≠ .deferred d) →
        f.WritesOut call (f.view w).content (Node.exportValue sub w) := by
      refine fun w hw hne ↦ ih w hw hne fun c hc ↦ hsub c ?_
      rw [Value.nodes_seq]
      exact List.mem_flatMap.mpr ⟨w, hw, hc⟩
    rw [view_seq, Tree.content_seq, List.map_map] at hplain ⊢
    obtain ⟨written, answers, m', hok, hanswered, hresolved⟩ := mapM_exportValue hitem hm hplain
    refine ⟨.list written, answers, m', ?_, hanswered, hresolved⟩
    rw [Node.exportValue_seq, bind_of_ok hok, Blueprint.plain_list]
    rfl
  | set items => exact fun m _ _ ↦ ⟨.set items, [], m, rfl, .nil m, .set items⟩
  | node id => exact hsub id List.mem_cons_self
  | deferred d => exact absurd rfl (hne d)

/-- Writing out the given levels of a node, if they are enough. -/
theorem Sound.writesOut_exportLevels (hf : f.Sound) {n : NodeId} (hn : n ∈ f) {levels : ℕ}
    (hlevels : f.cells.size ≤ levels + n.index) :
    f.WritesOut call (f.view (.node n)).content (Node.exportLevels call levels n) := by
  -- the levels that are left cover the nodes that are younger than `n`
  induction n using hf.node_induction generalizing levels with
  | h n ih =>
    cases levels with
    | zero => exact absurd (mem_iff.mp hn) (by omega)
    | succ levels =>
      intro m hm hplain
      rw [hf.view_node, Tree.content_node, Entries.mapValues_mapValues] at hplain ⊢
      have hentry : ∀ e ∈ f.entries n, (∀ d, e.2 ≠ .deferred d) → f.WritesOut call
          (f.view e.2).content (Node.exportValue (Node.exportLevels call levels) e.2) := by
        refine fun e he hne ↦ writesOut_exportValue (hf.uniform n e he) hne fun c hc ↦ ?_
        have hchild : c ∈ f.children n := List.mem_flatMap.mpr ⟨e, he, hc⟩
        have hyounger := hf.younger hchild
        exact ih c hchild hyounger.2 (by omega)
      obtain ⟨written, answers, m', hok, hanswered, hresolved⟩ :=
        foldEntries_exportValue hentry hm hplain
      refine ⟨.node written, answers, m', ?_, hanswered, hresolved⟩
      rw [Node.exportLevels, get_bind, hm, bind_of_ok hok, Blueprint.plain_node]
      rfl

end Forest

namespace Memory

variable {m : Memory} {n : NodeId}

/-- **What a node is written out as**, when its computations give scalars and do nothing else. The
computations under keys run in the order of the keys, each as often as it stands there, and nothing
else happens. Their answers take their place in the content, which is written out as mappings,
lists and scalars. If a computation is an item of a list, it does not run, and is given out itself:
what is given out is a document, and all computations ran, once for each place, if none is an item
of a list, and only then. -/
theorem Reachable.export_resolved (hm : m.Reachable) (hn : n ∈ m.forest)
    (hplain : ∀ d ∈ (m.view (.node n)).content.deferreds, m.AnswersPlainly call d) :
    ∃ c answers m', (Operation.export n).performWith call m = .ok c.plain m' ∧
      Answered call m answers m' ∧ m.Ran (answers.map Prod.fst) m' ∧
      (m.view (.node n)).content.Resolved answers c ∧
      (c.plain.Document ↔ (m.view (.node n)).content.Keyed) ∧
      (answers.map Prod.fst = (m.view (.node n)).content.deferreds
        ↔ (m.view (.node n)).content.Keyed) := by
  have hf := hm.sound
  have hlevels : m.forest.cells.size ≤ (m.forest.cells.size + nestingLimit) + n.index := by omega
  obtain ⟨c, answers, m', hok, hanswered, hresolved⟩ :=
    hf.writesOut_exportLevels hn hlevels m rfl hplain
  have hdistinct := (hf.distinct_view (.node n)).content
  refine ⟨c, answers, m', ?_, hanswered, hanswered.ran, hresolved, hresolved.document_iff hdistinct,
    hresolved.answers_eq_iff⟩
  rw [Operation.performWith, Node.exportWith, get_bind, hok]

/-- A computation that is made, and a node with a value and with nothing in it. -/
def holding (v : Value) : Memory :=
  after ((Operation.create (.mapping [(.text "a", v), (.text "b", .null)])).performWith
    (evaluateWithin 0)) ((default : Memory).define (.constant "d" (.int 1))).2

theorem reachable_holding (v : Value) : (holding v).Reachable :=
  .tail (.single (.define default (.constant "d" (.int 1)))) (.operation _ _ 0)

theorem answersPlainly_holding {v : Value}
    (h : (holding v).computation ⟨0⟩ = .constant "d" (.int 1)) :
    (holding v).AnswersPlainly evaluate ⟨0⟩ := by
  refine answersPlainly_of_brief fun _ ↦ ?_
  rw [h]
  exact .note _ (.done (.int 1))

/-- A computation under a key runs, and a document comes of the node. -/
theorem export_resolved_sample : (holding (.deferred ⟨0⟩)).Reachable ∧
    ⟨0⟩ ∈ (holding (.deferred ⟨0⟩)).forest ∧
    (∀ d ∈ ((holding (.deferred ⟨0⟩)).view (.node ⟨0⟩)).content.deferreds,
      (holding (.deferred ⟨0⟩)).AnswersPlainly evaluate d) ∧
    ∃ v m', (Operation.export ⟨0⟩).performWith evaluate (holding (.deferred ⟨0⟩)) = .ok v m' ∧
      (holding (.deferred ⟨0⟩)).Ran [⟨0⟩] m' ∧ v.Document := by
  have hmem : ⟨0⟩ ∈ (holding (.deferred ⟨0⟩)).forest := by decide +kernel
  have hcontent : ((holding (.deferred ⟨0⟩)).view (.node ⟨0⟩)).content
      = .node [("a", .deferred ⟨0⟩), ("b", .scalar .null)] := rfl
  have hplain : ∀ d ∈ ((holding (.deferred ⟨0⟩)).view (.node ⟨0⟩)).content.deferreds,
      (holding (.deferred ⟨0⟩)).AnswersPlainly evaluate d := by
    rw [hcontent]
    exact List.forall_mem_singleton.mpr (answersPlainly_holding rfl)
  have hkeyed : ((holding (.deferred ⟨0⟩)).view (.node ⟨0⟩)).content.Keyed := by
    rw [hcontent]
    exact .node (List.forall_mem_cons.mpr ⟨fun h ↦ absurd rfl (h ⟨0⟩),
      List.forall_mem_singleton.mpr fun _ ↦ .scalar .null⟩)
  obtain ⟨c, answers, m', hok, _, hran, _, hdocument, hall⟩ :=
    (reachable_holding (.deferred ⟨0⟩)).export_resolved hmem hplain
  rw [hall.mpr hkeyed, hcontent] at hran
  exact ⟨reachable_holding _, hmem, hplain, c.plain, m', hok, hran, hdocument.mpr hkeyed⟩

/-- **A computation in a list is not run**, and is given out in its place. -/
theorem export_leaves_computation : (holding (.list [.deferred ⟨0⟩])).Reachable ∧
    (holding (.list [.deferred ⟨0⟩])).AnswersPlainly evaluate ⟨0⟩ ∧
    (Operation.export ⟨0⟩).performWith evaluate (holding (.list [.deferred ⟨0⟩]))
      = .ok (.mapping [(.text "a", .list [.deferred ⟨0⟩]), (.text "b", .null)])
        (holding (.list [.deferred ⟨0⟩])) :=
  ⟨reachable_holding _, answersPlainly_holding rfl, rfl⟩

end Memory

end LayeredConfig
