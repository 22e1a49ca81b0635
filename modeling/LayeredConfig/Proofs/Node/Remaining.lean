import LayeredConfig.Proofs.Forest.Overlap
import LayeredConfig.Proofs.Node.Carrying
import LayeredConfig.Proofs.Node.Comparing
import LayeredConfig.Proofs.Node.Running

/-!
# Computations stay where they are

Nothing that a computation gives takes its place. Over a run a key keeps what stands under it unless
a write puts something else there (`Memory.Run.kept`): of the changes that there are, making nodes
leaves the nodes that are there alone, and freezing only turns lists into tuples, which
`Forest.held` does not tell apart. What a copy or a merge takes over it takes over as it is, down to
the computations inside lists (`Tree.HoldsAt`).
-/

namespace LayeredConfig

/-! ## What stands under a key -/

theorem Value.fixed_eq_deferred {v : Value} {d : DeferredId} :
    v.fixed = .deferred d ↔ v = .deferred d := by
  cases v with
  | seq kind items =>
    rw [fixed_seq]
    exact iff_of_false nofun nofun
  | _ => rfl

namespace Forest

variable {f g : Forest} {n c : NodeId} {key key' : String} {v : Value} {d : DeferredId}

/-- What stands under a key, be its sequences lists or tuples. -/
def held (f : Forest) (n : NodeId) (key : String) : Option Value :=
  (f.find? n key).map Value.fixed

theorem held_eq_deferred : f.held n key = some (.deferred d) ↔
    f.find? n key = some (.deferred d) := by
  rw [held, Option.map_eq_some_iff]
  constructor
  · rintro ⟨v, hv, hd⟩
    rw [hv, Value.fixed_eq_deferred.mp hd]
  · exact fun h ↦ ⟨_, h, rfl⟩

theorem held_congr (h : g.cell n = f.cell n) (key : String) : g.held n key = f.held n key := by
  rw [held, held, find?_congr h]

/-- Freezing keeps what stands under a key. -/
theorem Sound.held_freeze (hf : f.Sound) (c n : NodeId) (key : String) :
    (f.freeze c).held n key = f.held n key := by
  by_cases h : f.Reaches c n
  · have hfind : (f.freeze c).find? n key = (f.find? n key).map Value.fixed := by
      rw [find?, entries, hf.cell_freeze_of_reaches h, Cell.sealed, Entries.find?_mapValues, find?,
        entries]
    rw [held, hfind, Option.map_map, held]
    exact congrArg (Option.map · _) (funext Value.fixed_fixed)
  · exact held_congr (hf.cell_freeze_of_not_reaches h) key

/-- A write changes only what stands under its own key. -/
theorem Sound.find?_assign_of_ne (hf : f.Sound) (hc : c ∈ f) (h : c = n → key' ≠ key) (v : Value) :
    (after (assign n key v) f).find? c key' = f.find? c key' := by
  cases hn : f.frozen n with
  | true => rw [after_of_error (assign_of_frozen hn key v)]
  | false =>
    rw [after, assign_of_writable hn, ← after]
    by_cases hcn : c = n
    · subst hcn
      exact hf.find?_write_of_ne hc (h rfl) v
    · rcases hf.convert_cases v with ⟨stored, g, heq, _⟩ | ⟨e, heq⟩
      · have hwrite := write_eq_ok heq n key
        rw [after_of_ok hwrite]
        exact find?_congr (hf.cell_write hwrite hc hcn) key'
      · rw [after, write, bind_of_error heq]

end Forest

/-! ## What runs keep -/

namespace Memory

variable {m m' : Memory} {n : NodeId} {key : String}

/-- The key is set, or a value is merged into a node that reaches the one with the key. Merged into
the node itself, the value has the key. -/
inductive Replaces (n : NodeId) (key : String) : Memory → Memory → Prop where
  | set (m : Memory) (v : Value) :
      Replaces n key m (after (Operation.set n (.text key) v).perform m)
  | merge {m : Memory} {c : NodeId} (v : Value) (below : m.forest.Reaches c n)
      (own : c = n → (m.view v).fields.find? key ≠ none) :
      Replaces n key m (after (Operation.merge c v).perform m)

/-- In between, a write put something else in the place of what had stood under the key so far. -/
def Replaced (n : NodeId) (key : String) (m m' : Memory) : Prop :=
  ∃ m₁ m₂, Run m m₁ ∧ m₁.forest.held n key = m.forest.held n key ∧ Replaces n key m₁ m₂ ∧
    m₂.forest.held n key ≠ m.forest.held n key ∧ Run m₂ m'

/-- Over a run, whatever stands under a key stays there unless it is replaced. -/
structure Keeping (m m' : Memory) : Prop where
  run : Run m m'
  kept : m.forest.Sound → ∀ n ∈ m.forest, ∀ key,
    m'.forest.held n key = m.forest.held n key ∨ Replaced n key m m'

instance : IsPreorder Memory Keeping where
  refl _ := ⟨.refl, fun _ _ _ _ ↦ .inl rfl⟩
  trans m m' _ h h' := by
    refine ⟨h.run.trans h'.run, fun hm n hn key ↦ ?_⟩
    have hlater := h.run.follows hm
    rcases h.kept hm n hn key with hkept | ⟨m₁, m₂, hrun, hold, hwrite, hne, hrest⟩
    · rcases h'.kept hlater.sound n (hlater.mem hn) key with
        hkept' | ⟨m₁, m₂, hrun, hold, hwrite, hne, hrest⟩
      · exact .inl (hkept'.trans hkept)
      · exact .inr ⟨m₁, m₂, h.run.trans hrun, hold.trans hkept, hwrite,
          fun heq ↦ hne (heq.trans hkept.symm), hrest⟩
    · exact .inr ⟨m₁, m₂, hrun, hold, hwrite, hne, hrest.trans h'.run⟩

/-- A single write either leaves what stands under the key or replaces it. -/
theorem held_eq_or_replaced (h : Replaces n key m m') :
    m'.forest.held n key = m.forest.held n key ∨ Replaced n key m m' := by
  by_cases hsame : m'.forest.held n key = m.forest.held n key
  · exact .inl hsame
  · exact .inr ⟨m, m', .refl, rfl, h, hsame, .refl⟩

/-- A set keeps all other keys. -/
theorem keeping_assign (n : NodeId) (key : String) (v : Value) :
    Keeps Keeping (onForest (Forest.assign n key v)) := by
  intro m
  refine ⟨Lasting.assign n key v m, fun hm c hc key' ↦ ?_⟩
  by_cases hown : c = n ∧ key' = key
  · obtain ⟨rfl, rfl⟩ := hown
    rw [← after_bind_pure _ fun _ ↦ Value.null]
    exact held_eq_or_replaced (.set m v)
  · refine .inl (congrArg (Option.map Value.fixed) ?_)
    rw [forest_after_onForest]
    exact hm.find?_assign_of_ne hc (not_and.mp hown) v

/-- A merge keeps the nodes that the receiver does not reach, and of the receiver itself the keys
that do not come in. -/
theorem keeping_merge (n : NodeId) (v : Value) :
    Keeps Keeping (onForest (Forest.mergeValue n v)) := by
  intro m
  refine ⟨Lasting.merge n v m, fun hm c hc key ↦ ?_⟩
  by_cases hbelow : m.forest.Reaches n c
  · by_cases hown : n = c → (m.view v).fields.find? key ≠ none
    · rw [← after_bind_pure _ fun _ ↦ Value.node n]
      exact held_eq_or_replaced (.merge v hbelow hown)
    · rw [Classical.not_imp, not_not] at hown
      obtain ⟨rfl, habsent⟩ := hown
      rw [forest_after_onForest]
      exact .inl (congrArg (Option.map Value.fixed) (hm.find?_mergeValue habsent))
  · rw [forest_after_onForest]
    exact .inl (Forest.held_congr ((hm.edited_mergeValue n v).frame hc hbelow) key)

instance : Lasting Keeping where
  assign := keeping_assign
  merge := keeping_merge
  create v m := by
    refine ⟨Lasting.create v m, fun hm c hc key ↦ ?_⟩
    rw [forest_after_onForest]
    -- what is made is new, and a failed conversion changes nothing
    rcases hm.create_cases v with ⟨n, g, hok, hmade⟩ | ⟨e, herror⟩
    · rw [after_of_ok hok]
      exact .inl (Forest.held_congr (hmade.placed.grown.cell_eq hc) key)
    · rw [after_of_error herror]
      exact .inl rfl
  freeze m n := ⟨Lasting.freeze m n, fun hm c _ key ↦ .inl (hm.held_freeze n c key)⟩
  define m c := ⟨Lasting.define m c, fun _ _ _ _ ↦ .inl rfl⟩
  bind m name v := ⟨Lasting.bind m name v, fun _ _ _ _ ↦ .inl rfl⟩
  emit m e := ⟨Lasting.emit m e, fun _ _ _ _ ↦ .inl rfl⟩
  count m d := ⟨Lasting.count m d, fun _ _ _ _ ↦ .inl rfl⟩

/-- **A key keeps what stands under it** unless a write replaces it, whatever else happens. -/
theorem Run.kept (h : Run m m') (hm : m.forest.Sound) (hn : n ∈ m.forest) (key : String) :
    m'.forest.held n key = m.forest.held n key ∨ Replaced n key m m' :=
  (h.lasting (R := Keeping)).kept hm n hn key

end Memory

/-! ## What copies and merges take over -/

namespace Tree

/-- The same stands in this tree at the end of the path, with the same computations in the same
places inside. -/
def HoldsAt (t : Tree) (p : List String) (x : Tree) : Prop :=
  ∃ y, t.at? p = some y ∧ y.content = x.content ∧ ∀ d, x = .deferred d → y = .deferred d

theorem holdsAt_of_content {t x y : Tree} {p : List String} (h : t.at? p = some y)
    (hcontent : y.content = x.content) : t.HoldsAt p x :=
  ⟨y, h, hcontent, fun _ hd ↦ eq_deferred_of_content (hcontent.trans (congrArg content hd))⟩

/-- Trees with the same content hold the same at the end of every path. -/
theorem HoldsAt.of_content {t u x : Tree} {p : List String} (h : u.content = t.content)
    (hx : t.at? p = some x) : u.HoldsAt p x := by
  obtain ⟨y, hy, hcontent⟩ :=
    (@at?_copy (fun t b ↦ t.content = b) id (fun _ _ _ _ ↦ rfl) p _ _ h).2 x hx
  exact holdsAt_of_content hy hcontent

end Tree

namespace Forest

variable {f g : Forest} {n : NodeId} {v : Value}

/-- Merging the value into the node does not write to what comes in before its turn. Of a value that
is no node a new one is made first. -/
def Undisturbed (f : Forest) (n : NodeId) (v : Value) : Prop := ∀ other, v = .node other →
  Tree.orderly (some (f.view (.node n))) (f.view (.node other)) = true

/-- A merge that gets through has not met a frozen receiver. -/
theorem writable_of_mergeValue (hok : mergeValue n v f = .ok () g) : f.frozen n = false := by
  cases hn : f.frozen n with
  | true =>
    rw [mergeValue_of_frozen hn] at hok
    cases hok
  | false => rfl

/-- **A merge takes over** what comes in along a path, unless it is a node, or nothing at all. -/
theorem Sound.holdsAt_of_mergeValue (hf : f.Sound) (hok : mergeValue n v f = .ok () g)
    (h : f.Undisturbed n v) {key : String} {rest : List String} {x : Tree}
    (hx : (f.view v).at? (key :: rest) = some x) (hplain : x.branches? = none)
    (hnull : x ≠ .scalar .null) : (g.view (.node n)).HoldsAt (key :: rest) x := by
  have hn := writable_of_mergeValue hok
  obtain ⟨xs, hxs⟩ : ∃ xs, (f.view v).branches? = some xs := by
    cases hb : (f.view v).branches? with
    | none =>
      rw [Tree.at?_cons_of_none hb] at hx
      cases hx
    | some xs => exact ⟨xs, rfl⟩
  have hsound : g.Sound := by
    have hedited := hf.edited_mergeValue n v
    rw [after_of_ok hok] at hedited
    exact hedited.sound
  rw [hsound.view_eq_fields]
  by_cases hnode : ∃ other, v = .node other
  · obtain ⟨other, rfl⟩ := hnode
    have hmerged := (hf.passed_of_mergeValue hok (h other rfl)).merged
    have hfields : (f.view (.node other)).branches? = some (f.fields other) := by
      rw [hf.view_eq_fields]
      rfl
    obtain ⟨y, hy, hcontent⟩ := (hmerged.at? id (fun _ _ _ _ ↦ rfl) n (g.frozen n) (key :: rest)
      hfields (hf.distinct_view _)).value x hx hplain hnull
    exact Tree.holdsAt_of_content hy hcontent
  · rcases hf.mergeValue_ends_of_node hn fun other hv ↦ absurd ⟨other, hv⟩ hnode with
      ⟨e, _, herror⟩ | hmerged
    · cases hok.symm.trans herror
    · rw [hok, Ends, Tree.fields_of_branches hxs] at hmerged
      obtain ⟨y, hy, hcopy⟩ := (hmerged.at? CopyOf.content CopyOf.parts n (g.frozen n)
        (key :: rest) hxs (hf.distinct_view v)).value x hx hplain hnull
      exact Tree.holdsAt_of_content hy hcopy.content

end Forest

namespace Memory

open Operation (Quiet)

variable {m m' : Memory} {n k : NodeId} {v r : Value} {call : DeferredId → Eval Value}

theorem mergeValue_of_ok (h : (Operation.merge n v).performWith call m = .ok r m') :
    Forest.mergeValue n v m.forest = .ok () m'.forest := by
  obtain ⟨_, _, hmerge, hpure⟩ := bind_eq_ok.mp h
  cases hpure
  cases hg : Forest.mergeValue n v m.forest with
  | ok u g =>
    cases (onForest_of_ok hg).symm.trans hmerge
    rfl
  | error e g => cases (onForest_of_error hg).symm.trans hmerge

/-- **Making a node takes over** whatever stands along a path. -/
theorem holdsAt_of_create (hm : m.forest.Sound)
    (h : (Operation.create v).performWith call m = .ok (.node k) m') {key : String}
    {rest : List String} {x : Tree} (hx : (m.view v).at? (key :: rest) = some x) :
    (m'.view (.node k)).HoldsAt (key :: rest) x := by
  obtain ⟨_, _, hcreate, hpure⟩ := bind_eq_ok.mp h
  cases hpure
  cases hb : (m.view v).branches? with
  | none =>
    rw [Tree.at?_cons_of_none hb] at hx
    cases hx
  | some xs =>
    refine .of_content ?_ hx
    rw [(draft_of_create hm hcreate).content_view, Tree.content_of_branches hb,
      Tree.fields_of_branches hb]

/-- What runs a computation in this memory, and which one. -/
structure RunsWhenRead (m : Memory) : Prop where
  /-- Making a node, setting, looking for and listing keys, merging, freezing, copying and comparing
  run none. -/
  quiet : ∀ op : Operation, op.reads = false → Quiet op m
  /-- Counting keys, asking whether a value is set, and writing it out change nothing. -/
  plain : ∀ n v, (∃ size, Node.length n m = .ok size m) ∧ (∃ b, truthyValue v m = .ok b m) ∧
    ∃ s, quotedValue v m = .ok s m
  /-- Reading a key runs the computation that stands there, and none if there is none. -/
  get : ∀ n key, (∀ d, m.due? n key = some d → ∀ call, Node.getWith call n key m = call d m) ∧
    (m.due? n key = none → Quiet (.get n key) m)
  /-- A step of a reading runs the computation of the pair that it hands out, and none if there is
  none. -/
  step : ∀ c : Cursor, (∀ key d rest, c.pending m.forest = (key, .deferred d) :: rest →
      c.advance m = ((fun v ↦ some (key, v)) <$> evaluate d) m) ∧
    ((∀ key d rest, c.pending m.forest ≠ (key, .deferred d) :: rest) →
      c.advance m = .ok (c.pending m.forest).head? m)
  /-- Asking for a path runs at most one for each of its keys. -/
  present : ∀ call n path, ∃ ds, ds.length ≤ path.length ∧
    Node.Probes call n path ds m (after (Node.presentWith call n path) m)

/-- No computation of this memory gives way to what it gave. -/
structure KeepsComputations (m : Memory) : Prop where
  /-- Whatever happens, what stands under a key stays there unless it is replaced. -/
  kept : ∀ m', Run m m' → ∀ n ∈ m.forest, ∀ key,
    m'.forest.held n key = m.forest.held n key ∧ (∀ d, m.forest.find? n key = some (.deferred d) →
      m'.forest.find? n key = some (.deferred d)) ∨ Replaced n key m m'
  /-- In a frozen tree it is never replaced. -/
  frozen : ∀ m', Run m m' → ∀ n ∈ m.forest, m.forest.frozen n = true → ∀ key,
    m'.forest.find? n key = m.forest.find? n key
  /-- A new node holds what the value holds that it is made of. -/
  create : ∀ call v k m', (Operation.create v).performWith call m = .ok (.node k) m' →
    ∀ key rest x, (m.view v).at? (key :: rest) = some x →
      (m'.view (.node k)).HoldsAt (key :: rest) x
  /-- Every node can be copied, and the copy holds what the node holds. -/
  copy : ∀ call n, ∃ k m', (Operation.copy n).performWith call m = .ok (.node k) m' ∧
    ∀ p x, (m.view (.node n)).at? p = some x → (m'.view (.node k)).HoldsAt p x
  /-- The receiver of a merge holds the computations of the node that came in, whatever the two
  share. -/
  merge : ∀ call n other r m', (Operation.merge n (.node other)).performWith call m = .ok r m' →
    ∀ key d, m.forest.find? other key = some (.deferred d) →
      m'.forest.find? n key = some (.deferred d)
  /-- It also holds what came in further down, if the merge did not write to that before. -/
  mergeBelow : ∀ call n v r m', (Operation.merge n v).performWith call m = .ok r m' →
    m.forest.Undisturbed n v → ∀ key rest x, (m.view v).at? (key :: rest) = some x →
      x.branches? = none → x ≠ .scalar .null → (m'.view (.node n)).HoldsAt (key :: rest) x

theorem runsWhenRead (m : Memory) : m.RunsWhenRead where
  quiet _ h := Operation.quiet_of_not_reads h m
  plain _ _ := ⟨⟨_, rfl⟩, ⟨_, rfl⟩, ⟨_, rfl⟩⟩
  get _ _ := ⟨fun _ h _ ↦ Node.getWith_of_due? h, Node.quiet_get⟩
  step _ := ⟨fun _ _ _ ↦ Cursor.advance_of_deferred, Cursor.advance_of_plain⟩
  present call n path := by
    obtain ⟨ds, hds⟩ : ∃ ds, Node.Probes call n path ds m _ := Node.probes_presentWith path n m
    exact ⟨ds, hds.length_le, hds⟩

theorem keepsComputations (hm : m.forest.Sound) : m.KeepsComputations where
  kept m' hrun n hn key := by
    refine (hrun.kept hm hn key).imp_left fun hkept ↦ ⟨hkept, fun d hd ↦ ?_⟩
    rw [← Forest.held_eq_deferred, hkept, Forest.held_eq_deferred, hd]
  frozen m' hrun n hn hfrozen key := Forest.find?_congr ((hrun.follows hm).frozen hn hfrozen) key
  create _ _ _ _ h _ _ _ := holdsAt_of_create hm h
  copy call n := by
    obtain ⟨k, m', hok, hdraft⟩ := draft_of_copy hm n call
    refine ⟨k, m', hok, fun p x ↦ .of_content ?_⟩
    rw [hdraft.content_view, content_eq_fields hm]
  merge _ _ _ _ _ h _ _ hd := hm.find?_mergeValue_deferred hd (mergeValue_of_ok h)
  mergeBelow _ _ _ _ _ h hcalm _ _ _ := hm.holdsAt_of_mergeValue (mergeValue_of_ok h) hcalm

/-- **Computations run when they are read**, and only then, and what they give is never kept.

Of the operations only those that read run computations, each the one that stands under the key that
is read. In between a computation stays where it was stored, frozen or not, until a set or a merge
replaces it, and copies and merges hand on the very same one. -/
theorem Reachable.running (hm : m.Reachable) : m.RunsWhenRead ∧ m.KeepsComputations :=
  ⟨runsWhenRead m, keepsComputations hm.sound⟩

/-- A frozen node with the same computation under a key, in a node below, and in a list. -/
def lazyMemory : Memory :=
  let source : Value := .mapping [(.text "a", .deferred ⟨0⟩),
    (.text "b", .mapping [(.text "c", .deferred ⟨0⟩)]), (.text "l", .list [.deferred ⟨0⟩])]
  let made := after ((Operation.create source).performWith (evaluateWithin 0))
    (define default (.counting "n")).2
  { made with forest := made.forest.freeze ⟨0⟩ }

theorem reachable_lazyMemory : lazyMemory.Reachable := by
  have hdefined : Reachable (define default (.counting "n")).2 := .single (.define _ _)
  exact (hdefined.tail (.operation _ _ 0)).tail (.operation _ (.freeze ⟨0⟩) 0)

/-- Reading the key runs the computation each time, and the list of a copy holds it as well. -/
theorem running_sample : lazyMemory.Reachable ∧
    (∀ m', Run lazyMemory m' → ∀ call, Node.getWith call ⟨0⟩ (.text "a") m' = call ⟨0⟩ m') ∧
    ∃ k m', (Operation.copy ⟨0⟩).performWith evaluate lazyMemory = .ok (.node k) m' ∧
      (m'.view (.node k)).HoldsAt ["b", "c"] (.deferred ⟨0⟩) ∧
      (m'.view (.node k)).HoldsAt ["l"] (.seq .tuple [.deferred ⟨0⟩]) := by
  have hm := reachable_lazyMemory
  refine ⟨hm, fun m' hrun call ↦ ?_, ?_⟩
  · have hkept := hm.running.2.frozen m' hrun ⟨0⟩ (by decide +kernel) (by decide +kernel) "a"
    exact (Reachable.running (hm.trans hrun)).1.get ⟨0⟩ (.text "a") |>.1 ⟨0⟩
      (due?_eq_some.mpr (hkept.trans rfl)) call
  · obtain ⟨k, m', hok, hholds⟩ := hm.running.2.copy evaluate ⟨0⟩
    exact ⟨k, m', hok, hholds ["b", "c"] _ rfl, hholds ["l"] _ rfl⟩

end Memory

end LayeredConfig
