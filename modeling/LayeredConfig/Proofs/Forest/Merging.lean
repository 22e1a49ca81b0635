import LayeredConfig.Proofs.Forest.Refusing
import LayeredConfig.Proofs.Tree.Merging

/-!
# Merging nodes

A merge of one node into another that shares no node with it, as it runs in a forest, makes of the
receiver's tree what `Tree.Merged` says if it gets through, and what `Tree.Halted` says if it is
refused (`Forest.Ends`). Nothing below the receiver being frozen, it always gets through.

The two sides descend together, so that it is the incoming node whose height the levels have to
cover. It does not change while the receiver does, and neither do those parts of the receiver that
the merge has not come to yet.
-/

namespace LayeredConfig

namespace Forest

variable {f f₀ g : Forest} {n m a c other : NodeId} {key : String} {v : Value}

/-- What a node holds, as trees. -/
def fields (f : Forest) (n : NodeId) : Entries Tree := (f.entries n).mapValues f.view

theorem Sound.view_eq_fields (hf : f.Sound) (n : NodeId) :
    f.view (.node n) = .node n (f.frozen n) (f.fields n) := hf.view_node n

theorem find?_fields (f : Forest) (n : NodeId) (key : String) :
    (f.fields n).find? key = (f.find? n key).map f.view := Entries.find?_mapValues _ _ _

theorem find?_fields_of_find? (h : f.find? n key = some v) :
    (f.fields n).find? key = some (f.view v) := by rw [find?_fields, h, Option.map_some]

theorem Sound.find?_fields_of_node (hf : f.Sound) (h : f.find? n key = some (.node a)) :
    (f.fields n).find? key = some (.node a (f.frozen a) (f.fields a)) := by
  rw [find?_fields_of_find? h, hf.view_eq_fields]

/-! ## Copies -/

/-- The tree was made for the blueprint after the forest `f`: its nodes are new, it can be written
to, and it holds what the blueprint says. -/
structure CopyOf (f : Forest) (t : Tree) (b : Blueprint) : Prop where
  content : t.content = b
  writable : t.Writable
  new : ∀ c ∈ t.nodes, c ∉ f

theorem CopyOf.parts {t : Tree} {b : Blueprint} {fields : Entries Tree} (h : CopyOf f t b)
    (hb : t.branches? = some fields) : ∀ e ∈ fields, CopyOf f e.2 e.2.content := by
  intro e he
  obtain ⟨id, rfl, hall⟩ := h.writable.eq_node hb
  refine ⟨rfl, hall e he, fun c hc ↦ h.new c ?_⟩
  rw [Tree.nodes_node]
  exact List.mem_cons_of_mem _ (List.mem_flatMap.mpr ⟨e, he, hc⟩)

/-- A stored value is all frozen, or all open, if the nodes that it reaches are. -/
theorem Sound.standing_view (hf : f.Sound) {frozen : Bool}
    (hv : v.Uniform (if frozen then .tuple else .list))
    (h : ∀ a ∈ v.nodes, ∀ c, f.Reaches a c → f.frozen c = frozen) :
    (f.view v).Standing frozen := by
  -- sequences first, for values whose nodes are already known to be of the kind
  have key : ∀ {v : Value}, v.Uniform (if frozen then .tuple else .list) →
      (∀ a ∈ v.nodes, (f.view (.node a)).Standing frozen) → (f.view v).Standing frozen := by
    intro v hv
    induction hv with
    | scalar s => exact fun _ ↦ .scalar s
    | @seq items _ ih =>
      intro h
      rw [view_seq]
      refine .seq fun t ht ↦ ?_
      obtain ⟨w, hw, rfl⟩ := List.mem_map.mp ht
      refine ih w hw fun a ha ↦ h a ?_
      rw [Value.nodes_seq]
      exact List.mem_flatMap.mpr ⟨w, hw, ha⟩
    | set items => exact fun _ ↦ .set items
    | node id => exact fun h ↦ h id List.mem_cons_self
    | deferred id => exact fun _ ↦ .deferred id
  have hnode : ∀ a, (∀ c, f.Reaches a c → f.frozen c = frozen) →
      (f.view (.node a)).Standing frozen := by
    intro a
    induction a using hf.node_induction with
    | h n ih =>
      intro hn
      have hz := hn n (.refl f n)
      rw [hf.view_node, hz]
      refine .node n fun e he ↦ ?_
      obtain ⟨w, hw, rfl⟩ := List.mem_map.mp he
      have huniform := hf.uniform n w hw
      rw [hz] at huniform
      refine key huniform fun a ha ↦ ?_
      have hchild : a ∈ f.children n := List.mem_flatMap.mpr ⟨w, hw, ha⟩
      exact ih a hchild fun c hc ↦ hn c (.head hchild hc)
  exact key hv fun a ha ↦ hnode a (h a ha)

/-- A stored value can be written to if all nodes that it reaches can. -/
theorem Sound.writable_view (hf : f.Sound) (hv : v.Uniform .list)
    (h : ∀ a ∈ v.nodes, ∀ c, f.Reaches a c → f.frozen c = false) : (f.view v).Writable :=
  Tree.Standing.writable (hf.standing_view hv h)

/-- A frozen node is frozen to its leaves. -/
theorem Sound.standing_of_frozen (hf : f.Sound) (hn : f.frozen n = true) :
    (f.view (.node n)).Standing true := by
  refine hf.standing_view (.node n) fun a ha c hc ↦ ?_
  rw [List.mem_singleton.mp ha] at hc
  exact hf.frozen_of_reaches hn hc

theorem Made.copyOf {b : Blueprint} (h : Made f b v g) : CopyOf f (g.view v) b := by
  have hnew : ∀ a ∈ v.nodes, ∀ c, g.Reaches a c → c ∉ f := by
    intro a ha c hc hcf
    have hle := h.placed.sound.index_le_of_reaches hc
    exact h.placed.new a ha (Nat.lt_of_le_of_lt hle hcf)
  refine ⟨h.content, h.placed.sound.writable_view h.uniform fun a ha c hc ↦ ?_, fun c hc ↦ ?_⟩
  · exact h.placed.writable (h.placed.sound.mem_of_reaches (h.placed.mem a ha) hc) (hnew a ha c hc)
  · obtain ⟨a, ha, hac⟩ := mem_nodes_view.mp hc
    exact hnew a ha c ((h.placed.sound.mem_nodes_view_node a).mp hac)

theorem CopyOf.older {t : Tree} {b : Blueprint} (h : CopyOf f t b)
    (hle : f₀.cells.size ≤ f.cells.size) : CopyOf f₀ t b :=
  ⟨h.content, h.writable, fun c hc hcf ↦ h.new c hc (Nat.lt_of_lt_of_le hcf hle)⟩

/-! ## Height -/

/-- The tree of the node has at most the given number of levels below it that hold anything. -/
def Within (f : Forest) : ℕ → NodeId → Prop
  | 0, n => f.entries n = []
  | levels + 1, n => ∀ c ∈ f.children n, f.Within levels c

theorem Sound.within (hf : f.Sound) {levels : ℕ} (h : f.cells.size ≤ levels + n.index) :
    f.Within levels n := by
  induction levels generalizing n with
  | zero => exact entries_of_notMem (by rw [mem_iff]; omega)
  | succ levels ih =>
    intro c hc
    have := (hf.younger hc).1
    exact ih (by omega)

theorem Within.congr {levels : ℕ} (h : f.Within levels n)
    (hcell : ∀ c, f.Reaches n c → g.cell c = f.cell c) : g.Within levels n := by
  induction levels generalizing n with
  | zero =>
    rw [Within, entries, hcell n (.refl f n)]
    exact h
  | succ levels ih =>
    intro c hc
    rw [children_congr (hcell n (.refl f n))] at hc
    exact ih (h c hc) fun d hd ↦ hcell d (.head hc hd)

/-! ## What comes in -/

/-- A stored value that shares no node with the tree of `n`, and whose nodes have at most the given
height. -/
structure Incoming (f : Forest) (levels : ℕ) (n : NodeId) (v : Value) : Prop where
  uniform : ∃ kind, v.Uniform kind
  mem : ∀ a ∈ v.nodes, a ∈ f
  within : ∀ a ∈ v.nodes, f.Within levels a
  apart : ∀ a ∈ v.nodes, ∀ c, f.Reaches a c → ¬f.Reaches n c

/-- A write below `n` does not touch what comes in. -/
theorem Incoming.edited {levels : ℕ} (h : Incoming f levels n v) (hf : f.Sound)
    (hfg : Edited n f g) : Incoming g levels n v ∧ g.view v = f.view v := by
  have hcell : ∀ a ∈ v.nodes, ∀ c, f.Reaches a c → g.cell c = f.cell c := fun a ha c hc ↦
    hfg.frame (hf.mem_of_reaches (h.mem a ha) hc) (h.apart a ha c hc)
  -- in the new forest as well it leads only where it led before
  have hback : ∀ a ∈ v.nodes, ∀ c, g.Reaches a c → f.Reaches a c := by
    intro a ha c hc
    induction hc with
    | refl => exact .refl f a
    | tail _ hd ih => exact ih.tail (children_congr (hcell a ha _ ih) ▸ hd)
  refine ⟨⟨h.uniform, fun a ha ↦ hfg.mem (h.mem a ha),
    fun a ha ↦ (h.within a ha).congr (hcell a ha), fun a ha c hc hn ↦ ?_⟩,
    hf.view_congr hfg.sound hcell⟩
  have hfc := hback a ha c hc
  exact h.apart a ha c hfc (hfg.reaches (hf.mem_of_reaches (h.mem a ha) hfc) hn)

/-- Nothing below a node is frozen. -/
def Open (f : Forest) (n : NodeId) : Prop := ∀ c, f.Reaches n c → f.frozen c = false

theorem Sound.open_of_nodes (hf : f.Sound)
    (h : ∀ c ∈ (f.view (.node n)).nodes, f.frozen c = false) : f.Open n :=
  fun c hc ↦ h c ((hf.mem_nodes_view_node n).mpr hc)

theorem Open.edited (h : Open f n) (hfg : Edited n f g) : Open g n := by
  have hn := h n (.refl f n)
  have hmem := mem_of_frozen_eq_false hn
  intro c hc
  by_cases hcf : c ∈ f
  · rw [hfg.frozen_eq hcf]
    exact h c (hfg.reaches hcf hc)
  · exact hfg.writable (hfg.sound.mem_of_reaches (hfg.mem hmem) hc) hcf

theorem branches_view_of_uniform {kind : SeqKind} (hv : v.Uniform kind)
    (hnode : ∀ a, v ≠ .node a) : (f.view v).branches? = none := by
  cases hv with
  | node id => exact absurd rfl (hnode id)
  | @seq items _ =>
    rw [view_seq]
    rfl
  | _ => rfl

/-! ## One key -/

/-- **Writing a value** puts a copy of it under the key, and leaves the other keys alone. -/
theorem Sound.write_fields (hf : f.Sound) (hn : f.frozen n = false)
    (hv : (f.view v).WellKeyed) (key : String) :
    ∃ g t, write n key v f = .ok () g ∧ g.fields n = (f.fields n).put key t ∧
      CopyOf f t (f.view v).content := by
  obtain ⟨stored, g, heq, hmade⟩ := hf.convert_of_wellKeyed hv
  have hmem := mem_of_frozen_eq_false hn
  have hsound := hmade.sound_store hn key
  have hnew : ∀ a ∈ stored.nodes, ¬g.Reaches a n := fun a ha hr ↦
    hmade.placed.new a ha (Nat.lt_of_le_of_lt (hmade.placed.sound.index_le_of_reaches hr) hmem)
  -- the copy does not reach `n`, and what `n` held before does not either
  have hview : (g.store n key stored).view stored = g.view stored := by
    rw [store_eq_setEntries] at hsound ⊢
    exact hmade.placed.sound.view_setEntries hsound hnew
  have hkept : ∀ e ∈ f.entries n, (g.store n key stored).view e.2 = f.view e.2 := by
    intro e he
    have hchild : ∀ a ∈ e.2.nodes, a ∈ f.children n := fun a ha ↦
      List.mem_flatMap.mpr ⟨e, he, ha⟩
    rw [← hmade.placed.grown.view_eq hf hmade.placed.sound fun a ha ↦
      (hf.younger (hchild a ha)).2]
    rw [store_eq_setEntries] at hsound ⊢
    refine hmade.placed.sound.view_setEntries hsound fun a ha ↦ ?_
    refine hmade.placed.sound.not_reaches_of_mem_children ?_
    rw [hmade.placed.grown.children_eq hmem]
    exact hchild a ha
  have hentries : (g.store n key stored).entries n = (f.entries n).put key stored := by
    rw [entries_store_self (hmade.placed.grown.mem hmem), entries, entries,
      hmade.placed.grown.cell_eq hmem]
  refine ⟨_, g.view stored, write_eq_ok heq n key, ?_, hmade.copyOf⟩
  rw [fields, hentries, Entries.mapValues_put, hview, Entries.mapValues_congr hkept]
  rfl

/-- If of all that a node reaches only what is reached from the value of a key has changed, then
only that key leads to something else. -/
theorem Sound.fields_eq_put (hf : f.Sound) (hg : g.Sound) (h : f.find? n key = some v)
    (hframe : ∀ c, f.Reaches n c → (∀ a ∈ v.nodes, ¬f.Reaches a c) → g.cell c = f.cell c) :
    g.fields n = (f.fields n).put key (g.view v) := by
  have hmem := Entries.mem_of_find? h
  have hcell : g.cell n = f.cell n := hframe n (.refl f n) fun a ha ↦
    hf.not_reaches_of_mem_children (mem_children_of_find? h ha)
  have hothers : ∀ e ∈ f.entries n, e.1 ≠ key → g.view e.2 = f.view e.2 := by
    intro e he hne
    refine hf.view_congr hg fun x hx c hxc ↦ ?_
    have hchild : x ∈ f.children n := List.mem_flatMap.mpr ⟨e, he, hx⟩
    refine hframe c (.head hchild hxc) fun a ha hac ↦ ?_
    -- what stands under another key is another node, and the two reach nothing in common
    have hxa : x ≠ a := fun heq ↦ hne (congrArg Prod.fst (hf.entry_eq he hmem hx (heq ▸ ha)))
    exact hf.not_reaches_of_ne hchild (mem_children_of_find? h ha) hxa hxc hac
  have hentries : g.entries n = f.entries n := by rw [entries, hcell, ← entries]
  rw [fields, hentries, Entries.mapValues_eq_put (hf.distinct n) h hothers]
  rfl

/-- Writing into a node that stands under a key changes what stands under that key only. -/
theorem Sound.fields_of_edited_child (hf : f.Sound) (h : f.find? n key = some (.node a))
    (hfg : Edited a f g) :
    g.fields n = (f.fields n).put key (.node a (f.frozen a) (g.fields a)) := by
  have hchild := mem_children_of_find? h List.mem_cons_self
  have hframe : ∀ c, f.Reaches n c → (∀ b ∈ (Value.node a).nodes, ¬f.Reaches b c) →
      g.cell c = f.cell c := fun c hc hac ↦
    hfg.frame (hf.mem_of_reaches (mem_of_mem_children hchild) hc) (hac a List.mem_cons_self)
  rw [hf.fields_eq_put hfg.sound h hframe, hfg.sound.view_eq_fields,
    hfg.frozen_eq (hf.younger hchild).2]

/-- **How a merge may end** that started in `f`: it has gone through the content that came in, or
it was refused, at the node itself or below. The copies are those made after `f₀`. -/
def Ends (f₀ f : Forest) (n : NodeId) (incoming : Entries Blueprint) :
    EStateM.Result ConfigurationError Forest Unit → Prop
  | .ok _ g => Tree.Merged (CopyOf f₀) (f.fields n) incoming (g.fields n)
  | .error _ g => f.frozen n = true ∧ g = f ∨
      f.frozen n = false ∧ Tree.Halted (CopyOf f₀) (f.fields n) incoming (g.fields n)

/-- What is known of merges that go down the given number of levels, in forests that have all nodes
of `f₀`. -/
def MergesTo (f₀ : Forest) (levels : ℕ) (sub : NodeId → NodeId → ForestM Unit) : Prop :=
  ∀ {f : Forest} {n other : NodeId}, f.Sound → f₀.cells.size ≤ f.cells.size →
    (∀ c, f.Reaches other c → ¬f.Reaches n c) → f.Within levels other →
    Edited n f (after (sub n other) f) ∧
      Ends f₀ f n ((f.fields other).mapValues Tree.content) (sub n other f)

/-- Unless both sides hold a node, or nothing meets a node, their trees do not merge either. -/
theorem Sound.replaces {kind : SeqKind} (hf : f.Sound) (hv : v.Uniform kind)
    (h : ∀ a, f.find? n key = some (.node a) → v ≠ .null ∧ ∀ b, v ≠ .node b) :
    ((f.find? n key).map f.view).bind Tree.branches? = none ∨
      (f.view v).content ≠ .scalar .null ∧ ∀ sub, (f.view v).content ≠ .node sub := by
  by_cases hnode : ∃ a, f.find? n key = some (.node a)
  · obtain ⟨a, ha⟩ := hnode
    have hplain : (f.view v).branches? = none := branches_view_of_uniform hv (h a ha).2
    refine .inr ⟨fun hc ↦ (h a ha).1 ?_, fun fields hc ↦ ?_⟩
    · exact hf.eq_scalar_of_view (Tree.eq_scalar_of_content hc)
    · obtain ⟨branches, hbranches, _⟩ := Tree.branches_of_content hc
      rw [hplain] at hbranches
      cases hbranches
  · refine .inl ?_
    cases hfind : f.find? n key with
    | none => rfl
    | some w =>
      have hw := hf.uniform n (key, w) (Entries.mem_of_find? hfind)
      exact branches_view_of_uniform hw fun a hwa ↦ hnode ⟨a, hwa ▸ hfind⟩

/-- What a step of a merge leaves when it gets through: under its key stands what
`Tree.MergedAt` says. When it is refused, the whole merge is, whatever was still to come in. -/
def StepEnds (f₀ f : Forest) (n : NodeId) (key : String) (b : Blueprint) :
    EStateM.Result ConfigurationError Forest Unit → Prop
  | .ok _ g => ∃ t, g.fields n = (f.fields n).put key t ∧
      Tree.MergedAt (CopyOf f₀) ((f.fields n).find? key) b t
  | .error _ g => ∀ rest, Tree.Halted (CopyOf f₀) (f.fields n) ((key, b) :: rest) (g.fields n)

/-- A step that goes down ends as the merge below does. -/
theorem Sound.stepEnds_of_ends (hf : f.Sound) (ha : f.find? n key = some (.node a))
    {incoming : Entries Blueprint} {r : EStateM.Result ConfigurationError Forest Unit}
    (hedited : ∀ g, (∃ u, r = .ok u g) ∨ (∃ e, r = .error e g) → Edited a f g)
    (h : Ends f₀ f a incoming r) : StepEnds f₀ f n key (.node incoming) r := by
  have hold := hf.find?_fields_of_node ha
  cases r with
  | ok u g =>
    refine ⟨_, hf.fields_of_edited_child ha (hedited g (.inl ⟨u, rfl⟩)), ?_⟩
    rw [hold]
    exact .descend a (f.frozen a) h
  | error e g =>
    intro rest
    rcases h with ⟨hfrozen, rfl⟩ | ⟨hopen, hhalted⟩
    · rw [hfrozen] at hold
      exact .here (.done _) hold
    · rw [hf.fields_of_edited_child ha (hedited g (.inr ⟨e, rfl⟩))]
      rw [hopen] at hold ⊢
      exact .inside (.done _) hold hhalted

/-- **One step of a merge.** -/
theorem Sound.mergeEntry_ends {levels : ℕ} {sub : NodeId → NodeId → ForestM Unit}
    (hsub : MergesTo f₀ levels sub) (hf : f.Sound) (hle : f₀.cells.size ≤ f.cells.size)
    (hn : f.frozen n = false) (key : String) (hin : Incoming f levels n v) :
    Edited n f (after (mergeEntry sub n key v) f) ∧
      StepEnds f₀ f n key (f.view v).content (mergeEntry sub n key v f) := by
  obtain ⟨kind, huniform⟩ := hin.uniform
  -- each of the three ways has its own constructor of `MergedAt`
  rcases entry_cases f n key v with ⟨a, b, ha, rfl⟩ | ⟨a, ha, rfl⟩ | hreplace
  · have hreach := reaches_of_find? ha
    obtain ⟨hedited, hends⟩ := hsub hf hle
      (fun c hc hac ↦ hin.apart b List.mem_cons_self c hc (hreach.trans hac))
      (hin.within b List.mem_cons_self)
    rw [after, mergeEntry_descend ha, ← after, hf.view_eq_fields, Tree.content_node]
    refine ⟨hedited.mono hreach, hf.stepEnds_of_ends ha (fun g hr ↦ ?_) hends⟩
    rcases hr with ⟨u, hok⟩ | ⟨e, herror⟩
    · rwa [after_of_ok hok] at hedited
    · rwa [after_of_error herror] at hedited
  · have hold := find?_fields_of_find? ha
    rw [after_of_ok (mergeEntry_keep ha), mergeEntry_keep ha]
    refine ⟨.refl hf n, _, (Entries.put_of_find? hold).symm, ?_⟩
    rw [hold, hf.view_eq_fields]
    exact .keep a (f.frozen a) (f.fields a)
  · obtain ⟨g, t, hok, hfields, hcopy⟩ :=
      hf.write_fields hn (hf.wellKeyed_view huniform) key
    have hedited := hf.edited_write hn key v
    rw [after, mergeEntry_replace hreplace, ← after]
    refine ⟨hedited, ?_⟩
    rw [hok]
    refine ⟨t, hfields, .replace ?_ (hcopy.older hle)⟩
    rw [find?_fields]
    exact hf.replaces huniform hreplace

theorem Sound.mergeEntries_ends {levels : ℕ} {sub : NodeId → NodeId → ForestM Unit}
    (hsub : MergesTo f₀ levels sub) (incoming : Entries Value) {f : Forest} (hf : f.Sound)
    (hle : f₀.cells.size ≤ f.cells.size) (hn : f.frozen n = false)
    (hin : ∀ e ∈ incoming, Incoming f levels n e.2) :
    Edited n f (after (mergeEntries sub n incoming) f) ∧
      Ends f₀ f n (incoming.mapValues fun v ↦ (f.view v).content)
        (mergeEntries sub n incoming f) := by
  induction incoming generalizing f with
  | nil => exact ⟨.refl hf n, .done _⟩
  | cons e rest ih =>
    obtain ⟨key, v⟩ := e
    obtain ⟨hfg, hends⟩ := hf.mergeEntry_ends hsub hle hn key (hin (key, v) List.mem_cons_self)
    rw [after, mergeEntries, Entries.mapValues_cons]
    cases heq : mergeEntry sub n key v f with
    | error e g =>
      rw [after_of_error heq] at hfg
      rw [heq] at hends
      rw [bind_of_error heq]
      exact ⟨hfg, .inr ⟨hn, hends _⟩⟩
    | ok u g =>
      rw [after_of_ok heq] at hfg
      rw [heq] at hends
      obtain ⟨t, hfields, hat⟩ := hends
      -- the rest still comes in from outside, and looks as it did before the step
      have hrest : ∀ e ∈ rest, Incoming g levels n e.2 ∧ g.view e.2 = f.view e.2 := fun e he ↦
        (hin e (List.mem_cons_of_mem _ he)).edited hf hfg
      have hviews : Entries.mapValues (fun v ↦ (g.view v).content) rest
          = Entries.mapValues (fun v ↦ (f.view v).content) rest :=
        Entries.mapValues_congr fun e he ↦ congrArg Tree.content (hrest e he).2
      have hopen : g.frozen n = false := by rw [hfg.frozen_eq (mem_of_frozen_eq_false hn), hn]
      obtain ⟨hgh, hfinal⟩ := ih hfg.sound (Nat.le_trans hle hfg.size_le) hopen
        fun e he ↦ (hrest e he).1
      rw [hviews] at hfinal
      rw [bind_of_ok heq, ← after]
      refine ⟨hfg.trans hgh, ?_⟩
      cases hr : mergeEntries sub n rest g with
      | ok u h =>
        rw [hr, Ends, hfields] at hfinal
        exact .step hat hfinal
      | error e h =>
        rw [hr, Ends, hfields, hopen] at hfinal
        exact .inr ⟨hn, .step hat (hfinal.resolve_left fun hc ↦ by cases hc.1).2⟩

/-- **A merge of nodes** ends as `Ends` says. -/
theorem mergesTo_mergeLevels (f₀ : Forest) (levels : ℕ) :
    MergesTo f₀ levels (mergeLevels levels) := by
  induction levels with
  | zero =>
    intro f n other hf _ _ hwithin
    refine ⟨.refl hf n, ?_⟩
    rw [fields, hwithin]
    exact .done _
  | succ levels ih =>
    intro f n other hf hle hapart hwithin
    cases hn : f.frozen n with
    | true =>
      rw [after_of_error (mergeLevels_of_frozen hn levels other), mergeLevels_of_frozen hn]
      exact ⟨.refl hf n, .inl ⟨hn, rfl⟩⟩
    | false =>
      have hchild : ∀ e ∈ f.entries other, ∀ a ∈ e.2.nodes, a ∈ f.children other :=
        fun e he a ha ↦ List.mem_flatMap.mpr ⟨e, he, ha⟩
      have hends := hf.mergeEntries_ends ih (f.entries other) hle hn
        fun e he ↦ ⟨⟨_, hf.uniform other e he⟩, fun a ha ↦ (hf.younger (hchild e he a ha)).2,
          fun a ha ↦ hwithin a (hchild e he a ha),
          fun a ha c hc ↦ hapart c (.head (hchild e he a ha) hc)⟩
      have hcontent : (f.fields other).mapValues Tree.content
          = (f.entries other).mapValues fun v ↦ (f.view v).content :=
        Entries.mapValues_mapValues _ _ _
      rw [after, mergeLevels_of_writable hn, ← after, hcontent]
      exact hends

/-- **A merge of a value** into a node that is not frozen. If the value is a node, the two share no
node; of any other value a new node is made first. A value that no node can be made of changes
nothing. -/
theorem Sound.mergeValue_ends_of_node (hf : f.Sound) (hn : f.frozen n = false)
    (hapart : ∀ other, v = .node other → ∀ c, f.Reaches other c → ¬f.Reaches n c) :
    (∃ e, create v f = .error e f ∧ mergeValue n v f = .error e f) ∨
      Ends f f n (f.view v).fields (mergeValue n v f) := by
  have hmem := mem_of_frozen_eq_false hn
  by_cases hnull : v = .null
  · rw [hnull, mergeValue_null hn]
    exact .inr (.done _)
  by_cases hnode : ∃ other, v = .node other
  · obtain ⟨other, rfl⟩ := hnode
    rw [mergeValue_node hn, merge_eq, hf.view_eq_fields]
    exact .inr (mergesTo_mergeLevels f f.cells.size hf (Nat.le_refl _) (hapart other rfl)
      (hf.within (Nat.le_add_right _ _))).2
  rw [mergeValue_of_ne hn hnull fun other h ↦ hnode ⟨other, h⟩]
  rcases hf.create_cases v with ⟨o, g, hok, hmade⟩ | ⟨e, herror⟩
  · -- the node that is made shares nothing with the receiver, which has not changed
    have hext := hmade.placed.grown
    have hsound := hmade.placed.sound
    have hnew : ∀ c, g.Reaches o c → ¬g.Reaches n c := by
      intro c hoc hnc
      have hcf := hf.mem_of_reaches hmem (hext.reaches hf hmem hnc)
      have hle := hsound.index_le_of_reaches hoc
      exact hmade.placed.new o List.mem_cons_self (Nat.lt_of_le_of_lt hle hcf)
    have hends := (mergesTo_mergeLevels f g.cells.size hsound hext.size_le hnew
      (hsound.within (Nat.le_add_right _ _))).2
    have hview : g.view (.node n) = f.view (.node n) := hext.view_eq hf hsound fun a ha ↦ by
      rwa [List.mem_singleton.mp ha]
    rw [hsound.view_eq_fields, hf.view_eq_fields] at hview
    injection hview with _ hfrozen hfields
    have hcontent := hmade.content
    rw [hsound.view_eq_fields, Tree.content_node] at hcontent
    rw [bind_of_ok hok, merge_eq, ← Blueprint.node.inj hcontent]
    refine .inr ?_
    cases hr : mergeLevels g.cells.size n o g with
    | ok u h =>
      rw [hr, Ends, hfields] at hends
      exact hends
    | error e h =>
      rw [hr, Ends, hfields, hfrozen, hn] at hends
      exact .inr ⟨hn, (hends.resolve_left fun hc ↦ by cases hc.1).2⟩
  · exact .inl ⟨e, herror, bind_of_error herror⟩

/-- A value that shares no node with the receiver. -/
theorem Sound.mergeValue_ends (hf : f.Sound) (hn : f.frozen n = false)
    (hapart : ∀ c ∈ (f.view v).nodes, ¬f.Reaches n c) :
    (∃ e, create v f = .error e f ∧ mergeValue n v f = .error e f) ∨
      Ends f f n (f.view v).fields (mergeValue n v f) := by
  refine hf.mergeValue_ends_of_node hn ?_
  rintro other rfl c hc
  exact hapart c ((hf.mem_nodes_view_node other).mpr hc)

/-- **A merge of a node or a mapping** into a node that reaches nothing frozen gets through. -/
theorem Sound.mergeValue_ok (hf : f.Sound) (hopen : f.Open n) {xs : Entries Tree}
    (hxs : (f.view v).branches? = some xs) (hkeyed : (f.view v).WellKeyed) :
    ∃ g, mergeValue n v f = .ok () g := by
  cases hr : mergeValue n v f with
  | ok u g => exact ⟨g, rfl⟩
  | error e g =>
    -- nothing is there that could refuse
    rcases hf.mergeValue_error hr with ⟨_, hz | he⟩ | ⟨_, hrefused⟩
    · cases (hopen n (.refl f n)).symm.trans hz
    · obtain ⟨o, g, hok, _⟩ := create_of_nodeBlueprint
        (Tree.nodeBlueprint_of_content hkeyed (Tree.content_of_branches hxs)) hf
      cases hok.symm.trans he
    · obtain ⟨c, hc, hz⟩ := hrefused.frozen
      cases (hopen c hc).symm.trans hz

/-- If the two share no node, it merges their contents. -/
theorem Sound.mergeValue_merged (hf : f.Sound) (hopen : f.Open n) {xs : Entries Tree}
    (hxs : (f.view v).branches? = some xs) (hkeyed : (f.view v).WellKeyed)
    (hapart : ∀ c ∈ (f.view v).nodes, ¬f.Reaches n c) :
    ∃ g, mergeValue n v f = .ok () g ∧ Edited n f g ∧
      Tree.Merged (CopyOf f) (f.fields n) (xs.mapValues Tree.content) (g.fields n) := by
  obtain ⟨g, hok⟩ := hf.mergeValue_ok hopen hxs hkeyed
  have hedited := hf.edited_mergeValue n v
  rw [after_of_ok hok] at hedited
  rcases hf.mergeValue_ends (hopen n (.refl f n)) hapart with ⟨e, _, herror⟩ | hends
  · cases hok.symm.trans herror
  · rw [hok, Tree.fields_of_branches hxs] at hends
    exact ⟨g, hok, hedited, hends⟩

end Forest

end LayeredConfig
