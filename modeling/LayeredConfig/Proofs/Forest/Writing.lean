import LayeredConfig.Proofs.Forest.Placement
import LayeredConfig.Proofs.Outcome

/-!
# Writing to a forest

What every operation that writes does to the nodes that were there before, whether it succeeds or
fails. `Later f g` is what holds between any two states of a run: frozen nodes stay what they are,
and a node is never held by a node that did not hold it before. `Written n f g` adds the frame: of
the nodes that were there only those that `n` reaches have changed. `Edited n f g` adds that
nothing was frozen. All three pass from step to step.
-/

namespace LayeredConfig

namespace Forest

variable {f g h : Forest} {n m c : NodeId} {key : String} {v : Value}

/-- The forest `g` may arise from `f` by any number of operations. -/
structure Later (f g : Forest) : Prop where
  sound : g.Sound
  size_le : f.cells.size ≤ g.cells.size
  frozen : ∀ {c}, c ∈ f → f.frozen c = true → g.cell c = f.cell c
  adopt : ∀ {n c}, c ∈ f → c ∈ g.children n → c ∈ f.children n

/-- Of the nodes that were there, only those that `n` reached have changed. -/
structure Written (n : NodeId) (f g : Forest) : Prop extends Later f g where
  frame : ∀ {c}, c ∈ f → ¬f.Reaches n c → g.cell c = f.cell c

/-- Nothing was frozen. -/
structure Edited (n : NodeId) (f g : Forest) : Prop extends Written n f g where
  frozen_eq : ∀ {c}, c ∈ f → g.frozen c = f.frozen c
  writable : ∀ {c}, c ∈ g → c ∉ f → g.frozen c = false

namespace Later

theorem refl (hf : f.Sound) : Later f f := ⟨hf, Nat.le_refl _, fun _ _ ↦ rfl, fun _ hc ↦ hc⟩

theorem mem (hfg : Later f g) (hn : n ∈ f) : n ∈ g := Nat.lt_of_lt_of_le hn hfg.size_le

theorem trans (hfg : Later f g) (hgh : Later g h) : Later f h where
  sound := hgh.sound
  size_le := Nat.le_trans hfg.size_le hgh.size_le
  frozen {c} hc hz := by
    have hcell := hfg.frozen hc hz
    rw [hgh.frozen (hfg.mem hc) (by rwa [Forest.frozen, hcell]), hcell]
  adopt hc hm := hfg.adopt hc (hgh.adopt (hfg.mem hc) hm)

/-- No operation makes a node reach one that was there and that it did not reach. -/
theorem reaches (hfg : Later f g) (hc : c ∈ f) (h : g.Reaches n c) : f.Reaches n c := by
  induction h with
  | refl => exact .refl f n
  | tail _ hbc ih =>
    have hbc := hfg.adopt hc hbc
    exact (ih (mem_of_mem_children hbc)).tail hbc

end Later

theorem Extends.later (hfg : Extends f g) (hg : g.Sound) : Later f g where
  sound := hg
  size_le := hfg.size_le
  frozen hc _ := hfg.cell_eq hc
  adopt {n c} hc hn := by
    by_cases hnf : n ∈ f
    · rwa [← hfg.children_eq hnf]
    · exact absurd hc (hg.notMem_of_mem_children hnf hn)

namespace Written

theorem trans (hfg : Written n f g) (hgh : Written n g h) : Written n f h where
  toLater := hfg.toLater.trans hgh.toLater
  frame {c} hc hn := by
    rw [hgh.frame (hfg.mem hc) fun hr ↦ hn (hfg.reaches hc hr), hfg.frame hc hn]

theorem mono (hfg : Written m f g) (hm : f.Reaches n m) : Written n f g where
  toLater := hfg.toLater
  frame hc hn := hfg.frame hc fun hr ↦ hn (hm.trans hr)

/-- The tree of a value that shares nothing with the node written to has not changed. -/
theorem view_eq (hfg : Written n f g) (hf : f.Sound) (hv : ∀ a ∈ v.nodes, a ∈ f)
    (hn : ∀ a ∈ v.nodes, ∀ c, f.Reaches a c → ¬f.Reaches n c) : g.view v = f.view v :=
  hf.view_congr hfg.sound fun a ha c hc ↦
    hfg.frame (hf.mem_of_reaches (hv a ha) hc) (hn a ha c hc)

end Written

namespace Edited

theorem refl (hf : f.Sound) (n : NodeId) : Edited n f f where
  toLater := .refl hf
  frame _ _ := rfl
  frozen_eq _ := rfl
  writable hc hn := absurd hc hn

theorem trans (hfg : Edited n f g) (hgh : Edited n g h) : Edited n f h where
  toWritten := hfg.toWritten.trans hgh.toWritten
  frozen_eq hc := (hgh.frozen_eq (hfg.mem hc)).trans (hfg.frozen_eq hc)
  writable {c} hc hn := by
    by_cases hcg : c ∈ g
    · rw [hgh.frozen_eq hcg]
      exact hfg.writable hcg hn
    · exact hgh.writable hc hcg

theorem mono (hfg : Edited m f g) (hm : f.Reaches n m) : Edited n f g where
  toWritten := hfg.toWritten.mono hm
  frozen_eq := hfg.frozen_eq
  writable := hfg.writable

end Edited

theorem Placed.edited {nodes : List NodeId} (hfg : Placed f nodes g) (n : NodeId) :
    Edited n f g where
  toLater := hfg.grown.later hfg.sound
  frame hc _ := hfg.grown.cell_eq hc
  frozen_eq hc := by rw [Forest.frozen, hfg.grown.cell_eq hc, ← Forest.frozen]
  writable := hfg.writable

/-! ## Converting -/

/-- Converting either makes a value with the content of the given one, or fails and changes
nothing. -/
theorem Sound.convert_cases (hf : f.Sound) (v : Value) :
    (∃ stored g, convert v f = .ok stored g ∧ Made f (f.view v).content stored g) ∨
      ∃ e, convert v f = .error e f := by
  cases hb : (f.view v).blueprint with
  | error fault =>
    refine .inr ⟨.invalidStructure fault, ?_⟩
    rw [convert, get_bind, hb]
    rfl
  | ok plan =>
    refine .inl ⟨_, _, ?_, hf.place (hf.distinct_view v).content⟩
    rw [convert, get_bind, hb, Tree.content_of_blueprint hb]
    rfl

theorem Sound.convert_of_wellKeyed (hf : f.Sound) (hv : (f.view v).WellKeyed) :
    ∃ stored g, convert v f = .ok stored g ∧ Made f (f.view v).content stored g := by
  refine ⟨_, _, ?_, hf.place (hf.distinct_view v).content⟩
  rw [convert, get_bind, Tree.blueprint_of_wellKeyed hv]
  rfl

theorem create_of_nodeBlueprint {b : Blueprint} (hb : (f.view v).nodeBlueprint = .ok b)
    (hf : f.Sound) :
    ∃ n g, create v f = .ok n g ∧ Made f (.node (f.view v).fields) (.node n) g := by
  have hmade := hf.place (hf.distinct_view v).fields
  have hplan := Tree.eq_of_nodeBlueprint hb
  subst hplan
  rw [place_node] at hmade
  refine ⟨_, _, ?_, hmade⟩
  rw [create, get_bind, hb]
  rfl

theorem Sound.create_of_mapping (hf : f.Sound) {entries : List (Value × Value)}
    (hv : (f.view (.mapping entries)).WellKeyed) :
    ∃ n g, create (.mapping entries) f = .ok n g ∧
      Made f (.node (f.view (.mapping entries)).fields) (.node n) g := by
  have hb := Tree.blueprint_of_wellKeyed hv
  have hnode : (f.view (.mapping entries)).nodeBlueprint
      = .ok (f.view (.mapping entries)).content := by
    rw [view_mapping] at hb ⊢
    exact hb
  exact create_of_nodeBlueprint hnode hf

theorem Sound.create_null (hf : f.Sound) :
    ∃ n g, create .null f = .ok n g ∧ Made f (.node []) (.node n) g :=
  create_of_nodeBlueprint (v := .null) rfl hf

/-- Making a node either makes one with the fields of the given value, or fails and changes
nothing. -/
theorem Sound.create_cases (hf : f.Sound) (v : Value) :
    (∃ n g, create v f = .ok n g ∧ Made f (.node (f.view v).fields) (.node n) g) ∨
      ∃ e, create v f = .error e f := by
  cases hb : (f.view v).nodeBlueprint with
  | error fault =>
    refine .inr ⟨.invalidStructure fault, ?_⟩
    rw [create, get_bind, hb]
    rfl
  | ok plan => exact .inl (create_of_nodeBlueprint hb hf)

/-- Whether a node can be made of a value depends on the tree of the value only. -/
theorem Sound.create_of_view {g f' : Forest} {n : NodeId} (hg : g.Sound)
    (hview : g.view v = f.view v) (h : create v f = .ok n f') :
    ∃ k g', create v g = .ok k g' ∧ Made g (.node (f.view v).fields) (.node k) g' := by
  cases hb : (f.view v).nodeBlueprint with
  | error fault =>
    rw [create, get_bind, hb] at h
    cases h
  | ok plan =>
    rw [← hview] at hb ⊢
    exact create_of_nodeBlueprint hb hg

/-! ## Storing -/

theorem mem_children_of_find? {a : NodeId} (h : f.find? n key = some v) (ha : a ∈ v.nodes) :
    a ∈ f.children n :=
  List.mem_flatMap.mpr ⟨(key, v), Entries.mem_of_find? h, ha⟩

theorem reaches_of_find? {a : NodeId} (h : f.find? n key = some (.node a)) : f.Reaches n a :=
  .head (mem_children_of_find? h List.mem_cons_self) (.refl f a)

/-- **Storing what was just made** keeps the forest sound. -/
theorem Made.sound_store {b : Blueprint} (hfg : Made f b v g) (hn : f.frozen n = false)
    (key : String) : (g.store n key v).Sound := by
  have hmem := mem_of_frozen_eq_false hn
  have hcell : g.cell n = f.cell n := hfg.placed.grown.cell_eq hmem
  have hfrozen : g.frozen n = false := by rw [frozen, hcell, ← frozen, hn]
  have hg := hfg.placed.sound
  -- what the node holds afterwards it held before, or it is new
  have hsplit : ∀ c ∈ ((g.entries n).put key v).flatMap fun e ↦ e.2.nodes,
      c ∈ v.nodes ∨ c ∈ g.children n := by
    intro c hc
    obtain ⟨e, he, hce⟩ := List.mem_flatMap.mp hc
    rcases Entries.mem_put he with rfl | he
    · exact .inl hce
    · exact .inr (List.mem_flatMap.mpr ⟨e, he, hce⟩)
  rw [store_eq_setEntries]
  refine hg.setEntries hfrozen (Entries.nodup_keys_put (hg.distinct n) key v) (fun e he ↦ ?_) ?_
    (fun c hc ↦ ?_) fun c hc m hm hcm ↦ ?_
  · rcases Entries.mem_put he with rfl | he
    · exact hfg.uniform
    · have huniform := hg.uniform n e he
      rwa [hfrozen] at huniform
  · refine Entries.nodup_flatMap_put (hg.once n) hfg.placed.nodup fun c hc e he hce ↦ ?_
    exact hfg.placed.unheld c hc n (List.mem_flatMap.mpr ⟨e, he, hce⟩)
  · rcases hsplit c hc with hc | hc
    · exact ⟨Nat.lt_of_lt_of_le hmem (Nat.le_of_not_lt (hfg.placed.new c hc)),
        hfg.placed.mem c hc⟩
    · exact hg.younger hc
  · rcases hsplit c hc with hc | hc
    · exact hfg.placed.unheld c hc m hcm
    · exact hm (hg.single hcm hc)

theorem Made.edited_store {b : Blueprint} (hfg : Made f b v g) (hn : f.frozen n = false)
    (key : String) : Edited n f (g.store n key v) := by
  have hmem := mem_of_frozen_eq_false hn
  have hplaced := hfg.placed.edited n
  refine ⟨⟨⟨hfg.sound_store hn key, ?_, fun {c} hc hz ↦ ?_, fun {m c} hc hm ↦ ?_⟩,
    fun {c} hc hr ↦ ?_⟩, fun {c} hc ↦ ?_, fun {c} hc hnot ↦ ?_⟩
  · rw [size_store]
    exact hplaced.size_le
  · have hne : c ≠ n := fun heq ↦ by rw [heq, hn] at hz; cases hz
    rw [cell_store_of_ne hne, hfg.placed.grown.cell_eq hc]
  · -- what the node holds besides the new value it held before
    by_cases hmn : m = n
    · subst hmn
      rw [children, entries_store_self (hplaced.mem hmem)] at hm
      obtain ⟨e, he, hce⟩ := List.mem_flatMap.mp hm
      rcases Entries.mem_put he with rfl | he
      · exact absurd hc (hfg.placed.new c hce)
      · exact hplaced.adopt hc (List.mem_flatMap.mpr ⟨e, he, hce⟩)
    · rw [children_congr (cell_store_of_ne hmn)] at hm
      exact hplaced.adopt hc hm
  · have hne : c ≠ n := fun heq ↦ hr (heq ▸ .refl f n)
    rw [cell_store_of_ne hne, hfg.placed.grown.cell_eq hc]
  · rw [frozen_store]
    exact hplaced.frozen_eq hc
  · rw [frozen_store]
    exact hplaced.writable (mem_store.mp hc) hnot

theorem write_eq_ok {stored : Value} (h : convert v f = .ok stored g) (n : NodeId) (key : String) :
    write n key v f = .ok () (g.store n key stored) := by
  rw [write, bind_of_ok h]
  rfl

theorem Sound.edited_write (hf : f.Sound) (hn : f.frozen n = false) (key : String) (v : Value) :
    Edited n f (after (write n key v) f) := by
  rcases hf.convert_cases v with ⟨stored, g, heq, hmade⟩ | ⟨e, heq⟩
  · rw [after_of_ok (write_eq_ok heq n key)]
    exact hmade.edited_store hn key
  · rw [after, write, bind_of_error heq]
    exact .refl hf n

/-- Writing to a node changes no other node. -/
theorem Sound.cell_write (hf : f.Sound) (h : write n key v f = .ok () g) (hc : c ∈ f)
    (hne : c ≠ n) : g.cell c = f.cell c := by
  rcases hf.convert_cases v with ⟨stored, g', heq, hmade⟩ | ⟨e, heq⟩
  · obtain rfl := (EStateM.Result.ok.inj ((write_eq_ok heq n key).symm.trans h)).2
    rw [cell_store_of_ne hne, hmade.placed.grown.cell_eq hc]
  · rw [write, bind_of_error heq] at h
    cases h

/-! ## Assigning -/

theorem assign_of_frozen (hn : f.frozen n = true) (key : String) (v : Value) :
    assign n key v f = .error (.readOnlyNode (.scalar (.text key))) f := by
  rw [assign, get_bind, if_pos hn]
  rfl

theorem assign_of_writable (hn : f.frozen n = false) (key : String) (v : Value) :
    assign n key v f = write n key v f := by
  rw [assign, get_bind, hn]
  rfl

theorem Sound.edited_assign (hf : f.Sound) (n : NodeId) (key : String) (v : Value) :
    Edited n f (after (assign n key v) f) := by
  cases hn : f.frozen n with
  | true =>
    rw [after_of_error (assign_of_frozen hn key v)]
    exact .refl hf n
  | false =>
    rw [after, assign_of_writable hn, ← after]
    exact hf.edited_write hn key v

/-! ## Merging -/

theorem mergeEntry_descend {sub : NodeId → NodeId → ForestM Unit} {a b : NodeId}
    (h : f.find? n key = some (.node a)) : mergeEntry sub n key (.node b) f = sub a b f := by
  rw [mergeEntry, get_bind, h]

theorem mergeEntry_keep {sub : NodeId → NodeId → ForestM Unit} {a : NodeId}
    (h : f.find? n key = some (.node a)) : mergeEntry sub n key .null f = .ok () f := by
  rw [mergeEntry, get_bind, h]
  rfl

/-- Unless both sides hold a node, or nothing meets a node, the incoming value is written. -/
theorem mergeEntry_replace {sub : NodeId → NodeId → ForestM Unit}
    (h : ∀ a, f.find? n key = some (.node a) → v ≠ .null ∧ ∀ b, v ≠ .node b) :
    mergeEntry sub n key v f = write n key v f := by
  rw [mergeEntry, get_bind]
  refine congrFun ?_ f
  split
  · next a b heq => exact absurd rfl ((h a heq).2 b)
  · next a heq => exact absurd rfl (h a heq).1
  · rfl

/-- The three ways of a step of a merge: both sides hold a node, nothing meets a node, and all
else. -/
theorem entry_cases (f : Forest) (n : NodeId) (key : String) (v : Value) :
    (∃ a b, f.find? n key = some (.node a) ∧ v = .node b) ∨
      (∃ a, f.find? n key = some (.node a) ∧ v = .null) ∨
      ∀ a, f.find? n key = some (.node a) → v ≠ .null ∧ ∀ b, v ≠ .node b := by
  by_cases hboth : ∃ a b, f.find? n key = some (.node a) ∧ v = .node b
  · exact .inl hboth
  by_cases hkeep : ∃ a, f.find? n key = some (.node a) ∧ v = .null
  · exact .inr (.inl hkeep)
  · exact .inr (.inr fun a ha ↦ ⟨fun hv ↦ hkeep ⟨a, ha, hv⟩, fun b hv ↦ hboth ⟨a, b, ha, hv⟩⟩)

/-- One step of a merge, when the merges of nodes below write only below. -/
theorem Sound.edited_mergeEntry {sub : NodeId → NodeId → ForestM Unit}
    (hsub : ∀ a b {f : Forest}, f.Sound → Edited a f (after (sub a b) f)) (hf : f.Sound)
    (hn : f.frozen n = false) (key : String) (v : Value) :
    Edited n f (after (mergeEntry sub n key v) f) := by
  rcases entry_cases f n key v with ⟨a, b, ha, rfl⟩ | ⟨a, ha, rfl⟩ | hreplace
  · rw [after, mergeEntry_descend ha, ← after]
    exact (hsub a b hf).mono (reaches_of_find? ha)
  · rw [after_of_ok (mergeEntry_keep ha)]
    exact .refl hf n
  · rw [after, mergeEntry_replace hreplace, ← after]
    exact hf.edited_write hn key v

theorem Sound.edited_mergeEntries {sub : NodeId → NodeId → ForestM Unit}
    (hsub : ∀ a b {f : Forest}, f.Sound → Edited a f (after (sub a b) f))
    (incoming : Entries Value) {f : Forest} (hf : f.Sound) (hn : f.frozen n = false) :
    Edited n f (after (mergeEntries sub n incoming) f) := by
  -- a step that fails ends the merge, and what it changed stays changed
  induction incoming generalizing f with
  | nil => exact .refl hf n
  | cons e rest ih =>
    obtain ⟨key, v⟩ := e
    have hstep := hf.edited_mergeEntry hsub hn key v
    rw [after, mergeEntries]
    cases heq : mergeEntry sub n key v f with
    | ok u g =>
      rw [after_of_ok heq] at hstep
      rw [bind_of_ok heq, ← after]
      refine hstep.trans (ih hstep.sound ?_)
      rw [hstep.frozen_eq (mem_of_frozen_eq_false hn), hn]
    | error e g =>
      rw [after_of_error heq] at hstep
      rw [bind_of_error heq]
      exact hstep

theorem mergeLevels_of_frozen (hn : f.frozen n = true) (levels : ℕ) (other : NodeId) :
    mergeLevels (levels + 1) n other f = .error (.readOnlyNode (.scalar .null)) f := by
  rw [mergeLevels, get_bind, if_pos hn]
  rfl

theorem mergeLevels_of_writable (hn : f.frozen n = false) (levels : ℕ) (other : NodeId) :
    mergeLevels (levels + 1) n other f
      = mergeEntries (mergeLevels levels) n (f.entries other) f := by
  rw [mergeLevels, get_bind, hn]
  rfl

theorem Sound.edited_mergeLevels (levels : ℕ) {n other : NodeId} {f : Forest} (hf : f.Sound) :
    Edited n f (after (mergeLevels levels n other) f) := by
  induction levels generalizing n other f with
  | zero => exact .refl hf n
  | succ levels ih =>
    cases hn : f.frozen n with
    | true =>
      rw [after_of_error (mergeLevels_of_frozen hn levels other)]
      exact .refl hf n
    | false =>
      rw [after, mergeLevels_of_writable hn, ← after]
      exact hf.edited_mergeEntries (fun a b f hf ↦ ih hf) _ hn

theorem merge_eq (n other : NodeId) :
    merge n other f = mergeLevels f.cells.size n other f := rfl

theorem mergeValue_of_frozen (hn : f.frozen n = true) (v : Value) :
    mergeValue n v f = .error (.readOnlyNode (.scalar .null)) f := by
  unfold mergeValue
  rw [get_bind, if_pos hn]
  rfl

theorem mergeValue_null (hn : f.frozen n = false) : mergeValue n .null f = .ok () f := by
  unfold mergeValue
  rw [get_bind, hn]
  rfl

theorem mergeValue_node (hn : f.frozen n = false) (other : NodeId) :
    mergeValue n (.node other) f = merge n other f := by
  unfold mergeValue
  rw [get_bind, hn]
  rfl

theorem mergeValue_of_ne (hn : f.frozen n = false) (hnull : v ≠ .null)
    (hnode : ∀ other, v ≠ .node other) :
    mergeValue n v f = (create v >>= merge n) f := by
  unfold mergeValue
  rw [get_bind, hn, if_neg Bool.false_ne_true]
  refine congrFun ?_ f
  split
  · exact absurd rfl hnull
  · next other => exact absurd rfl (hnode other)
  · rfl

/-- **Merging a value into a node** changes no other node than those that the node reaches. -/
theorem Sound.edited_mergeValue (hf : f.Sound) (n : NodeId) (v : Value) :
    Edited n f (after (mergeValue n v) f) := by
  cases hn : f.frozen n with
  | true =>
    rw [after_of_error (mergeValue_of_frozen hn v)]
    exact .refl hf n
  | false =>
    -- a mapping is first made into a node of its own, which touches nothing that was there
    by_cases hnull : v = .null
    · rw [hnull, after_of_ok (mergeValue_null hn)]
      exact .refl hf n
    by_cases hnode : ∃ other, v = .node other
    · obtain ⟨other, rfl⟩ := hnode
      rw [after, mergeValue_node hn, merge_eq, ← after]
      exact hf.edited_mergeLevels _
    · rw [after, mergeValue_of_ne hn hnull fun other hv ↦ hnode ⟨other, hv⟩]
      rcases hf.create_cases v with ⟨m, g, heq, hmade⟩ | ⟨e, heq⟩
      · have hplaced := hmade.placed.edited n
        rw [bind_of_ok heq, merge_eq, ← after]
        exact hplaced.trans (hplaced.sound.edited_mergeLevels _)
      · rw [bind_of_error heq]
        exact .refl hf n

end Forest

end LayeredConfig
