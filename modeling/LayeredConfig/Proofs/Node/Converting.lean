import LayeredConfig.Proofs.Forest.Merging
import LayeredConfig.Proofs.Node.Run
import LayeredConfig.Proofs.Tree.Storing

/-!
# What is accepted, and what is stored of it

Making a node, setting a key and merging take the same data: everything except mappings with a key
that is no text, however deep they stand; making a node and merging also want a mapping, a node or
nothing at the top. `Memory.Reachable.conversion` states this together with what is stored of the
data that is accepted.
-/

namespace LayeredConfig

/-! ## Which values can be stored -/

namespace Forest

variable {f g : Forest} {n : NodeId} {v : Value}

/-- **A value can be stored** if every key of a mapping in it is a text. -/
theorem Sound.wellKeyed_view_iff (hf : f.Sound) (v : Value) :
    (f.view v).WellKeyed ↔ ¬v.MisKeyed := by
  induction v with
  | scalar s =>
    refine iff_of_true (.scalar s) ?_
    rintro ⟨_, hwithin, _⟩
    cases hwithin
  | seq kind items ih =>
    rw [view_seq, Value.misKeyed_seq]
    constructor
    · rintro h ⟨v, hv, hkey⟩
      cases h with
      | seq _ hall => exact (ih v hv).mp (hall _ (List.mem_map_of_mem hv)) hkey
    · intro h
      refine .seq kind fun t ht ↦ ?_
      obtain ⟨v, hv, rfl⟩ := List.mem_map.mp ht
      exact (ih v hv).mpr fun hkey ↦ h ⟨v, hv, hkey⟩
  | set items =>
    refine iff_of_true (.set items) ?_
    rintro ⟨_, hwithin, _⟩
    cases hwithin
  | mapping entries ih =>
    rw [view_mapping, Value.misKeyed_mapping]
    constructor
    · intro h
      cases h with
      | mapping keys values =>
        rintro (⟨e, he, hkey⟩ | ⟨e, he, hkey⟩)
        · obtain ⟨s, hs⟩ := keys _ (List.mem_map_of_mem he)
          exact hkey s (hf.eq_scalar_of_view hs)
        · exact (ih e he).2.mp (values _ (List.mem_map_of_mem he)) hkey
    · intro h
      refine .mapping (fun t ht ↦ ?_) fun t ht ↦ ?_
      · obtain ⟨e, he, rfl⟩ := List.mem_map.mp ht
        by_contra hkey
        exact h (.inl ⟨e, he, fun s hs ↦ hkey ⟨s, congrArg f.view hs⟩⟩)
      · obtain ⟨e, he, rfl⟩ := List.mem_map.mp ht
        exact (ih e he).2.mpr fun hkey ↦ h (.inr ⟨e, he, hkey⟩)
  | node id =>
    have huniform : (Value.node id).Uniform .list := .node id
    exact iff_of_true (hf.wellKeyed_view huniform) (Value.not_misKeyed_node id)
  | deferred d =>
    refine iff_of_true (.deferred d) ?_
    rintro ⟨_, hwithin, _⟩
    cases hwithin

/-- Converting refuses a value because of a key, or stores it. -/
theorem Sound.convert_decides (hf : f.Sound) (v : Value) :
    v.MisKeyed ∧ (∃ fault, convert v f = .error (.invalidStructure fault) f) ∨
      ¬v.MisKeyed ∧
        ∃ stored g, convert v f = .ok stored g ∧ Made f (f.view v).content stored g := by
  by_cases hv : v.MisKeyed
  · refine .inl ⟨hv, ?_⟩
    cases hb : (f.view v).blueprint with
    | error fault =>
      refine ⟨fault, ?_⟩
      rw [convert, get_bind, hb]
      rfl
    | ok plan => exact absurd hv ((hf.wellKeyed_view_iff v).mp (Tree.wellKeyed_of_blueprint hb))
  · exact .inr ⟨hv, hf.convert_of_wellKeyed ((hf.wellKeyed_view_iff v).mpr hv)⟩

/-- What a node can be made of. -/
theorem Sound.nodeBlueprint_iff (hf : f.Sound) (v : Value) :
    (∃ b, (f.view v).nodeBlueprint = .ok b) ↔ v.NodeLike ∧ ¬v.MisKeyed := by
  constructor
  · rintro ⟨b, hb⟩
    cases v with
    | scalar s =>
      cases s with
      | null => exact ⟨.null, Value.not_misKeyed_null⟩
      | _ => cases hb
    | mapping entries =>
      refine ⟨.mapping entries, (hf.wellKeyed_view_iff _).mp ?_⟩
      rw [view_mapping] at hb ⊢
      exact Tree.wellKeyed_of_blueprint hb
    | node id => exact ⟨.node id, Value.not_misKeyed_node id⟩
    | seq kind items =>
      rw [view_seq] at hb
      cases hb
    | _ => cases hb
  · rintro ⟨hlike, hkeyed⟩
    have hkeyed := (hf.wellKeyed_view_iff v).mpr hkeyed
    cases hlike with
    | null => exact ⟨_, rfl⟩
    | node id =>
      rw [hf.view_eq_fields] at hkeyed ⊢
      exact ⟨_, Tree.nodeBlueprint_of_content hkeyed (Tree.content_node ..)⟩
    | mapping entries =>
      rw [view_mapping] at hkeyed ⊢
      exact ⟨_, Tree.nodeBlueprint_of_content hkeyed (Tree.content_mapping _)⟩

/-- Making a node refuses a value that is no mapping, or because of a key, or makes one. -/
theorem Sound.create_decides (hf : f.Sound) (v : Value) :
    (¬v.NodeLike ∨ v.MisKeyed) ∧ (∃ fault, create v f = .error (.invalidStructure fault) f) ∨
      (v.NodeLike ∧ ¬v.MisKeyed) ∧
        ∃ n g, create v f = .ok n g ∧ Made f (.node (f.view v).fields) (.node n) g := by
  have hiff := hf.nodeBlueprint_iff v
  cases hb : (f.view v).nodeBlueprint with
  | error fault =>
    refine .inl ⟨?_, fault, ?_⟩
    · rw [hb] at hiff
      have hnot := mt hiff.mpr fun ⟨_, h⟩ ↦ by cases h
      exact (not_and_or.mp hnot).imp_right not_not.mp
    · rw [create, get_bind, hb]
      rfl
  | ok plan => exact .inr ⟨hiff.mp ⟨plan, hb⟩, create_of_nodeBlueprint hb hf⟩

/-! ## Merging -/

/-- **A merge refuses a value** if no node can be made of it. If it fails otherwise, it came to a
frozen node. -/
theorem Sound.mergeValue_decides (hf : f.Sound) (hn : f.frozen n = false) (v : Value) :
    (¬v.NodeLike ∨ v.MisKeyed) ∧ (∃ fault, mergeValue n v f = .error (.invalidStructure fault) f) ∨
      (v.NodeLike ∧ ¬v.MisKeyed) ∧ ∀ e g, mergeValue n v f = .error e g → Refused f n e := by
  rcases hf.create_decides v with ⟨hbad, fault, hfault⟩ | ⟨hgood, o, g, hok, _⟩
  · have hnull : v ≠ .null := by
      rintro rfl
      exact hbad.elim (absurd .null) Value.not_misKeyed_null
    have hnode : ∀ other, v ≠ .node other := by
      rintro other rfl
      exact hbad.elim (absurd (.node other)) (Value.not_misKeyed_node other)
    exact .inl ⟨hbad, fault, by rw [mergeValue_of_ne hn hnull hnode, bind_of_error hfault]⟩
  · refine .inr ⟨hgood, fun e g' h ↦ ?_⟩
    rcases hf.mergeValue_error h with ⟨_, hz | he⟩ | ⟨_, hrefused⟩
    · cases hn.symm.trans hz
    · cases hok.symm.trans he
    · exact hrefused

/-- **What a merge has taken in** when it gets through. -/
theorem Sound.absorbed_mergeValue (hf : f.Sound) (hn : f.frozen n = false)
    (hgood : v.NodeLike ∧ ¬v.MisKeyed)
    (hapart : ∀ other, v = .node other → ∀ c, f.Reaches other c → ¬f.Reaches n c)
    (h : mergeValue n v f = .ok () g) :
    (f.view (.node n)).Absorbed (f.view v) (g.view (.node n)) := by
  have hedited := hf.edited_mergeValue n v
  rw [after_of_ok h] at hedited
  rw [hf.view_eq_fields, hedited.sound.view_eq_fields,
    hedited.frozen_eq (mem_of_frozen_eq_false hn)]
  by_cases hnull : v = .null
  · subst hnull
    rw [mergeValue_null hn] at h
    cases h
    exact Tree.absorbed_null ..
  obtain ⟨xs, hxs⟩ : ∃ xs, (f.view v).branches? = some xs := by
    cases hgood.1 with
    | null => exact absurd rfl hnull
    | node id => exact ⟨_, congrArg Tree.branches? (hf.view_eq_fields id)⟩
    | mapping entries => exact ⟨_, congrArg Tree.branches? (view_mapping entries)⟩
  rcases hf.mergeValue_ends_of_node hn hapart with ⟨e, _, he⟩ | hends
  · cases h.symm.trans he
  · rw [h, Tree.fields_of_branches hxs] at hends
    exact Tree.Merged.absorbed CopyOf.content CopyOf.parts CopyOf.writable n _ hxs
      (hf.distinct_view v) hends

/-- What a node is made of, is stored in it. -/
theorem Made.storedAs {n : NodeId} (h : Made f (.node (f.view v).fields) (.node n) g)
    (hf : f.Sound) (hlike : v.NodeLike) :
    v = .null ∧ g.view (.node n) = .node n false [] ∨ (f.view v).StoredAs (g.view (.node n)) := by
  have hcopy := h.copyOf
  have hcontent := hcopy.content
  cases hlike with
  | null =>
    rw [h.placed.sound.view_eq_fields] at hcontent hcopy ⊢
    have hempty : g.fields n = [] := by
      rw [Tree.content_node] at hcontent
      exact List.map_eq_nil_iff.mp (Blueprint.node.inj hcontent)
    obtain ⟨id, hid, _⟩ := hcopy.writable.eq_node rfl
    exact .inl ⟨rfl, by rw [(Tree.node.inj hid).2.1, hempty]⟩
  | node id =>
    refine .inr (Tree.storedAs_of_content ?_ hcopy.writable)
    rw [hcontent, hf.view_eq_fields, Tree.content_node]
    rfl
  | mapping entries =>
    refine .inr (Tree.storedAs_of_content ?_ hcopy.writable)
    rw [hcontent, view_mapping, Tree.content_mapping]
    rfl

end Forest

/-! ## The operations -/

/-- The operation fails because of the structure of the value given to it. -/
def Operation.Malformed (op : Operation) (call : DeferredId → Eval Value) (m : Memory) : Prop :=
  ∃ fault m', op.performWith call m = .error (.configuration (.invalidStructure fault)) m'

variable {m : Memory} {n : NodeId} {v : Value} {call : DeferredId → Eval Value}

/-- An operation on the forest fails as the change of the forest does. -/
theorem Operation.malformed_iff {α : Type} {op : Operation} (change : ForestM α)
    (give : α → Value) (h : op.performWith call m = (onForest change >>= fun a ↦ pure (give a)) m) :
    op.Malformed call m ↔ ∃ fault g, change m.forest = .error (.invalidStructure fault) g := by
  unfold Malformed
  rw [h]
  constructor
  · rintro ⟨fault, m', herror⟩
    rcases bind_eq_error.mp herror with herror | ⟨_, _, _, hpure⟩
    · obtain ⟨e, g, hg, he, _⟩ := onForest_eq_error herror
      obtain rfl := Failure.configuration.inj he
      exact ⟨fault, g, hg⟩
    · cases hpure
  · rintro ⟨fault, g, hg⟩
    exact ⟨fault, _, bind_of_error (onForest_of_error hg)⟩

theorem Operation.malformed_create (hf : m.forest.Sound) :
    (Operation.create v).Malformed call m ↔ ¬v.NodeLike ∨ v.MisKeyed := by
  rw [malformed_iff (Forest.create v) .node rfl]
  rcases hf.create_decides v with ⟨hbad, fault, hfault⟩ | ⟨hgood, n, g, hok, _⟩
  · exact iff_of_true ⟨fault, _, hfault⟩ hbad
  · refine iff_of_false ?_ fun hbad ↦ hbad.elim (absurd hgood.1) hgood.2
    rintro ⟨fault, g', hfault⟩
    cases hok.symm.trans hfault

theorem Operation.create_stores (hf : m.forest.Sound) (hgood : v.NodeLike ∧ ¬v.MisKeyed) :
    ∃ n m', (Operation.create v).performWith call m = .ok (.node n) m' ∧
      (v = .null ∧ m'.view (.node n) = .node n false [] ∨
        (m.view v).StoredAs (m'.view (.node n))) := by
  rcases hf.create_decides v with ⟨hbad, _⟩ | ⟨_, n, g, hok, hmade⟩
  · exact (hbad.elim (absurd hgood.1) hgood.2).elim
  · exact ⟨n, _, bind_of_ok (onForest_of_ok hok), hmade.storedAs hf hgood.1⟩

theorem Operation.malformed_set (hf : m.forest.Sound) (hn : m.forest.frozen n = false)
    (key : String) : (Operation.set n (.text key) v).Malformed call m ↔ v.MisKeyed := by
  rw [malformed_iff (Forest.assign n key v) (fun _ ↦ .null) rfl,
    Forest.assign_of_writable hn]
  rcases hf.convert_decides v with ⟨hbad, fault, hfault⟩ | ⟨hgood, stored, g, hok, _⟩
  · exact iff_of_true ⟨fault, _, bind_of_error hfault⟩ hbad
  · refine iff_of_false ?_ hgood
    rintro ⟨fault, g', hfault⟩
    cases (Forest.write_eq_ok hok n key).symm.trans hfault

theorem Operation.set_stores (hf : m.forest.Sound) (hn : m.forest.frozen n = false)
    (hgood : ¬v.MisKeyed) (key : String) :
    ∃ m' t, (Operation.set n (.text key) v).performWith call m = .ok .null m' ∧
      m'.view (.node n) = .node n false ((m.forest.fields n).put key t) ∧
      (m.view v).StoredAs t := by
  obtain ⟨g, t, hok, hfields, hcopy⟩ :=
    hf.write_fields hn ((hf.wellKeyed_view_iff v).mpr hgood) key
  have hedited := hf.edited_write hn key v
  rw [after_of_ok hok] at hedited
  rw [← Forest.assign_of_writable hn] at hok
  refine ⟨{ m with forest := g }, t, bind_of_ok (onForest_of_ok hok), ?_,
    Tree.storedAs_of_content hcopy.content hcopy.writable⟩
  rw [← hfields, ← hn, ← hedited.frozen_eq (Forest.mem_of_frozen_eq_false hn)]
  exact hedited.sound.view_eq_fields n

theorem Operation.malformed_merge (hf : m.forest.Sound) (hn : m.forest.frozen n = false) :
    (Operation.merge n v).Malformed call m ↔ ¬v.NodeLike ∨ v.MisKeyed := by
  rw [malformed_iff (Forest.mergeValue n v) (fun _ ↦ .node n) rfl]
  rcases hf.mergeValue_decides hn v with ⟨hbad, fault, hfault⟩ | ⟨hgood, hrefused⟩
  · exact iff_of_true ⟨fault, _, hfault⟩ hbad
  · refine iff_of_false ?_ fun hbad ↦ hbad.elim (absurd hgood.1) hgood.2
    rintro ⟨fault, g, hfault⟩
    cases (hrefused _ g hfault).error

theorem Operation.error_of_merge {e : Failure} {m' : Memory} (hf : m.forest.Sound)
    (hn : m.forest.frozen n = false) (hgood : v.NodeLike ∧ ¬v.MisKeyed)
    (h : (Operation.merge n v).performWith call m = .error e m') :
    e = .configuration (.readOnlyNode (.scalar .null)) ∧
      ∃ c, m.forest.Reaches n c ∧ m.forest.frozen c = true := by
  rcases bind_eq_error.mp h with h | ⟨_, _, _, hpure⟩
  · obtain ⟨e', g, hg, rfl, _⟩ := onForest_eq_error h
    rcases hf.mergeValue_decides hn v with ⟨hbad, _⟩ | ⟨_, hrefused⟩
    · exact (hbad.elim (absurd hgood.1) hgood.2).elim
    · exact ⟨by rw [(hrefused e' g hg).error], (hrefused e' g hg).frozen⟩
  · cases hpure

namespace Memory

/-- **What a merge leaves** below the receiver: nodes that were frozen before, as they were, and
nodes that can be written to, with lists in them and no tuples or mappings. -/
def Converted (m m' : Memory) (n : NodeId) : Prop :=
  ∀ c, m'.forest.Reaches n c →
    c ∈ m.forest ∧ m.forest.frozen c = true ∧ m'.forest.cell c = m.forest.cell c ∨
      m'.forest.frozen c = false ∧ ∀ e ∈ m'.forest.entries c, e.2.Uniform .list

theorem converted_merge (hf : m.forest.Sound) (hn : m.forest.frozen n = false) :
    Converted m (after ((Operation.merge n v).performWith call) m) n := by
  have hforest : (after ((Operation.merge n v).performWith call) m).forest
      = after (Forest.mergeValue n v) m.forest := by
    rw [← forest_after_onForest]
    exact congrArg Memory.forest (after_bind_pure (Node.merge n v) (fun _ ↦ Value.node n) m)
  have hedited := hf.edited_mergeValue n v
  rw [← hforest] at hedited
  intro c hc
  by_cases hz : (after ((Operation.merge n v).performWith call) m).forest.frozen c = true
  · by_cases hcf : c ∈ m.forest
    · have hfrozen : m.forest.frozen c = true := (hedited.frozen_eq hcf).symm.trans hz
      exact .inl ⟨hcf, hfrozen, hedited.frozen hcf hfrozen⟩
    · have hmem := hedited.mem (Forest.mem_of_frozen_eq_false hn)
      have hopen := hedited.writable (hedited.sound.mem_of_reaches hmem hc) hcf
      cases hopen.symm.trans hz
  · rw [Bool.not_eq_true] at hz
    have huniform := hedited.sound.uniform c
    rw [hz, if_neg Bool.false_ne_true] at huniform
    exact .inr ⟨hz, huniform⟩

end Memory

end LayeredConfig
