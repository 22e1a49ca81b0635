import LayeredConfig.Forest
import LayeredConfig.Proofs.Exceptions
import Mathlib.Data.List.Nodup

/-!
# The content of a tree

What is left of a tree when the identities of its nodes, and whether they are frozen, are
forgotten: this is what storing the tree would make. Storing asks that all keys of mappings are
texts, `Tree.WellKeyed`, and of nothing else; then `Tree.blueprint` gives the content.
-/

namespace LayeredConfig

namespace Tree

mutual

/-- What storing the tree makes of it, where keys that are no texts stand for the empty text. -/
def content : Tree → Blueprint
  | .scalar s => .scalar s
  | .seq _ items => .list (contentItems items)
  | .set items => .set items
  | .mapping entries => .node (Entries.ofPairs (contentEntries entries))
  | .node _ _ fields => .node (contentFields fields)
  | .deferred id => .deferred id
termination_by structural x => x

private def contentItems : List Tree → List Blueprint
  | [] => []
  | t :: rest => content t :: contentItems rest
termination_by structural x => x

private def contentEntries : List (Tree × Tree) → Entries Blueprint
  | [] => []
  | (k, v) :: rest => (k.keyText.toOption.getD "", content v) :: contentEntries rest
termination_by structural x => x

private def contentFields : List (String × Tree) → Entries Blueprint
  | [] => []
  | (k, v) :: rest => (k, content v) :: contentFields rest
termination_by structural x => x

end

private theorem contentItems_eq (items : List Tree) : contentItems items = items.map content := by
  induction items with
  | nil => rfl
  | cons t rest ih => rw [contentItems, ih, List.map_cons]

private theorem contentEntries_eq (entries : List (Tree × Tree)) :
    contentEntries entries
      = entries.map fun e ↦ (e.1.keyText.toOption.getD "", e.2.content) := by
  induction entries with
  | nil => rfl
  | cons e rest ih => rw [contentEntries, ih, List.map_cons]

private theorem contentFields_eq (fields : List (String × Tree)) :
    contentFields fields = Entries.mapValues content fields := by
  induction fields with
  | nil => rfl
  | cons e rest ih => rw [contentFields, ih, Entries.mapValues, Entries.mapValues, List.map_cons]

@[simp] theorem content_scalar (s : Scalar) : content (.scalar s) = .scalar s := rfl

@[simp] theorem content_seq (kind : SeqKind) (items : List Tree) :
    content (.seq kind items) = .list (items.map content) :=
  congrArg Blueprint.list (contentItems_eq items)

@[simp] theorem content_set (items : List Scalar) : content (.set items) = .set items := rfl

@[simp] theorem content_mapping (entries : List (Tree × Tree)) :
    content (.mapping entries) = .node (Entries.ofPairs
      (entries.map fun e ↦ (e.1.keyText.toOption.getD "", e.2.content))) :=
  congrArg (fun es ↦ Blueprint.node (Entries.ofPairs es)) (contentEntries_eq entries)

@[simp] theorem content_node (id : NodeId) (frozen : Bool) (fields : Entries Tree) :
    content (.node id frozen fields) = .node (fields.mapValues content) :=
  congrArg Blueprint.node (contentFields_eq fields)

@[simp] theorem content_deferred (id : DeferredId) : content (.deferred id) = .deferred id := rfl

/-! ## Trees that can be stored -/

/-- All keys of the mappings in the tree are texts. -/
inductive WellKeyed : Tree → Prop
  | scalar (s : Scalar) : WellKeyed (.scalar s)
  | seq (kind : SeqKind) {items : List Tree} (h : ∀ t ∈ items, WellKeyed t) :
      WellKeyed (.seq kind items)
  | set (items : List Scalar) : WellKeyed (.set items)
  | mapping {entries : List (Tree × Tree)} (keys : ∀ e ∈ entries, ∃ s, e.1 = .scalar (.text s))
      (values : ∀ e ∈ entries, WellKeyed e.2) : WellKeyed (.mapping entries)
  | node (id : NodeId) (frozen : Bool) {fields : Entries Tree}
      (h : ∀ e ∈ fields, WellKeyed e.2) : WellKeyed (.node id frozen fields)
  | deferred (id : DeferredId) : WellKeyed (.deferred id)

private theorem exists_text_of_keyText {k : Tree} {s : String} (h : k.keyText = .ok s) :
    k = .scalar (.text s) := by
  unfold keyText at h
  split at h
  · rw [Except.ok.inj h]
  · cases h

theorem checkKeys_cons (e : Tree × Tree) (rest : List (Tree × Tree)) :
    checkKeys (e :: rest) = (discard e.1.keyText >>= fun _ ↦ checkKeys rest) := rfl

private theorem checkKeys_eq_ok {entries : List (Tree × Tree)}
    (h : ∀ e ∈ entries, ∃ s, e.1 = .scalar (.text s)) : checkKeys entries = .ok () := by
  induction entries with
  | nil => rfl
  | cons e rest ih =>
    obtain ⟨s, hs⟩ := h e List.mem_cons_self
    rw [checkKeys_cons, hs]
    exact ih fun a ha ↦ h a (List.mem_cons_of_mem _ ha)

theorem blueprint_of_wellKeyed {t : Tree} (h : t.WellKeyed) : t.blueprint = .ok t.content := by
  -- each level is the `mapM` of the levels below it, and none of them fails
  induction h with
  | scalar s => rfl
  | seq kind _ ih =>
    rw [blueprint_seq, mapM_eq_ok ih, content_seq]
    rfl
  | set items => rfl
  | @mapping entries keys _ ih =>
    have hstep : ∀ e ∈ entries, (return (← e.1.keyText, ← e.2.blueprint) : Except StructureFault _)
        = .ok (e.1.keyText.toOption.getD "", e.2.content) := by
      intro e he
      obtain ⟨s, hs⟩ := keys e he
      rw [ih e he, hs]
      rfl
    rw [blueprint_mapping, checkKeys_eq_ok keys, mapM_eq_ok hstep, content_mapping]
    rfl
  | @node id frozen fields _ ih =>
    have hstep : ∀ e ∈ fields, (return (e.1, ← e.2.blueprint) : Except StructureFault _)
        = .ok (e.1, e.2.content) := by
      intro e he
      rw [ih e he]
      rfl
    rw [blueprint_node, mapM_eq_ok hstep, content_node]
    rfl
  | deferred id => rfl

theorem wellKeyed_of_blueprint {t : Tree} : ∀ {b : Blueprint}, t.blueprint = .ok b →
    t.WellKeyed := by
  induction t with
  | scalar s => exact fun _ ↦ .scalar s
  | seq kind items ih =>
    intro b h
    rw [blueprint_seq] at h
    obtain ⟨_, hitems, _⟩ := ok_of_bind h
    refine .seq kind fun t ht ↦ ?_
    obtain ⟨c, hc⟩ := exists_ok_of_mapM hitems t ht
    exact ih t ht hc
  | set items => exact fun _ ↦ .set items
  | mapping entries ih =>
    intro b h
    rw [blueprint_mapping] at h
    obtain ⟨_, _, h⟩ := ok_of_bind h
    obtain ⟨_, hentries, _⟩ := ok_of_bind h
    -- the key is read before the value, so that an entry that succeeds has a text for a key
    have hboth : ∀ e ∈ entries, (∃ s, e.1 = .scalar (.text s)) ∧ e.2.WellKeyed := by
      intro e he
      obtain ⟨_, hentry⟩ := exists_ok_of_mapM hentries e he
      obtain ⟨s, hkey, hentry⟩ := ok_of_bind hentry
      obtain ⟨_, hvalue, _⟩ := ok_of_bind hentry
      exact ⟨⟨s, exists_text_of_keyText hkey⟩, (ih e he).2 hvalue⟩
    exact .mapping (fun e he ↦ (hboth e he).1) fun e he ↦ (hboth e he).2
  | node id frozen fields ih =>
    intro b h
    rw [blueprint_node] at h
    obtain ⟨_, hfields, _⟩ := ok_of_bind h
    refine .node id frozen fun e he ↦ ?_
    obtain ⟨_, hfield⟩ := exists_ok_of_mapM hfields e he
    obtain ⟨_, hvalue, _⟩ := ok_of_bind hfield
    exact ih e he hvalue
  | deferred id => exact fun _ ↦ .deferred id

private theorem keyNotText_of_keyText {k : Tree} {fault : StructureFault}
    (h : k.keyText = .error fault) : ∃ key, fault = .keyNotText key := by
  unfold keyText at h
  split at h
  · cases h
  · exact ⟨_, (Except.error.inj h).symm⟩

private theorem keyNotText_of_checkKeys {entries : List (Tree × Tree)} {fault : StructureFault}
    (h : checkKeys entries = .error fault) : ∃ key, fault = .keyNotText key := by
  induction entries with
  | nil => cases h
  | cons e rest ih =>
    rw [checkKeys_cons] at h
    rcases error_of_bind h with hkey | ⟨_, _, hrest⟩
    · rcases error_of_bind hkey with hkey | ⟨_, _, hkey⟩
      · exact keyNotText_of_keyText hkey
      · cases hkey
    · exact ih hrest

/-- **Storing fails** only because of a key that is no text. -/
theorem keyNotText_of_blueprint {t : Tree} {fault : StructureFault}
    (h : t.blueprint = .error fault) : ∃ key, fault = .keyNotText key := by
  induction t with
  | scalar s => cases h
  | seq kind items ih =>
    rw [blueprint_seq] at h
    rcases error_of_bind h with hitems | ⟨_, _, h⟩
    · obtain ⟨t, ht, hfault⟩ := exists_error_of_mapM hitems
      exact ih t ht hfault
    · cases h
  | set items => cases h
  | mapping entries ih =>
    rw [blueprint_mapping] at h
    rcases error_of_bind h with hkeys | ⟨_, _, h⟩
    · exact keyNotText_of_checkKeys hkeys
    rcases error_of_bind h with hentries | ⟨_, _, h⟩
    · obtain ⟨e, he, hentry⟩ := exists_error_of_mapM hentries
      rcases error_of_bind hentry with hkey | ⟨_, _, hentry⟩
      · exact keyNotText_of_keyText hkey
      rcases error_of_bind hentry with hvalue | ⟨_, _, hentry⟩
      · exact (ih e he).2 hvalue
      · cases hentry
    · cases h
  | node id frozen fields ih =>
    rw [blueprint_node] at h
    rcases error_of_bind h with hfields | ⟨_, _, h⟩
    · obtain ⟨e, he, hfield⟩ := exists_error_of_mapM hfields
      rcases error_of_bind hfield with hvalue | ⟨_, _, hfield⟩
      · exact ih e he hvalue
      · cases hfield
    · cases h
  | deferred id => cases h

/-- Nor can a node be made of what is neither a mapping, nor a node, nor nothing. -/
theorem fault_of_nodeBlueprint {t : Tree} {fault : StructureFault}
    (h : t.nodeBlueprint = .error fault) :
    (∃ key, fault = .keyNotText key) ∨ ∃ found, fault = .notMapping found := by
  unfold nodeBlueprint at h
  split at h
  · cases h
  · exact .inl (keyNotText_of_blueprint h)
  · exact .inl (keyNotText_of_blueprint h)
  · exact .inr ⟨_, (Except.error.inj h).symm⟩

theorem content_of_blueprint {t : Tree} {b : Blueprint} (h : t.blueprint = .ok b) :
    t.content = b := by
  rw [blueprint_of_wellKeyed (wellKeyed_of_blueprint h)] at h
  exact Except.ok.inj h

/-- The fields of the node that is made of a tree. -/
def fields : Tree → Entries Blueprint
  | .mapping entries =>
    Entries.ofPairs (entries.map fun e ↦ (e.1.keyText.toOption.getD "", e.2.content))
  | .node _ _ entries => Entries.mapValues content entries
  | _ => []

theorem eq_of_nodeBlueprint {t : Tree} {b : Blueprint} (h : t.nodeBlueprint = .ok b) :
    b = .node t.fields := by
  unfold nodeBlueprint at h
  split at h
  · exact (Except.ok.inj h).symm
  · rw [← content_of_blueprint h, content_mapping, fields]
  · rw [← content_of_blueprint h, content_node, fields]
  · cases h

/-- A tree that has the content of a node is made one. -/
theorem nodeBlueprint_of_content {t : Tree} {fields : Entries Blueprint} (ht : t.WellKeyed)
    (h : t.content = .node fields) : t.nodeBlueprint = .ok (.node fields) := by
  have hplan := blueprint_of_wellKeyed ht
  rw [h] at hplan
  cases t with
  | mapping entries => exact hplan
  | node n frozen entries => exact hplan
  | seq kind items =>
    rw [content_seq] at h
    cases h
  | _ => cases h

/-! ## Keys that stand once -/

/-- No key stands twice in a node of the tree. -/
inductive Distinct : Tree → Prop
  | scalar (s : Scalar) : Distinct (.scalar s)
  | seq (kind : SeqKind) {items : List Tree} (h : ∀ t ∈ items, Distinct t) :
      Distinct (.seq kind items)
  | set (items : List Scalar) : Distinct (.set items)
  | mapping {entries : List (Tree × Tree)} (h : ∀ e ∈ entries, Distinct e.2) :
      Distinct (.mapping entries)
  | node (id : NodeId) (frozen : Bool) {fields : Entries Tree} (keys : fields.keys.Nodup)
      (h : ∀ e ∈ fields, Distinct e.2) : Distinct (.node id frozen fields)
  | deferred (id : DeferredId) : Distinct (.deferred id)

end Tree

/-- No key stands twice in a node of the blueprint. -/
inductive Blueprint.Distinct : Blueprint → Prop
  | scalar (s : Scalar) : Distinct (.scalar s)
  | set (items : List Scalar) : Distinct (.set items)
  | deferred (id : DeferredId) : Distinct (.deferred id)
  | list {items : List Blueprint} (h : ∀ b ∈ items, Distinct b) : Distinct (.list items)
  | node {fields : Entries Blueprint} (keys : fields.keys.Nodup)
      (h : ∀ e ∈ fields, Distinct e.2) : Distinct (.node fields)

theorem Tree.Distinct.content {t : Tree} (h : t.Distinct) : t.content.Distinct := by
  induction h with
  | scalar s => exact .scalar s
  | seq kind _ ih =>
    rw [content_seq]
    refine .list fun b hb ↦ ?_
    obtain ⟨t, ht, rfl⟩ := List.mem_map.mp hb
    exact ih t ht
  | set items => exact .set items
  | mapping _ ih =>
    rw [content_mapping]
    refine .node (Entries.nodup_keys_ofPairs _) fun e he ↦ ?_
    obtain ⟨a, ha, rfl⟩ := List.mem_map.mp (Entries.mem_of_mem_ofPairs he)
    exact ih a ha
  | node id frozen keys _ ih =>
    rw [content_node]
    refine .node (by rwa [Entries.keys_mapValues]) fun e he ↦ ?_
    obtain ⟨a, ha, rfl⟩ := List.mem_map.mp he
    exact ih a ha
  | deferred id => exact .deferred id

theorem Tree.Distinct.fields {t : Tree} (h : t.Distinct) : (Blueprint.node t.fields).Distinct := by
  have hc := h.content
  cases t with
  | mapping entries => rwa [content_mapping] at hc
  | node id frozen entries => rwa [content_node] at hc
  | _ => exact .node List.nodup_nil fun e he ↦ absurd he List.not_mem_nil

end LayeredConfig
