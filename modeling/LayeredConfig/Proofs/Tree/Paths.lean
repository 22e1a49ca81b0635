import LayeredConfig.Proofs.Tree.Content

/-!
# Paths in a tree

A path is a list of keys, followed from node to node. A mapping counts as the node that storing
makes of it, so that a tree and its content have the same paths.
-/

namespace LayeredConfig

namespace Tree

/-- What stands under the keys of a node, or of a mapping; nothing else has keys. -/
def branches? : Tree → Option (Entries Tree)
  | .node _ _ fields => some fields
  | .mapping entries =>
    some (Entries.ofPairs (entries.map fun e ↦ (e.1.keyText.toOption.getD "", e.2)))
  | _ => none

/-- The tree at the end of a path, if no step is missing and none meets what has no keys. -/
def at? : List String → Tree → Option Tree
  | [], t => some t
  | key :: rest, t => (t.branches?.bind fun fields ↦ fields.find? key).bind (at? rest)

variable {t u : Tree} {fields : Entries Tree} {key : String} {rest : List String}

@[simp] theorem at?_nil (t : Tree) : t.at? [] = some t := rfl

theorem at?_cons (h : t.branches? = some fields) (key : String) (rest : List String) :
    t.at? (key :: rest) = (fields.find? key).bind (at? rest) := by
  rw [at?, h, Option.bind_some]

theorem at?_cons_of_none (h : t.branches? = none) (key : String) (rest : List String) :
    t.at? (key :: rest) = none := by
  rw [at?, h, Option.bind_none, Option.bind_none]

/-- A path goes on where its first step ends. -/
theorem at?_cons_eq_bind (t : Tree) (key : String) (rest : List String) :
    t.at? (key :: rest) = (t.at? [key]).bind (at? rest) := by
  rw [at?, at?]
  cases t.branches?.bind fun fields ↦ fields.find? key <;> rfl

/-- Below what does not count as set there is nothing. -/
theorem at?_cons_of_not_truthy (h : t.truthy = false) (key : String) (rest : List String) :
    t.at? (key :: rest) = none := by
  cases t with
  | mapping entries =>
    cases entries with
    | nil => rfl
    | cons e rest => cases h
  | node id frozen fields =>
    cases fields with
    | nil => rfl
    | cons e rest => cases h
  | _ => rfl

/-- A value that has no keys, and is not nothing, stands on the path before its end. -/
def Blocked (t : Tree) (p : List String) : Prop :=
  ∃ q u, q <+: p ∧ q ≠ p ∧ t.at? q = some u ∧ u.branches? = none ∧ u ≠ .scalar .null

theorem blocked_cons (h : t.branches? = some fields) :
    t.Blocked (key :: rest) ↔ ∃ u, fields.find? key = some u ∧ u.Blocked rest := by
  -- the node itself has keys, so that what blocks stands behind the first one
  constructor
  · rintro ⟨q, w, hq, hne, hw, hend, hnull⟩
    cases q with
    | nil =>
      cases hw
      rw [h] at hend
      cases hend
    | cons k q =>
      obtain ⟨rfl, hprefix⟩ := List.cons_prefix_cons.mp hq
      rw [at?_cons h] at hw
      obtain ⟨u, hu, hw⟩ := Option.bind_eq_some_iff.mp hw
      exact ⟨u, hu, q, w, hprefix, fun heq ↦ hne (heq ▸ rfl), hw, hend, hnull⟩
  · rintro ⟨u, hu, q, w, hq, hne, hw, hend⟩
    refine ⟨key :: q, w, List.cons_prefix_cons.mpr ⟨rfl, hq⟩, fun heq ↦ ?_, ?_, hend⟩
    · exact hne (List.cons.inj heq).2
    · rw [at?_cons h, hu, Option.bind_some, hw]

/-- What has no keys and is not nothing blocks every path through it. -/
theorem blocked_of_branches (h : t.branches? = none) (hnull : t ≠ .scalar .null)
    (hrest : rest ≠ []) : t.Blocked rest :=
  ⟨[], t, List.nil_prefix, Ne.symm hrest, rfl, h, hnull⟩

theorem not_blocked_null (rest : List String) : ¬(scalar .null).Blocked rest := by
  rintro ⟨q, u, _, _, hu, _, hnull⟩
  cases q with
  | nil =>
    cases hu
    exact hnull rfl
  | cons key q =>
    rw [at?_cons_of_none rfl] at hu
    cases hu

/-! ## Branches and content -/

theorem content_of_branches (h : t.branches? = some fields) :
    t.content = .node (fields.mapValues content) := by
  cases t with
  | node id frozen entries => rw [content_node, Option.some.inj h]
  | mapping entries =>
    rw [content_mapping, ← Option.some.inj h, Entries.mapValues_ofPairs, Entries.mapValues,
      List.map_map]
    rfl
  | _ => cases h

theorem fields_of_branches (h : t.branches? = some fields) :
    t.fields = fields.mapValues content := by
  have hcontent := content_of_branches h
  cases t with
  | node id frozen entries =>
    rw [content_node] at hcontent
    exact Blueprint.node.inj hcontent
  | mapping entries =>
    rw [content_mapping] at hcontent
    exact Blueprint.node.inj hcontent
  | _ => cases h

theorem branches_of_content {fields : Entries Blueprint} (h : t.content = .node fields) :
    ∃ branches, t.branches? = some branches ∧ branches.mapValues content = fields := by
  cases hb : t.branches? with
  | some branches =>
    refine ⟨branches, rfl, ?_⟩
    rw [content_of_branches hb] at h
    exact Blueprint.node.inj h
  | none =>
    cases t with
    | node id frozen entries => cases hb
    | mapping entries => cases hb
    | seq kind items => rw [content_seq] at h; cases h
    | _ => cases h

theorem fields_of_content {fields : Entries Blueprint} (h : t.content = .node fields) :
    t.fields = fields := by
  obtain ⟨branches, hb, rfl⟩ := branches_of_content h
  exact fields_of_branches hb

theorem branches_eq_none_of_content (h : t.content = u.content) (hu : u.branches? = none) :
    t.branches? = none := by
  cases ht : t.branches? with
  | none => rfl
  | some fields =>
    rw [content_of_branches ht] at h
    obtain ⟨branches, hb, _⟩ := branches_of_content h.symm
    rw [hu] at hb
    cases hb

theorem eq_scalar_of_content {s : Scalar} (h : t.content = .scalar s) : t = .scalar s := by
  cases t with
  | scalar s' => exact congrArg Tree.scalar (Blueprint.scalar.inj h)
  | seq kind items => rw [content_seq] at h; cases h
  | node id frozen fields => rw [content_node] at h; cases h
  | mapping entries => rw [content_mapping] at h; cases h
  | set items => cases h
  | deferred id => cases h

theorem eq_set_of_content {items : List Scalar} (h : t.content = .set items) : t = .set items := by
  cases t with
  | set items' => exact congrArg Tree.set (Blueprint.set.inj h)
  | seq kind items => rw [content_seq] at h; cases h
  | node id frozen fields => rw [content_node] at h; cases h
  | mapping entries => rw [content_mapping] at h; cases h
  | _ => cases h

theorem eq_deferred_of_content {d : DeferredId} (h : t.content = .deferred d) :
    t = .deferred d := by
  cases t with
  | deferred e => exact congrArg Tree.deferred (Blueprint.deferred.inj h)
  | seq kind items => rw [content_seq] at h; cases h
  | node id frozen fields => rw [content_node] at h; cases h
  | mapping entries => rw [content_mapping] at h; cases h
  | _ => cases h

theorem eq_seq_of_content {items : List Blueprint} (h : t.content = .list items) :
    ∃ kind ts, t = .seq kind ts ∧ ts.map content = items := by
  cases t with
  | seq kind ts =>
    rw [content_seq] at h
    exact ⟨kind, ts, rfl, Blueprint.list.inj h⟩
  | node id frozen fields => rw [content_node] at h; cases h
  | mapping entries => rw [content_mapping] at h; cases h
  | _ => cases h

theorem Distinct.branches (ht : t.Distinct) (h : t.branches? = some fields) :
    fields.keys.Nodup ∧ ∀ e ∈ fields, e.2.Distinct := by
  cases ht with
  | node id frozen keys hall =>
    rw [← Option.some.inj h]
    exact ⟨keys, hall⟩
  | mapping hall =>
    rw [← Option.some.inj h]
    refine ⟨Entries.nodup_keys_ofPairs _, fun e he ↦ ?_⟩
    obtain ⟨a, ha, rfl⟩ := List.mem_map.mp (Entries.mem_of_mem_ofPairs he)
    exact hall a ha
  | _ => cases h

/-! ## Trees that can be written to -/

/-- A stored tree in which nothing is frozen: its sequences are lists, no mapping stands in it,
and all its nodes can be written to. -/
inductive Writable : Tree → Prop
  | scalar (s : Scalar) : Writable (.scalar s)
  | list {items : List Tree} (h : ∀ t ∈ items, Writable t) : Writable (.seq .list items)
  | set (items : List Scalar) : Writable (.set items)
  | node (id : NodeId) {fields : Entries Tree} (h : ∀ e ∈ fields, Writable e.2) :
      Writable (.node id false fields)
  | deferred (id : DeferredId) : Writable (.deferred id)

theorem Writable.eq_node (ht : t.Writable) (h : t.branches? = some fields) :
    ∃ id, t = .node id false fields ∧ ∀ e ∈ fields, e.2.Writable := by
  cases ht with
  | node id hall =>
    obtain rfl := Option.some.inj h
    exact ⟨id, rfl, hall⟩
  | _ => cases h

/-- A stored tree whose nodes are all frozen, or all open; its sequences are then tuples or
lists. -/
inductive Standing (frozen : Bool) : Tree → Prop
  | scalar (s : Scalar) : Standing frozen (.scalar s)
  | seq {items : List Tree} (h : ∀ t ∈ items, Standing frozen t) :
      Standing frozen (.seq (if frozen then .tuple else .list) items)
  | set (items : List Scalar) : Standing frozen (.set items)
  | node (id : NodeId) {fields : Entries Tree} (h : ∀ e ∈ fields, Standing frozen e.2) :
      Standing frozen (.node id frozen fields)
  | deferred (id : DeferredId) : Standing frozen (.deferred id)

theorem Standing.writable (h : t.Standing false) : t.Writable := by
  induction h with
  | scalar s => exact .scalar s
  | seq _ ih => exact .list ih
  | set items => exact .set items
  | node id _ ih => exact .node id ih
  | deferred id => exact .deferred id

theorem Writable.standing (h : t.Writable) : t.Standing false := by
  induction h with
  | scalar s => exact .scalar s
  | list _ ih => exact .seq ih
  | set items => exact .set items
  | node id _ ih => exact .node id ih
  | deferred id => exact .deferred id

end Tree

end LayeredConfig
