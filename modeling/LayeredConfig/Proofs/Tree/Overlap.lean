import LayeredConfig.Proofs.Tree.Paths

/-!
# Merges between trees that share nodes

A merge goes through what comes in key by key, and takes note of the keys and values of a node when
it comes to it, but not of what the nodes among these values hold. If the receiver shares nodes with
what comes in, then writing to the one may change the other before it is its turn.

`Tree.fieldsWritten` lists the nodes that a merge writes to, and `Tree.fieldsOrderly` asks that none
of them is met again: for every key, no node written to for it stands in what comes in under a later
key. Both are computed from the trees as they are before the merge. A merge of trees that share no
node is orderly (`Tree.orderly_of_apart`), and so is the merge of a tree over itself
(`Tree.orderly_self`).
-/

namespace LayeredConfig

namespace Tree

mutual

/-- The nodes that merging the tree under a key of the node `n` writes to, where `old` is what
stands under the key. -/
def written (n : NodeId) (old : Option Tree) : Tree → List NodeId
  | .node _ _ fields =>
    match old with
    | some (.node id _ oldFields) => fieldsWritten id oldFields fields
    | _ => [n]
  | .scalar .null =>
    match old with
    | some (.node ..) => []
    | _ => [n]
  | _ => [n]
termination_by structural x => x

/-- The nodes that merging the fields into the node `n` with the fields `old` writes to. -/
def fieldsWritten (n : NodeId) (old : Entries Tree) : List (String × Tree) → List NodeId
  | [] => []
  | (key, t) :: rest => written n (old.find? key) t ++ fieldsWritten n old rest
termination_by structural x => x

end

mutual

/-- Whether merging the tree over what stands under a key writes to no node before it comes in. -/
def orderly (old : Option Tree) : Tree → Bool
  | .node _ _ fields =>
    match old with
    | some (.node id _ oldFields) => fieldsOrderly id oldFields fields
    | _ => true
  | _ => true
termination_by structural x => x

/-- Whether merging the fields into the node `n` with the fields `old` writes to no node before it
comes in. -/
def fieldsOrderly (n : NodeId) (old : Entries Tree) : List (String × Tree) → Bool
  | [] => true
  | (key, t) :: rest =>
    orderly (old.find? key) t
      && (written n (old.find? key) t).all (fun c ↦ rest.all fun e ↦ !e.2.nodes.contains c)
      && fieldsOrderly n old rest
termination_by structural x => x

end

variable {n id id' c : NodeId} {frozen frozen' : Bool} {old new fields : Entries Tree}
  {o : Option Tree} {t : Tree} {key : String} {rest : Entries Tree}

theorem written_node (n : NodeId) :
    written n (some (.node id frozen old)) (.node id' frozen' fields)
      = fieldsWritten id old fields := rfl

theorem written_null (n : NodeId) : written n (some (.node id frozen old)) (.scalar .null) = [] :=
  rfl

/-- Where no node stands, the node itself is written to. -/
theorem written_of_ne (h : ∀ id frozen fields, o ≠ some (.node id frozen fields)) :
    written n o t = [n] := by
  cases t with
  | node id frozen fields =>
    rw [written]
    exact h
  | scalar s =>
    cases s with
    | null =>
      rw [written]
      exact h
    | _ => rfl
  | _ => rfl

/-- Where a value is replaced, the node itself is written to. -/
theorem written_of_replaced (h : o.bind branches? = none ∨
    t.content ≠ .scalar .null ∧ ∀ sub, t.content ≠ .node sub) : written n o t = [n] := by
  rcases h with h | ⟨hnull, hnode⟩
  · apply written_of_ne
    rintro id frozen fields rfl
    cases h
  · cases t with
    | node id frozen fields => exact absurd (content_node id frozen fields) (hnode _)
    | scalar s =>
      cases s with
      | null => exact absurd rfl hnull
      | _ => rfl
    | _ => rfl

theorem fieldsWritten_cons (n : NodeId) (old : Entries Tree) (key : String) (t : Tree)
    (rest : Entries Tree) : fieldsWritten n old ((key, t) :: rest)
      = written n (old.find? key) t ++ fieldsWritten n old rest := rfl

theorem orderly_node : orderly (some (.node id frozen old)) (.node id' frozen' fields)
    = fieldsOrderly id old fields := rfl

/-- What comes in under later keys is not written to before. -/
theorem fieldsOrderly_cons : fieldsOrderly n old ((key, t) :: rest) = true ↔
    orderly (old.find? key) t = true ∧
      (∀ c ∈ written n (old.find? key) t, ∀ e ∈ rest, c ∉ e.2.nodes) ∧
      fieldsOrderly n old rest = true := by
  rw [fieldsOrderly]
  simp [and_assoc]

/-- Only the fields under the keys that come in matter. -/
theorem fieldsWritten_congr (h : ∀ key ∈ fields.keys, new.find? key = old.find? key) :
    fieldsWritten n new fields = fieldsWritten n old fields := by
  induction fields with
  | nil => rfl
  | cons e rest ih =>
    obtain ⟨key, t⟩ := e
    rw [fieldsWritten_cons, fieldsWritten_cons, h key List.mem_cons_self,
      ih fun k hk ↦ h k (List.mem_cons_of_mem _ hk)]

theorem fieldsOrderly_congr (h : ∀ key ∈ fields.keys, new.find? key = old.find? key) :
    fieldsOrderly n new fields = fieldsOrderly n old fields := by
  induction fields with
  | nil => rfl
  | cons e rest ih =>
    obtain ⟨key, t⟩ := e
    rw [fieldsOrderly, fieldsOrderly, h key List.mem_cons_self,
      ih fun k hk ↦ h k (List.mem_cons_of_mem _ hk)]

theorem mem_fieldsWritten :
    c ∈ fieldsWritten n old fields ↔ ∃ e ∈ fields, c ∈ written n (old.find? e.1) e.2 := by
  induction fields with
  | nil => simp [fieldsWritten]
  | cons e rest ih =>
    obtain ⟨key, t⟩ := e
    rw [fieldsWritten_cons, List.mem_append, ih, List.exists_mem_cons_iff]

theorem mem_nodes_of_mem {e : String × Tree} (he : e ∈ fields) (hc : c ∈ e.2.nodes) :
    c ∈ (node id frozen fields).nodes := by
  rw [nodes_node]
  exact List.mem_cons_of_mem _ (List.mem_flatMap.mpr ⟨e, he, hc⟩)

/-- A merge writes to the receiver and to what stands below it. -/
theorem of_mem_written (h : c ∈ written n o t) : c = n ∨ ∃ u, o = some u ∧ c ∈ u.nodes := by
  induction t generalizing n o with
  | node id frozen fields ih =>
    by_cases ho : ∃ k frozen old, o = some (.node k frozen old)
    · obtain ⟨k, frozen, old, rfl⟩ := ho
      rw [written_node] at h
      obtain ⟨e, he, hc⟩ := mem_fieldsWritten.mp h
      refine .inr ⟨_, rfl, ?_⟩
      rcases ih e he hc with rfl | ⟨u, hu, hcu⟩
      · exact List.mem_cons_self
      · exact mem_nodes_of_mem (Entries.mem_of_find? hu) hcu
    · rw [written_of_ne fun k frozen old heq ↦ ho ⟨k, frozen, old, heq⟩] at h
      exact .inl (List.mem_singleton.mp h)
  | scalar s =>
    by_cases ho : ∃ k frozen old, o = some (.node k frozen old)
    · obtain ⟨k, frozen, old, rfl⟩ := ho
      cases s with
      | null => exact absurd h List.not_mem_nil
      | _ => exact .inl (List.mem_singleton.mp h)
    · rw [written_of_ne fun k frozen old heq ↦ ho ⟨k, frozen, old, heq⟩] at h
      exact .inl (List.mem_singleton.mp h)
  | _ => exact .inl (List.mem_singleton.mp h)

/-- What is written to for one key stands under none of those that follow. -/
theorem fieldsOrderly_iff : fieldsOrderly n old fields = true ↔
    (∀ e ∈ fields, orderly (old.find? e.1) e.2 = true) ∧
      fields.Pairwise fun e e' ↦ ∀ c ∈ written n (old.find? e.1) e.2, c ∉ e'.2.nodes := by
  induction fields with
  | nil => simp [fieldsOrderly]
  | cons e rest ih =>
    obtain ⟨key, t⟩ := e
    rw [fieldsOrderly_cons, ih, List.forall_mem_cons, List.pairwise_cons]
    constructor
    · rintro ⟨hfirst, hlater, hrest, hpairs⟩
      exact ⟨⟨hfirst, hrest⟩, fun e he c hc ↦ hlater c hc e he, hpairs⟩
    · rintro ⟨⟨hfirst, hrest⟩, hlater, hpairs⟩
      exact ⟨hfirst, fun c hc e he ↦ hlater e he c hc, hrest, hpairs⟩

/-! ## Merges that are orderly -/

/-- A merge of trees that share no node is orderly. -/
theorem orderly_of_apart (h : ∀ u, o = some u → ∀ c ∈ u.nodes, c ∉ t.nodes) :
    orderly o t = true := by
  induction t generalizing o with
  | node id frozen fields ih =>
    by_cases ho : ∃ k frozen old, o = some (.node k frozen old)
    · obtain ⟨k, frozen', old, rfl⟩ := ho
      have hbelow : ∀ c ∈ (node k frozen' old).nodes, ∀ e ∈ fields, c ∉ e.2.nodes :=
        fun c hc e he hce ↦ h _ rfl c hc (mem_nodes_of_mem he hce)
      rw [orderly_node, fieldsOrderly_iff]
      constructor
      · intro e he
        apply ih e he
        intro u hu c hc
        exact hbelow c (mem_nodes_of_mem (Entries.mem_of_find? hu) hc) e he
      · apply List.pairwise_of_forall_mem_list
        intro e he e' he' c hc
        rcases of_mem_written hc with rfl | ⟨u, hu, hcu⟩
        · exact hbelow c List.mem_cons_self e' he'
        · exact hbelow c (mem_nodes_of_mem (Entries.mem_of_find? hu) hcu) e' he'
    · rw [orderly]
      exact fun k frozen old heq ↦ ho ⟨k, frozen, old, heq⟩
  | _ => rfl

/-- Merging a tree over itself is orderly. -/
theorem orderly_self (hnodes : t.nodes.Nodup) (ht : t.Distinct) : orderly (some t) t = true := by
  induction t with
  | node id frozen fields ih =>
    cases ht with
    | node _ _ hkeys hall =>
      rw [nodes_node, List.nodup_cons, List.nodup_flatMap] at hnodes
      obtain ⟨hid, hnodup, hpairs⟩ := hnodes
      rw [orderly_node, fieldsOrderly_iff]
      constructor
      · intro e he
        rw [Entries.find?_of_mem hkeys he]
        exact ih e he (hnodup e he) (hall e he)
      · -- what is written to stands below the key, and nothing else has a node in common with it
        apply hpairs.imp_of_mem
        intro e e' he he' hdisjoint c hc
        rw [Entries.find?_of_mem hkeys he] at hc
        rcases of_mem_written hc with rfl | ⟨u, hu, hcu⟩
        · exact fun hc ↦ hid (List.mem_flatMap.mpr ⟨e', he', hc⟩)
        · obtain rfl := Option.some.inj hu
          exact hdisjoint hcu
  | _ => rfl

end Tree

end LayeredConfig
