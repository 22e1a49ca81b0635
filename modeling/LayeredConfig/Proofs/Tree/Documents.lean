import LayeredConfig.Proofs.Tree.Comparing

/-!
# Documents

A document is made of mappings with texts for keys, of lists and of scalars, nested without bound.
A content is written out as a document if no computation stands in it, and only then
(`Blueprint.Distinct.document_plain_iff`). Storing a document loses nothing of it
(`Value.Document.plain_view`).
-/

namespace LayeredConfig

variable {m : Memory} {v : Value} {b : Blueprint}

namespace Value

/-- Mappings with texts for keys, each key standing once, and lists, down to scalars. A set of
scalars counts as one: it is stored and given out as it is. -/
inductive Document : Value → Prop
  | scalar (s : Scalar) : Document (.scalar s)
  | set (items : List Scalar) : Document (.set items)
  | list {items : List Value} (h : ∀ v ∈ items, Document v) : Document (.list items)
  | mapping {entries : Entries Value} (once : entries.keys.Nodup)
      (h : ∀ e ∈ entries, Document e.2) :
      Document (.mapping (entries.map fun e ↦ (.text e.1, e.2)))

theorem document_list_iff {items : List Value} :
    Document (.list items) ↔ ∀ v ∈ items, v.Document :=
  ⟨fun h ↦ by cases h with | list h => exact h, .list⟩

theorem document_mapping_iff {entries : Entries Value} :
    Document (.mapping (entries.map fun e ↦ (.text e.1, e.2)))
      ↔ entries.keys.Nodup ∧ ∀ e ∈ entries, e.2.Document := by
  have hinjective : Function.Injective fun e : String × Value ↦ (text e.1, e.2) := by
    rintro ⟨j, v⟩ ⟨k, w⟩ h
    cases h
    rfl
  refine ⟨fun h ↦ ?_, fun h ↦ .mapping h.1 h.2⟩
  generalize hpairs : entries.map (fun e ↦ (text e.1, e.2)) = pairs at h
  cases h with
  | mapping once h =>
    rw [hinjective.list_map hpairs]
    exact ⟨once, h⟩

namespace Document

theorem wellKeyed_view (h : v.Document) (m : Memory) : (m.view v).WellKeyed := by
  induction h with
  | scalar s => exact .scalar s
  | set items => exact .set items
  | list _ ih =>
    rw [Memory.view, Forest.view_seq]
    exact .seq .list (List.forall_mem_map.mpr ih)
  | mapping _ _ ih =>
    rw [Memory.view_mapping_texts]
    exact .mapping (List.forall_mem_map.mpr fun e _ ↦ ⟨e.1, rfl⟩)
      (List.forall_mem_map.mpr (List.forall_mem_map.mpr ih))

/-- No computation stands in a document. -/
theorem settled_view (h : v.Document) (m : Memory) : (m.view v).content.Settled := by
  induction h with
  | scalar s => exact .scalar s
  | set items => exact .set items
  | list _ ih =>
    rw [Memory.view, Forest.view_seq, Tree.content_seq]
    exact .list (List.forall_mem_map.mpr (List.forall_mem_map.mpr ih))
  | mapping once _ ih =>
    rw [Memory.view_mapping_texts,
      Tree.content_mapping_of_nodup (by rwa [Entries.keys_mapValues])]
    exact .node (List.forall_mem_map.mpr (List.forall_mem_map.mpr ih))

/-- **A document is stored without loss**: its content is written out as the document again. -/
theorem plain_view (h : v.Document) (m : Memory) : (m.view v).content.plain = v := by
  induction h with
  | scalar s => rfl
  | set items => rfl
  | list _ ih =>
    rw [Memory.view, Forest.view_seq, Tree.content_seq, Blueprint.plain_list, List.map_map,
      List.map_map]
    exact congrArg Value.list ((List.map_congr_left ih).trans (List.map_id _))
  | mapping once _ ih =>
    rw [Memory.view_mapping_texts,
      Tree.content_mapping_of_nodup (by rwa [Entries.keys_mapValues]), Entries.mapValues_mapValues,
      Blueprint.plain_node_texts, Entries.mapValues_mapValues, Entries.mapValues_eq_self ih]

end Document

end Value

namespace Blueprint

/-- What holds no computation is written out as a document. -/
theorem Settled.document (h : b.Settled) (hb : b.Distinct) : b.plain.Document := by
  induction h with
  | scalar s => exact .scalar s
  | set items => exact .set items
  | list _ ih =>
    cases hb with
    | list hb =>
      rw [plain_list]
      exact .list (List.forall_mem_map.mpr fun b hitem ↦ ih b hitem (hb b hitem))
  | node _ ih =>
    cases hb with
    | node once hb =>
      rw [plain_node_texts]
      exact .mapping (by rwa [Entries.keys_mapValues])
        (List.forall_mem_map.mpr fun e he ↦ ih e he (hb e he))

/-- A content is written out as a document only if it holds no computation. -/
theorem Distinct.document_plain_iff (hb : b.Distinct) : b.plain.Document ↔ b.Settled := by
  refine ⟨fun h ↦ ?_, fun h ↦ h.document hb⟩
  induction hb with
  | scalar s => exact .scalar s
  | set items => exact .set items
  | deferred d => cases h
  | list _ ih =>
    rw [plain_list, Value.document_list_iff, List.forall_mem_map] at h
    exact .list fun b hitem ↦ ih b hitem (h b hitem)
  | node _ _ ih =>
    rw [plain_node_texts, Value.document_mapping_iff] at h
    exact .node fun e he ↦ ih e he (List.forall_mem_map.mp h.2 e he)

end Blueprint

end LayeredConfig
