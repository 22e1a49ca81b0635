import LayeredConfig.Proofs.Tree.Equality
import LayeredConfig.Proofs.Tree.Layering

/-!
# Equal trees have equal contents

Contents are compared as the trees that they can be read as (`Blueprint.Same`). Equal trees have
equal contents, and among trees that are all frozen, or all open, the contents decide. So whatever
is a function of contents may be given the one or the other of two equal trees: merging
(`Blueprint.Distinct.same_merge`), and writing out (`Blueprint.Settled.same_plain`).
-/

namespace LayeredConfig

theorem Scalar.eq_null_of_null_sameOrEqual {s : Scalar} (h : null.sameOrEqual s = true) :
    s = .null := by
  cases s with
  | null => rfl
  | _ => cases h

theorem Scalar.eq_null_of_sameOrEqual_null {s : Scalar} (h : s.sameOrEqual .null = true) :
    s = .null := by
  cases s with
  | null => rfl
  | float x => cases x <;> cases h
  | _ => cases h

namespace Blueprint

variable {A B A' B' : Entries Blueprint} {b c : Blueprint} {o p : Option Blueprint}

/-- The contents are equal, read as trees. -/
def Same (b c : Blueprint) : Prop := b.tree.Same c.tree

theorem same_list_iff {bs cs : List Blueprint} :
    Same (.list bs) (.list cs) ↔ List.Forall₂ Same bs cs := by
  rw [Same, tree_list, tree_list, Tree.same_seq_iff, List.forall₂_map_left_iff,
    List.forall₂_map_right_iff]
  exact and_iff_right rfl

theorem same_node_iff : Same (.node A) (.node B) ↔ Entries.Paired Same A B := by
  rw [Same, tree_node, tree_node, Tree.same_node_iff, Entries.paired_mapValues_iff]
  rfl

theorem same_node_iff_find? (hA : A.keys.Nodup) (hB : B.keys.Nodup) :
    Same (.node A) (.node B) ↔ ∀ key, Option.Rel Same (A.find? key) (B.find? key) :=
  same_node_iff.trans (Entries.paired_iff_find? hA hB)

theorem Same.eq_node (h : Same (.node A) b) : ∃ B, b = .node B := by
  cases b with
  | node B => exact ⟨B, rfl⟩
  | list cs =>
    rw [Same, tree_node, tree_list] at h
    cases h
  | _ =>
    rw [Same, tree_node] at h
    cases h

theorem Same.eq_list {bs : List Blueprint} (h : Same (.list bs) c) : ∃ cs, c = .list cs := by
  cases c with
  | list cs => exact ⟨cs, rfl⟩
  | node B =>
    rw [Same, tree_list, tree_node] at h
    cases h
  | _ =>
    rw [Same, tree_list] at h
    cases h

/-- What is no node equals no node. -/
theorem Same.ne_node (h : Same b c) (hb : ∀ A, b ≠ .node A) : ∀ B, c ≠ .node B := by
  rintro B rfl
  cases b with
  | node A => exact hb A rfl
  | list bs =>
    rw [Same, tree_node, tree_list] at h
    cases h
  | _ =>
    rw [Same, tree_node] at h
    cases h

theorem Same.eq_null_iff (h : Same b c) : b = .scalar .null ↔ c = .scalar .null := by
  constructor
  · rintro rfl
    cases c with
    | scalar s => rw [Scalar.eq_null_of_null_sameOrEqual h]
    | list cs =>
      rw [Same, tree_list] at h
      cases h
    | node B => exact absurd rfl (h.ne_node (fun _ ↦ nofun) B)
    | _ => cases h
  · rintro rfl
    cases b with
    | scalar s => rw [Scalar.eq_null_of_sameOrEqual_null h]
    | list bs =>
      rw [Same, tree_list] at h
      cases h
    | node A => exact nomatch h.eq_node
    | _ => cases h

/-! ## Merging -/

/-- The fields of what stands under a key are compared key by key. -/
private theorem rel_inside (ho : ∀ b, o = some b → b.Distinct) (hp : ∀ b, p = some b → b.Distinct)
    (h : Option.Rel Same o p) (key : String) :
    Option.Rel Same ((inside o).find? key) ((inside p).find? key) := by
  cases h with
  | none => exact .none
  | @some b c hbc =>
    by_cases hb : ∃ A, b = .node A
    · obtain ⟨A, rfl⟩ := hb
      obtain ⟨B, rfl⟩ := hbc.eq_node
      cases ho _ rfl with
      | node hA _ =>
        cases hp _ rfl with
        | node hB _ => exact (same_node_iff_find? hA hB).mp hbc key
    · have hb : ∀ A, b ≠ .node A := fun A hA ↦ hb ⟨A, hA⟩
      have hc := hbc.ne_node hb
      rw [inside_of_ne fun A hA ↦ hb A (Option.some.inj hA),
        inside_of_ne fun B hB ↦ hc B (Option.some.inj hB)]
      exact .none

private theorem nodup_keys_inside (ho : ∀ b, o = some b → b.Distinct) :
    (inside o).keys.Nodup := by
  unfold inside
  split
  · next fields =>
    cases ho _ rfl with
    | node h _ => exact h
  · exact List.nodup_nil

private theorem distinct_inside (ho : ∀ b, o = some b → b.Distinct) {key : String} :
    ∀ b, (inside o).find? key = some b → b.Distinct := by
  unfold inside
  split
  · next fields =>
    cases ho _ rfl with
    | node _ h => exact fun b hb ↦ h (key, b) (Entries.mem_of_find? hb)
  · exact fun b hb ↦ nomatch hb

/-- Nothing leaves equal contents equal. -/
private theorem same_merge_null (h : Option.Rel Same o p) :
    Same (merge o (.scalar .null)) (merge p (.scalar .null)) := by
  cases h with
  | none => rfl
  | @some b c hbc =>
    by_cases hb : ∃ A, b = .node A
    · obtain ⟨A, rfl⟩ := hb
      obtain ⟨B, rfl⟩ := hbc.eq_node
      exact hbc
    · have hb : ∀ A, b ≠ .node A := fun A hA ↦ hb ⟨A, hA⟩
      rw [merge_null_of_ne hb, merge_null_of_ne (hbc.ne_node hb)]
      rfl

/-- Any other plain value replaces whatever was there. -/
private theorem same_merge_plain (hnull : b ≠ .scalar .null) (hnode : ∀ A, b ≠ .node A)
    (h : Same b c) : Same (merge o b) (merge p c) := by
  rw [merge_of_plain hnull hnode, merge_of_plain (hnull ∘ h.eq_null_iff.mpr) (h.ne_node hnode)]
  exact h

/-- **Merging respects equality**: equal contents merged over equal ones give equal contents. -/
theorem Distinct.same_merge (hb : b.Distinct) (hc : c.Distinct) (ho : ∀ b, o = some b → b.Distinct)
    (hp : ∀ b, p = some b → b.Distinct) (hrel : Option.Rel Same o p) (h : Same b c) :
    Same (merge o b) (merge p c) := by
  induction hb generalizing c o p with
  | @node B hB hdB ih =>
    obtain ⟨C, rfl⟩ := h.eq_node
    cases hc with
    | node hC hdC =>
      rw [merge_node hB, merge_node hC, same_node_iff_find?
        (nodup_keys_mergeFields (nodup_keys_inside ho))
        (nodup_keys_mergeFields (nodup_keys_inside hp))]
      intro key
      rw [find?_mergeFields hB, find?_mergeFields hC]
      have hin := (same_node_iff_find? hB hC).mp h key
      have hold := rel_inside ho hp hrel key
      cases hb : Entries.find? key B with
      | none =>
        rw [eq_none_iff_of_rel hin] at hb
        rw [hb]
        exact hold
      | some x =>
        rw [hb] at hin
        cases hc : Entries.find? key C with
        | none => rw [hc] at hin; cases hin
        | some y =>
          rw [hc] at hin
          cases hin with
          | some hxy =>
            exact .some (ih (key, x) (Entries.mem_of_find? hb)
              (hdC (key, y) (Entries.mem_of_find? hc)) (distinct_inside ho) (distinct_inside hp)
              hold hxy)
  | scalar s =>
    by_cases hs : s = .null
    · subst hs
      rw [h.eq_null_iff.mp rfl]
      exact same_merge_null hrel
    · exact same_merge_plain (fun heq ↦ hs (Blueprint.scalar.inj heq)) nofun h
  | _ => exact same_merge_plain nofun nofun h

end Blueprint

namespace Tree

variable {t u : Tree}

/-! ## Trees that can be stored without loss -/

/-- The keys of mappings are texts, and no key stands twice. -/
inductive Regular : Tree → Prop
  | scalar (s : Scalar) : Regular (.scalar s)
  | seq (kind : SeqKind) {items : List Tree} (h : ∀ t ∈ items, Regular t) :
      Regular (.seq kind items)
  | set (items : List Scalar) : Regular (.set items)
  | mapping {entries : Entries Tree} (once : entries.keys.Nodup) (h : ∀ e ∈ entries, Regular e.2) :
      Regular (.mapping (entries.map fun e ↦ (.scalar (.text e.1), e.2)))
  | node (id : NodeId) (frozen : Bool) {fields : Entries Tree} (once : fields.keys.Nodup)
      (h : ∀ e ∈ fields, Regular e.2) : Regular (.node id frozen fields)
  | deferred (id : DeferredId) : Regular (.deferred id)

theorem content_mapping_of_nodup {entries : Entries Tree} (once : entries.keys.Nodup) :
    content (.mapping (entries.map fun e ↦ (.scalar (.text e.1), e.2)))
      = .node (entries.mapValues content) := by
  have hkeys : (entries.mapValues content).keys.Nodup := by rwa [Entries.keys_mapValues]
  rw [content_mapping, List.map_map]
  exact congrArg Blueprint.node (Entries.ofPairs_of_nodup hkeys)

/-- Mappings with texts for keys are compared as nodes are. -/
theorem same_mapping_texts_iff {xs ys : Entries Tree} :
    Same (.mapping (xs.map fun e ↦ (.scalar (.text e.1), e.2)))
        (.mapping (ys.map fun e ↦ (.scalar (.text e.1), e.2))) ↔ Entries.Paired Same xs ys := by
  have hkey : ∀ j k : String, Same (.scalar (.text j)) (.scalar (.text k)) ↔ j = k := fun j k ↦
    beq_iff_eq
  rw [same_mapping_iff]
  simp only [Partnered, Entries.Paired, List.length_map, List.mem_map, exists_exists_and_eq_and,
    forall_exists_index, and_imp, forall_apply_eq_imp_iff₂, hkey]

/-- Entries with texts for keys are the entries of a node. -/
private theorem exists_fields {entries : List (Tree × Tree)}
    (h : ∀ e ∈ entries, ∃ s, e.1 = .scalar (.text s)) :
    ∃ fields : Entries Tree, entries = fields.map fun e ↦ (.scalar (.text e.1), e.2) := by
  induction entries with
  | nil => exact ⟨[], rfl⟩
  | cons e rest ih =>
    obtain ⟨key, t⟩ := e
    obtain ⟨s, rfl⟩ : ∃ s, key = .scalar (.text s) := h (key, t) List.mem_cons_self
    obtain ⟨fields, rfl⟩ := ih fun e he ↦ h e (List.mem_cons_of_mem _ he)
    exact ⟨(s, t) :: fields, rfl⟩

/-- A tree whose keys are texts and stand once can be stored without loss. -/
theorem Proper.regular (h : t.Proper) (hkeyed : t.WellKeyed) : t.Regular := by
  induction h with
  | @scalar s _ => exact .scalar s
  | seq kind _ ih =>
    cases hkeyed with
    | seq _ hkeyed => exact .seq kind fun t ht ↦ ih t ht (hkeyed t ht)
  | @set items _ _ => exact .set items
  | mapping _ _ once _ ih =>
    cases hkeyed with
    | mapping keys hkeyed =>
      obtain ⟨fields, rfl⟩ := exists_fields keys
      refine .mapping (List.pairwise_map.mpr ?_) fun e he ↦ ?_
      · refine (List.pairwise_map.mp once).imp fun hne heq ↦ hne ?_
        rw [heq]
        exact itemEqual_self _
      · have hmem : ((.scalar (.text e.1), e.2) : Tree × Tree)
            ∈ fields.map fun e ↦ (.scalar (.text e.1), e.2) := List.mem_map.mpr ⟨e, he, rfl⟩
        exact ih _ hmem (hkeyed _ hmem)
  | node id frozen once _ ih =>
    cases hkeyed with
    | node _ _ hkeyed => exact .node id frozen once fun e he ↦ ih e he (hkeyed e he)
  | deferred id => exact .deferred id

/-- **Equal trees have equal contents.** -/
theorem Regular.same_content (ht : t.Regular) (hu : u.Regular) (h : Same t u) :
    t.content.Same u.content := by
  induction ht generalizing u with
  | scalar s =>
    cases hu with
    | scalar s' => exact h
    | _ => cases h
  | seq kind _ ih =>
    cases hu with
    | seq kind' hall =>
      obtain ⟨rfl, hitems⟩ := same_seq_iff.mp h
      rw [content_seq, content_seq, Blueprint.same_list_iff, List.forall₂_map_left_iff,
        List.forall₂_map_right_iff]
      exact forall₂_of_mem hitems fun t ht u hu ↦ ih t ht (hall u hu)
    | _ => cases h
  | set items =>
    cases hu with
    | set items' => exact h
    | _ => cases h
  | mapping once _ ih =>
    cases hu with
    | mapping once' hall =>
      rw [content_mapping_of_nodup once, content_mapping_of_nodup once', Blueprint.same_node_iff,
        Entries.paired_mapValues_iff]
      exact (same_mapping_texts_iff.mp h).of_mem fun x hx y hy ↦ ih x hx (hall y hy)
    | _ => cases h
  | node id frozen _ _ ih =>
    cases hu with
    | node id' frozen' _ hall =>
      rw [content_node, content_node, Blueprint.same_node_iff, Entries.paired_mapValues_iff]
      exact (same_node_iff.mp h).of_mem fun x hx y hy ↦ ih x hx (hall y hy)
    | _ => cases h
  | deferred id =>
    cases hu with
    | deferred id' => exact h
    | _ => cases h

/-- **Of trees that are all frozen, or all open, the contents decide** whether they are equal. -/
theorem Standing.same_of_content {frozen : Bool} (ht : t.Standing frozen) (hu : u.Standing frozen)
    (h : t.content.Same u.content) : Same t u := by
  induction ht generalizing u with
  | scalar s =>
    cases hu with
    | scalar s' => exact h
    | seq _ => rw [content_seq, Blueprint.Same, Blueprint.tree_list] at h; cases h
    | node _ _ => rw [content_node, Blueprint.Same, Blueprint.tree_node] at h; cases h
    | _ => cases h
  | seq _ ih =>
    rw [content_seq] at h
    obtain ⟨_, hlist⟩ := h.eq_list
    obtain ⟨_, _, rfl, rfl⟩ := eq_seq_of_content hlist
    cases hu with
    | seq hall =>
      rw [content_seq, Blueprint.same_list_iff, List.forall₂_map_left_iff,
        List.forall₂_map_right_iff] at h
      exact same_seq_iff.mpr ⟨rfl, forall₂_of_mem h fun t ht u hu ↦ ih t ht (hall u hu)⟩
  | set items =>
    cases hu with
    | set items' => exact h
    | seq _ => rw [content_seq, Blueprint.Same, Blueprint.tree_list] at h; cases h
    | node _ _ => rw [content_node, Blueprint.Same, Blueprint.tree_node] at h; cases h
    | _ => cases h
  | node id _ ih =>
    cases hu with
    | node id' hall =>
      rw [content_node, content_node, Blueprint.same_node_iff, Entries.paired_mapValues_iff] at h
      exact same_node_iff.mpr (h.of_mem fun x hx y hy ↦ ih x hx (hall y hy))
    | seq _ =>
      rw [content_seq, content_node] at h
      exact nomatch h.eq_node
    | _ =>
      rw [content_node] at h
      exact nomatch h.eq_node
  | deferred id =>
    cases hu with
    | deferred id' => exact h
    | seq _ => rw [content_seq, Blueprint.Same, Blueprint.tree_list] at h; cases h
    | node _ _ => rw [content_node, Blueprint.Same, Blueprint.tree_node] at h; cases h
    | _ => cases h

end Tree

/-- The tree of a mapping with texts for keys. -/
theorem Memory.view_mapping_texts (entries : Entries Value) (m : Memory) :
    m.view (.mapping (entries.map fun e ↦ (.text e.1, e.2)))
      = .mapping ((entries.mapValues m.view).map fun e ↦ (.scalar (.text e.1), e.2)) := by
  rw [view, Forest.view_mapping, List.map_map, Entries.mapValues, List.map_map]
  rfl

namespace Blueprint

variable {b c : Blueprint}

/-! ## Writing out -/

/-- What a node is written out as is a mapping with texts for keys. -/
theorem plain_node_texts (A : Entries Blueprint) :
    (Blueprint.node A).plain = .mapping ((A.mapValues plain).map fun e ↦ (.text e.1, e.2)) := by
  rw [plain_node, Entries.mapValues, List.map_map]
  rfl

private theorem view_plain_node (A : Entries Blueprint) (m : Memory) :
    m.view (Blueprint.node A).plain = .mapping ((A.mapValues fun b ↦ m.view b.plain).map
      fun e ↦ (.scalar (.text e.1), e.2)) := by
  rw [plain_node_texts, Memory.view_mapping_texts, Entries.mapValues_mapValues]

/-- **Writing out respects equality.** -/
theorem Settled.same_plain (hb : b.Settled) (hc : c.Settled) (h : Same b c) (m m' : Memory) :
    (m.view b.plain).Same (m'.view c.plain) := by
  induction hb generalizing c with
  | scalar s =>
    cases hc with
    | scalar s' => exact h
    | set items => cases h
    | list _ => rw [Same, tree_list] at h; cases h
    | node _ => rw [Same, tree_node] at h; cases h
  | set items =>
    cases hc with
    | scalar s' => cases h
    | set items' => exact h
    | list _ => rw [Same, tree_list] at h; cases h
    | node _ => rw [Same, tree_node] at h; cases h
  | @list bs _ ih =>
    obtain ⟨cs, rfl⟩ := h.eq_list
    rw [plain_list, plain_list, Memory.view, Memory.view, Forest.view_seq, Forest.view_seq,
      Tree.same_seq_iff, List.map_map, List.map_map, List.forall₂_map_left_iff,
      List.forall₂_map_right_iff]
    exact ⟨rfl, forall₂_of_mem (same_list_iff.mp h) fun b hb c hc' ↦ ih b hb (hc.items c hc')⟩
  | @node A _ ih =>
    obtain ⟨B, rfl⟩ := h.eq_node
    rw [view_plain_node, view_plain_node, Tree.same_mapping_texts_iff,
      Entries.paired_mapValues_iff]
    exact (same_node_iff.mp h).of_mem fun x hx y hy ↦ ih x hx (hc.fields y hy)

end Blueprint

end LayeredConfig
