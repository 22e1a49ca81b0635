import LayeredConfig.Proofs.Tree.Overlay
import LayeredConfig.Proofs.Tree.Secrets

/-!
# Laws of merging contents

A configuration is made of layers that are merged one over the other. Merging a layer twice is the
same as merging it once (`Blueprint.Distinct.merge_merge`), and a content merged over itself is
unchanged. Three layers may be merged from either end (`Blueprint.mergeFields_assoc`), provided that
the middle one replaces no section of the lowest by a plain value: if it does, then nothing that
comes in above it counts as a value or not, depending on which two were merged first.

Both laws are shown key by key, by induction on the layer that comes in last.
-/

namespace LayeredConfig

/-! ## Entries -/

/-- Entries are determined by their keys in order and by what stands under each of them. -/
theorem Entries.ext_find? {α : Type} {old new : Entries α} (hkeys : old.keys = new.keys)
    (hnodup : old.keys.Nodup) (h : ∀ key, old.find? key = new.find? key) : old = new := by
  induction old generalizing new with
  | nil => exact (List.map_eq_nil_iff.mp hkeys.symm).symm
  | cons e rest ih =>
    obtain ⟨k, x⟩ := e
    cases new with
    | nil => cases hkeys
    | cons e' rest' =>
      obtain ⟨l, y⟩ := e'
      obtain ⟨hkl, hrest⟩ : k = l ∧ Entries.keys rest = Entries.keys rest' := List.cons.inj hkeys
      subst hkl
      obtain ⟨hk, hnodup⟩ := List.nodup_cons.mp hnodup
      have hvalue := h k
      rw [find?, find?, if_pos rfl, if_pos rfl] at hvalue
      refine congrArg₂ List.cons (Prod.ext rfl (Option.some.inj hvalue)) (ih hrest hnodup ?_)
      intro key
      by_cases hkey : k = key
      · subst hkey
        rw [find?_eq_none_iff.mpr hk, find?_eq_none_iff.mpr (hrest ▸ hk)]
      · have hother := h key
        rwa [find?, find?, if_neg hkey, if_neg hkey] at hother

namespace Blueprint

variable {old incoming fields A B C : Entries Blueprint} {a b c : Blueprint} {key : String}

/-! ## Merging one layer -/

/-- **The keys after a merge of contents**, in their order. -/
theorem keys_mergeFields (h : incoming.keys.Nodup) :
    (mergeFields old incoming).keys = old.keys ++ incoming.keys.filter (· ∉ old.keys) := by
  induction incoming generalizing old with
  | nil => exact (List.append_nil _).symm
  | cons e rest ih =>
    obtain ⟨k, b⟩ := e
    obtain ⟨hk, hrest⟩ := List.nodup_cons.mp h
    rw [mergeFields, ih hrest]
    exact Entries.keys_put_append_filter hk _ old

theorem nodup_keys_mergeFields (h : old.keys.Nodup) : (mergeFields old incoming).keys.Nodup := by
  induction incoming generalizing old with
  | nil => exact h
  | cons e rest ih => exact ih (Entries.nodup_keys_put h e.1 _)

/-- The fields of what stands under a key, if it is a node. -/
def inside : Option Blueprint → Entries Blueprint
  | some (.node fields) => fields
  | _ => []

@[simp] theorem inside_node (fields : Entries Blueprint) : inside (some (.node fields)) = fields :=
  rfl

theorem inside_of_ne {o : Option Blueprint} (h : ∀ fields, o ≠ some (.node fields)) :
    inside o = [] := by
  unfold inside
  split
  · next fields => exact absurd rfl (h fields)
  · rfl

/-- A node that comes in is merged with the node that is there, or with an empty one. -/
theorem merge_node (h : fields.keys.Nodup) (o : Option Blueprint) :
    merge o (.node fields) = .node (mergeFields (inside o) fields) := by
  by_cases ho : ∃ oldFields, o = some (.node oldFields)
  · obtain ⟨oldFields, rfl⟩ := ho
    rfl
  · have hne : ∀ oldFields, o ≠ some (.node oldFields) := fun oldFields hc ↦ ho ⟨oldFields, hc⟩
    rw [merge_of_ne hne, inside_of_ne hne, mergeFields_nil h]

/-- Without a node to keep, nothing that comes in is a value like any other. -/
theorem merge_null_of_ne (h : ∀ fields, b ≠ .node fields) :
    merge (some b) (.scalar .null) = .scalar .null :=
  merge_of_ne fun fields hc ↦ h fields (Option.some.inj hc)

/-! ## Merging a layer twice -/

/-- Fields change nothing if each of them is merged into what stands under its key already. -/
theorem mergeFields_eq_self
    (h : ∀ e ∈ incoming, ∃ x, old.find? e.1 = some x ∧ merge (some x) e.2 = x) :
    mergeFields old incoming = old := by
  induction incoming with
  | nil => rfl
  | cons e rest ih =>
    obtain ⟨k, b⟩ := e
    obtain ⟨x, hx, hmerge⟩ := h (k, b) List.mem_cons_self
    rw [mergeFields, hx, hmerge, Entries.put_of_find? hx]
    exact ih fun e he ↦ h e (List.mem_cons_of_mem _ he)

/-- **Merging is idempotent**, whatever stood there. -/
theorem Distinct.merge_merge (hb : b.Distinct) (o : Option Blueprint) :
    merge (some (merge o b)) b = merge o b := by
  induction hb generalizing o with
  | @node fields hkeys _ ih =>
    rw [merge_node hkeys, merge_node hkeys, inside_node]
    refine congrArg Blueprint.node (mergeFields_eq_self fun e he ↦ ?_)
    refine ⟨merge ((inside o).find? e.1) e.2, ?_, ih e he _⟩
    rw [find?_mergeFields hkeys, Entries.find?_of_mem hkeys he, Option.map_some, Option.some_or]
  | scalar s =>
    by_cases hs : s = .null
    · subst hs
      by_cases ho : ∃ fields, o = some (.node fields)
      · obtain ⟨fields, rfl⟩ := ho
        rfl
      · rw [merge_of_ne fun fields hc ↦ ho ⟨fields, hc⟩]
        rfl
    · have hnull : Blueprint.scalar s ≠ .scalar .null := fun hc ↦ hs (Blueprint.scalar.inj hc)
      rw [merge_of_plain hnull fun _ hc ↦ (by cases hc),
        merge_of_plain hnull fun _ hc ↦ (by cases hc)]
  | _ => rfl

/-- A content merged over itself is unchanged. -/
theorem Distinct.merge_self (hb : b.Distinct) : merge (some b) b = b := by
  have hnone : merge none b = b := merge_of_ne fun _ hc ↦ by cases hc
  have h := hb.merge_merge none
  rwa [hnone] at h

theorem Distinct.mergeFields_mergeFields (h : (Blueprint.node fields).Distinct)
    (old : Entries Blueprint) : mergeFields (mergeFields old fields) fields
      = mergeFields old fields :=
  Blueprint.node.inj (h.merge_merge (some (.node old)))

theorem Distinct.mergeFields_self (h : (Blueprint.node fields).Distinct) :
    mergeFields fields fields = fields := Blueprint.node.inj h.merge_self

/-! ## Merging three layers -/

/-- No plain value comes in where there is a section: at every path at which the first content holds
a node, the second one holds a node, nothing, or no value at all. -/
def SparesSections (old incoming : Blueprint) : Prop :=
  ∀ p fields, old.at? p = some (.node fields) → ∀ x, incoming.at? p = some x →
    x = .scalar .null ∨ ∃ xs, x = .node xs

/-- Two nodes are looked at key by key. -/
theorem sparesSections_node_iff : SparesSections (.node A) (.node B) ↔
    ∀ key a b, A.find? key = some a → B.find? key = some b → SparesSections a b := by
  constructor
  · intro h key a b ha hb p fields hp x hx
    refine h (key :: p) fields ?_ x ?_
    · rw [at?_node, ha, Option.bind_some, hp]
    · rw [at?_node, hb, Option.bind_some, hx]
  · intro h p fields hp x hx
    cases p with
    | nil => exact .inr ⟨B, Option.some.inj ((at?_nil _).symm.trans hx) ▸ rfl⟩
    | cons key rest =>
      obtain ⟨a, ha, hp⟩ := Option.bind_eq_some_iff.mp hp
      obtain ⟨b, hb, hx⟩ := Option.bind_eq_some_iff.mp hx
      exact h key a b ha hb rest fields hp x hx

/-- Where there is no section there is none to spare. -/
theorem sparesSections_of_ne (ha : ∀ fields, a ≠ .node fields) (b : Blueprint) :
    SparesSections a b := by
  intro p fields hp
  cases p with
  | nil => exact absurd (Option.some.inj ((at?_nil a).symm.trans hp)) (ha fields)
  | cons key rest =>
    cases a with
    | node fields => exact absurd rfl (ha fields)
    | _ => cases hp

/-- What is no node, and spares a node, leaves it as it is. -/
theorem SparesSections.merge_eq (h : SparesSections a b) (hb : ∀ fields, b ≠ .node fields) :
    merge (some a) b = a ∧ b = .scalar .null ∨
      (∀ fields, a ≠ .node fields) ∧ merge (some a) b = b := by
  by_cases ha : ∃ fields, a = .node fields
  · obtain ⟨fields, rfl⟩ := ha
    rcases h [] fields (at?_nil _) b (at?_nil b) with rfl | ⟨xs, rfl⟩
    · exact .inl ⟨rfl, rfl⟩
    · exact absurd rfl (hb xs)
  · have hne : ∀ fields, a ≠ .node fields := fun fields hc ↦ ha ⟨fields, hc⟩
    exact .inr ⟨hne, merge_of_ne fun fields hc ↦ hne fields (Option.some.inj hc)⟩

/-- Three layers can be merged from either end if this is so under each key that all of them
have. -/
theorem mergeFields_assoc_of (hA : A.keys.Nodup) (hB : B.keys.Nodup) (hC : C.keys.Nodup)
    (h : ∀ key a b c, A.find? key = some a → B.find? key = some b → C.find? key = some c →
      merge (some (merge (some a) b)) c = merge (some a) (merge (some b) c)) :
    mergeFields (mergeFields A B) C = mergeFields A (mergeFields B C) := by
  have hBC : (mergeFields B C).keys.Nodup := nodup_keys_mergeFields hB
  refine Entries.ext_find? ?_ (nodup_keys_mergeFields (nodup_keys_mergeFields hA)) fun key ↦ ?_
  · -- on both sides: the keys of the first layer, the new ones of the second, those of the third
    rw [keys_mergeFields hC, keys_mergeFields hB, keys_mergeFields hBC, keys_mergeFields hC,
      List.filter_append, List.filter_filter, List.append_assoc]
    refine congrArg (A.keys ++ ·) (congrArg (_ ++ ·) (List.filter_congr fun key _ ↦ ?_))
    by_cases hkA : key ∈ A.keys <;> by_cases hkB : key ∈ B.keys <;> simp [hkA, hkB]
  · have hnone : ∀ b, merge none b = b := fun b ↦ merge_of_ne fun _ hc ↦ by cases hc
    rw [find?_mergeFields hC, find?_mergeFields hB, find?_mergeFields hBC, find?_mergeFields hC]
    cases ha : A.find? key with
    | none => cases B.find? key <;> cases C.find? key <;> simp [hnone]
    | some a =>
      cases hb : B.find? key with
      | none => cases C.find? key <;> simp [hnone]
      | some b =>
        cases hc : C.find? key with
        | none => rfl
        | some c => exact congrArg some (h key a b c ha hb hc)

/-- Merging values is associative as long as the middle one spares the sections of the first. -/
theorem Distinct.merge_assoc (hc : c.Distinct) (ha : a.Distinct) (hb : b.Distinct)
    (h : SparesSections a b) :
    merge (some (merge (some a) b)) c = merge (some a) (merge (some b) c) := by
  induction hc generalizing a b with
  | @node C hC _ ih =>
    by_cases hnode : ∃ B, b = .node B
    · obtain ⟨B, rfl⟩ := hnode
      cases hb with
      | node hB hdB =>
        have hA : (inside (some a)).keys.Nodup := by
          cases ha with
          | node hA _ => exact hA
          | _ => exact List.nodup_nil
        rw [merge_node hB, merge_node hC, merge_node hC, inside_node, inside_node,
          merge_node (nodup_keys_mergeFields hB)]
        refine congrArg Blueprint.node (mergeFields_assoc_of hA hB hC fun key x y z hx hy hz ↦ ?_)
        cases ha with
        | node _ hdA =>
          exact ih (key, z) (Entries.mem_of_find? hz) (hdA _ (Entries.mem_of_find? hx))
            (hdB _ (Entries.mem_of_find? hy)) (sparesSections_node_iff.mp h key x y hx hy)
        | _ => cases hx
    · -- what comes in last meets the fields of the first one, or none on both sides
      have hne : ∀ fields, b ≠ .node fields := fun fields hb ↦ hnode ⟨fields, hb⟩
      have hright : merge (some b) (.node C) = .node C :=
        merge_of_ne fun fields hc ↦ hne fields (Option.some.inj hc)
      rw [hright]
      rcases h.merge_eq hne with ⟨heq, _⟩ | ⟨ha, heq⟩
      · rw [heq]
      · rw [heq, hright, merge_of_ne fun fields hc ↦ ha fields (Option.some.inj hc)]
  | scalar s =>
    by_cases hs : s = .null
    · subst hs
      by_cases hnode : ∃ B, b = .node B
      · obtain ⟨B, rfl⟩ := hnode
        cases hb with
        | node hB _ =>
          rw [merge_node hB]
          exact (merge_node hB (some a)).symm
      · have hne : ∀ fields, b ≠ .node fields := fun fields hb ↦ hnode ⟨fields, hb⟩
        rw [merge_null_of_ne hne]
        rcases h.merge_eq hne with ⟨heq, _⟩ | ⟨ha, heq⟩
        · rw [heq]
        · rw [heq, merge_null_of_ne hne, merge_null_of_ne ha]
    · have hnull : Blueprint.scalar s ≠ .scalar .null := fun hc ↦ hs (Blueprint.scalar.inj hc)
      have hplain : ∀ o, merge o (.scalar s) = .scalar s := fun o ↦
        merge_of_plain hnull fun _ hc ↦ by cases hc
      rw [hplain, hplain, hplain]
  | _ => rfl

/-- A plain value in the place of a section makes a difference: nothing takes its place when the
three are merged in order, and gives the section back when it was merged over the value before. -/
example :
    merge (some (merge (some (.node [])) (.scalar (.int 1)))) (.scalar .null) = .scalar .null ∧
    merge (some (.node [])) (merge (some (.scalar (.int 1))) (.scalar .null)) = .node [] :=
  ⟨rfl, rfl⟩

/-- **Merging three layers.** -/
theorem mergeFields_assoc (hA : (node A).Distinct) (hB : (node B).Distinct)
    (hC : (node C).Distinct) (h : SparesSections (.node A) (.node B)) :
    mergeFields (mergeFields A B) C = mergeFields A (mergeFields B C) :=
  Blueprint.node.inj (hC.merge_assoc hA hB h)

end Blueprint

/-! ## Trees with the same content -/

theorem Scalar.sameOrEqual_self (s : Scalar) : s.sameOrEqual s = true := by
  cases s with
  | float x => cases x <;> simp [sameOrEqual, equal, Binary64.equal]
  | time t => simp [sameOrEqual, equal, DateTime.equal]
  | _ => simp [sameOrEqual, equal, asInt?]

namespace Tree

variable {t u : Tree}

/-- Every tree equals itself in the way that items of a collection are compared. -/
theorem itemEqual_self (t : Tree) : t.itemEqual t = true := by
  induction t with
  | scalar s => exact s.sameOrEqual_self
  | seq kind items ih =>
    have hpairs : items.zip items = items.map fun t ↦ (t, t) := by
      simpa using List.zip_map' (f := id) (g := id) (l := items)
    rw [itemEqual_seq, hpairs, List.all_map]
    simpa using ih
  | set items =>
    have hall : items.all (fun x ↦ items.any x.sameOrEqual) = true := by
      rw [List.all_eq_true]
      exact fun x hx ↦ List.any_eq_true.mpr ⟨x, hx, x.sameOrEqual_self⟩
    rw [itemEqual, hall]
    simp
  | mapping entries ih =>
    rw [itemEqual_mapping, beq_self_eq_true, Bool.true_and, List.all_eq_true]
    intro e he
    refine List.any_eq_true.mpr ⟨e, he, ?_⟩
    rw [(ih e he).1, (ih e he).2, Bool.and_self]
  | node id frozen fields ih =>
    rw [itemEqual_node, beq_self_eq_true, Bool.true_and, List.all_eq_true]
    intro e he
    refine List.any_eq_true.mpr ⟨e, he, ?_⟩
    rw [ih e he, beq_self_eq_true, Bool.and_self]
  | deferred id => simp [itemEqual]

/-- Open nodes with the same content are equal. -/
theorem Writable.equal_of_content (ht : t.Writable) (hu : u.Writable)
    (hnode : u.branches? ≠ none) (h : t.content = u.content) : t.equal u = true := by
  rw [← ht.equal_content, h, hu.equal_content]
  cases u with
  | node id frozen fields => exact itemEqual_self (.node id frozen fields)
  | mapping entries => exact itemEqual_self (.mapping entries)
  | _ => exact absurd rfl hnode

end Tree

end LayeredConfig
