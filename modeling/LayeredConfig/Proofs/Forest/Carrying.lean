import LayeredConfig.Proofs.Forest.Freezing
import LayeredConfig.Proofs.Forest.Merging

/-!
# Keys that are left alone, and computations that are carried over

A write under one key leaves the other keys of the node as they are, and so does a merge below it,
since no node reaches its holder. A merge therefore touches only keys that come in, whatever the
receiver and the incoming value share and whether it gets through or not. A computation that comes
in is stored as it is: it is the very one that the other node holds.
-/

namespace LayeredConfig

namespace Forest

variable {f g : Forest} {n other : NodeId} {key key' : String} {v : Value} {d : DeferredId}

/-- The keys of a node are what its cell says. -/
theorem find?_congr (h : g.cell n = f.cell n) (key : String) : g.find? n key = f.find? n key := by
  rw [find?, find?, entries, entries, h]

theorem find?_store_self (hn : n ∈ f) : (f.store n key v).find? n key = some v := by
  rw [find?, entries_store_self hn, Entries.find?_put_self]

theorem find?_store_of_ne (h : key' ≠ key) : (f.store n key v).find? n key' = f.find? n key' := by
  by_cases hn : n ∈ f
  · rw [find?, entries_store_self hn, Entries.find?_put_of_ne h, find?]
  · have hnot : n ∉ f.store n key v := mem_store.not.mpr hn
    rw [find?, find?, entries_of_notMem hn, entries_of_notMem hnot]

/-! ## Keys that are left alone -/

theorem Sound.find?_write_of_ne (hf : f.Sound) (hn : n ∈ f) (h : key' ≠ key) (v : Value) :
    (after (write n key v) f).find? n key' = f.find? n key' := by
  rcases hf.convert_cases v with ⟨stored, g, heq, hmade⟩ | ⟨e, heq⟩
  · rw [after_of_ok (write_eq_ok heq n key), find?_store_of_ne h]
    exact find?_congr (hmade.placed.grown.cell_eq hn) key'
  · rw [after, write, bind_of_error heq]

/-- What is written inside a node that another one holds leaves the holder as it is. -/
theorem Sound.find?_of_edited_child (hf : f.Sound) {a : NodeId}
    (ha : f.find? n key = some (.node a)) (hfg : Edited a f g) (key' : String) :
    g.find? n key' = f.find? n key' := by
  have hchild := mem_children_of_find? ha List.mem_cons_self
  exact find?_congr (hfg.frame (mem_of_mem_children hchild)
    (hf.not_reaches_of_mem_children hchild)) key'

section Merging

variable {sub : NodeId → NodeId → ForestM Unit}
  (hsub : ∀ a b {f : Forest}, f.Sound → Edited a f (after (sub a b) f))

include hsub

theorem Sound.find?_mergeEntry_of_ne (hf : f.Sound) (hn : n ∈ f) (h : key' ≠ key) (v : Value) :
    (after (mergeEntry sub n key v) f).find? n key' = f.find? n key' := by
  rcases entry_cases f n key v with ⟨a, b, ha, rfl⟩ | ⟨a, ha, rfl⟩ | hreplace
  · rw [after, mergeEntry_descend ha, ← after]
    exact hf.find?_of_edited_child ha (hsub a b hf) key'
  · rw [after_of_ok (mergeEntry_keep ha)]
  · rw [after, mergeEntry_replace hreplace, ← after]
    exact hf.find?_write_of_ne hn h v

theorem Sound.find?_mergeEntries (incoming : Entries Value) {f : Forest} (hf : f.Sound)
    (hn : f.frozen n = false) (h : key ∉ incoming.keys) :
    (after (mergeEntries sub n incoming) f).find? n key = f.find? n key := by
  induction incoming generalizing f with
  | nil => rfl
  | cons e rest ih =>
    obtain ⟨k, v⟩ := e
    rw [Entries.keys, List.map_cons, List.mem_cons, not_or] at h
    have hmem := mem_of_frozen_eq_false hn
    have hstep := hf.find?_mergeEntry_of_ne hsub hmem h.1 v
    have hedited := hf.edited_mergeEntry hsub hn k v
    rw [after, mergeEntries]
    cases heq : mergeEntry sub n k v f with
    | ok u g =>
      rw [after_of_ok heq] at hstep hedited
      rw [bind_of_ok heq, ← after, ih hedited.sound ?_ h.2, hstep]
      rw [hedited.frozen_eq hmem, hn]
    | error e g =>
      rw [after_of_error heq] at hstep
      rw [bind_of_error heq]
      exact hstep

/-- A computation that comes in replaces whatever stood under its key. -/
theorem Sound.find?_mergeEntries_deferred (incoming : Entries Value) {f g : Forest} (hf : f.Sound)
    (hn : f.frozen n = false) (hin : incoming.keys.Nodup)
    (h : incoming.find? key = some (.deferred d))
    (hok : mergeEntries sub n incoming f = .ok () g) : g.find? n key = some (.deferred d) := by
  induction incoming generalizing f with
  | nil => cases h
  | cons e rest ih =>
    obtain ⟨k, v⟩ := e
    rw [Entries.keys, List.map_cons, List.nodup_cons] at hin
    have hmem := mem_of_frozen_eq_false hn
    have hedited := hf.edited_mergeEntry hsub hn k v
    obtain ⟨⟨⟩, f', hstep, hrest⟩ := bind_eq_ok.mp hok
    rw [after_of_ok hstep] at hedited
    have hopen : f'.frozen n = false := by rw [hedited.frozen_eq hmem, hn]
    by_cases hk : k = key
    · subst hk
      rw [Entries.find?, if_pos rfl] at h
      obtain rfl := Option.some.inj h
      -- what was written under the key stays there, since the key does not come in again
      have hwritten : write n k (.deferred d) f = .ok () (f.store n k (.deferred d)) :=
        write_eq_ok rfl n k
      have hreplace : mergeEntry sub n k (.deferred d) f = write n k (.deferred d) f :=
        mergeEntry_replace fun a _ ↦ ⟨fun heq ↦ (by cases heq), fun b heq ↦ by cases heq⟩
      rw [hreplace, hwritten] at hstep
      have hkept := hedited.sound.find?_mergeEntries hsub rest hopen hin.1
      rw [after_of_ok hrest] at hkept
      obtain rfl := (EStateM.Result.ok.inj hstep).2
      rw [hkept, find?_store_self hmem]
    · rw [Entries.find?, if_neg hk] at h
      exact ih hedited.sound hopen hin.2 h hrest

end Merging

theorem Sound.find?_mergeLevels (hf : f.Sound) (levels : ℕ) (h : key ∉ (f.entries other).keys) :
    (after (mergeLevels levels n other) f).find? n key = f.find? n key := by
  cases levels with
  | zero => rfl
  | succ levels =>
    cases hn : f.frozen n with
    | true => rw [after_of_error (mergeLevels_of_frozen hn levels other)]
    | false =>
      rw [after, mergeLevels_of_writable hn, ← after]
      exact hf.find?_mergeEntries (fun a b f hf ↦ hf.edited_mergeLevels levels) _ hn h

/-- **A merge touches only keys that come in.** -/
theorem Sound.find?_mergeValue (hf : f.Sound) (h : (f.view v).fields.find? key = none) :
    (after (mergeValue n v) f).find? n key = f.find? n key := by
  cases hn : f.frozen n with
  | true => rw [after_of_error (mergeValue_of_frozen hn v)]
  | false =>
    by_cases hnull : v = .null
    · rw [hnull, after_of_ok (mergeValue_null hn)]
    by_cases hnode : ∃ other, v = .node other
    · obtain ⟨other, rfl⟩ := hnode
      rw [hf.view_node, Tree.fields, Entries.mapValues_mapValues, Entries.find?_mapValues,
        Option.map_eq_none_iff, Entries.find?_eq_none_iff] at h
      rw [after, mergeValue_node hn, merge_eq, ← after]
      exact hf.find?_mergeLevels _ h
    rw [after, mergeValue_of_ne hn hnull fun other hv ↦ hnode ⟨other, hv⟩]
    rcases hf.create_cases v with ⟨o, g, hok, hmade⟩ | ⟨e, herror⟩
    · have hkeys : key ∉ (g.entries o).keys := by
        have hcontent := hmade.content
        rw [hmade.placed.sound.view_node, Tree.content_node, Entries.mapValues_mapValues]
          at hcontent
        rw [← Blueprint.node.inj hcontent, Entries.find?_mapValues, Option.map_eq_none_iff] at h
        exact Entries.find?_eq_none_iff.mp h
      rw [bind_of_ok hok, merge_eq, ← after, hmade.placed.sound.find?_mergeLevels _ hkeys]
      exact find?_congr (hmade.placed.grown.cell_eq (mem_of_frozen_eq_false hn)) key
    · rw [bind_of_error herror]

/-! ## Computations that are carried over -/

/-- **A merge carries computations over.** -/
theorem Sound.find?_mergeValue_deferred (hf : f.Sound) (h : f.find? other key = some (.deferred d))
    (hok : mergeValue n (.node other) f = .ok () g) : g.find? n key = some (.deferred d) := by
  cases hn : f.frozen n with
  | true =>
    rw [mergeValue_of_frozen hn] at hok
    cases hok
  | false =>
    have hother : other ∈ f := by
      by_contra hnot
      rw [find?, entries_of_notMem hnot] at h
      cases h
    obtain ⟨levels, hlevels⟩ :=
      Nat.exists_eq_succ_of_ne_zero (Nat.ne_zero_of_lt (mem_iff.mp hother))
    rw [mergeValue_node hn, merge_eq, hlevels, mergeLevels_of_writable hn] at hok
    exact hf.find?_mergeEntries_deferred (fun a b f hf ↦ hf.edited_mergeLevels levels) _ hn
      (hf.distinct other) h hok

/-- Freezing turns lists into tuples and leaves computations as they are. -/
theorem Sound.find?_freeze_deferred (hf : f.Sound) (h : f.find? n key = some (.deferred d))
    (c : NodeId) : (f.freeze c).find? n key = some (.deferred d) := by
  by_cases hr : f.Reaches c n
  · rw [find?, entries, hf.cell_freeze_of_reaches hr, Cell.sealed, Entries.find?_mapValues,
      ← entries, ← find?, h]
    rfl
  · rw [find?_congr (hf.cell_freeze_of_not_reaches hr), h]

/-- **A copy has the computations of the original.** -/
theorem Sound.find?_create_deferred {t : NodeId} (hf : f.Sound)
    (h : f.find? other key = some (.deferred d)) (hok : create (.node other) f = .ok t g) :
    g.find? t key = some (.deferred d) := by
  rcases hf.create_cases (.node other) with ⟨t', g', hok', hmade⟩ | ⟨e, herror⟩
  · obtain ⟨rfl, rfl⟩ := EStateM.Result.ok.inj (hok'.symm.trans hok)
    have hfields : (f.view (.node other)).fields.find? key = some (.deferred d) := by
      rw [hf.view_eq_fields, Tree.fields, Entries.find?_mapValues, find?_fields_of_find? h]
      rfl
    have hcontent := hmade.content
    rw [hmade.placed.sound.view_eq_fields, Tree.content_node] at hcontent
    rw [← Blueprint.node.inj hcontent, Entries.find?_mapValues, find?_fields, Option.map_map]
      at hfields
    obtain ⟨w, hw, hwd⟩ := Option.map_eq_some_iff.mp hfields
    rw [hw, hmade.placed.sound.eq_deferred_of_view (Tree.eq_deferred_of_content hwd)]
  · cases hok.symm.trans herror

end Forest

end LayeredConfig
