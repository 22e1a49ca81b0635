import LayeredConfig.Node.Operation
import LayeredConfig.Proofs.Forest.Ownership
import LayeredConfig.Proofs.Tree.Blueprint

/-!
# Overlays

Writing entries over others is the shallow way to combine two nodes, merging them is the deep one.
The two differ only where a node was there before (`Blueprint.mergeFields_eq_overlay`), and
whether an overlay is made of contents or of the mappings they are written out as makes no
difference (`Blueprint.foldl_insertEntry`).
-/

namespace LayeredConfig

/-! ## Entries -/

namespace Entries

variable {α : Type} {old new : Entries α} {key : String} {value : α}

/-- Entries with others written over them. -/
def overlay (old new : Entries α) : Entries α := new.foldl (fun all e ↦ all.put e.1 e.2) old

theorem overlay_cons (old : Entries α) (e : String × α) (rest : Entries α) :
    overlay old (e :: rest) = overlay (old.put e.1 e.2) rest := rfl

theorem mem_overlay {e : String × α} (h : e ∈ overlay old new) : e ∈ old ∨ e ∈ new := by
  induction new generalizing old with
  | nil => exact .inl h
  | cons a rest ih =>
    rcases ih h with h | h
    · rcases mem_put h with rfl | h
      · exact .inr List.mem_cons_self
      · exact .inl h
    · exact .inr (List.mem_cons_of_mem _ h)

/-- A new key goes to the end. -/
theorem put_of_not_mem (h : key ∉ old.keys) : old.put key value = old ++ [(key, value)] := by
  induction old with
  | nil => rfl
  | cons e rest ih =>
    obtain ⟨k, v⟩ := e
    rw [keys, List.map_cons, List.mem_cons, not_or] at h
    rw [put, if_neg (Ne.symm h.1), ih h.2, List.cons_append]

/-- Without a common key an overlay is made of one after the other. -/
theorem overlay_of_disjoint (hnew : new.keys.Nodup) (h : ∀ key ∈ new.keys, key ∉ old.keys) :
    overlay old new = old ++ new := by
  induction new generalizing old with
  | nil => exact (List.append_nil old).symm
  | cons e rest ih =>
    obtain ⟨k, v⟩ := e
    rw [keys, List.map_cons, List.nodup_cons] at hnew
    have hk : k ∉ old.keys := h k List.mem_cons_self
    have hrest : ∀ key ∈ Entries.keys rest, key ∉ (old.put k v).keys := by
      intro key hkey hmem
      rw [keys_put, if_neg hk] at hmem
      rcases List.mem_append.mp hmem with hold | hlast
      · exact h key (List.mem_cons_of_mem _ hkey) hold
      · rw [List.mem_singleton.mp hlast] at hkey
        exact hnew.1 hkey
    rw [overlay_cons, ih hnew.2 hrest, put_of_not_mem hk, List.append_assoc, List.singleton_append]

theorem overlay_nil (hnew : new.keys.Nodup) : overlay [] new = new :=
  overlay_of_disjoint hnew fun _ _ ↦ List.not_mem_nil

theorem ofPairs_of_nodup (hnew : new.keys.Nodup) : ofPairs new = new := overlay_nil hnew

end Entries

theorem Value.keyEqual_text (j k : String) : keyEqual (.text j) (.text k) = decide (j = k) := rfl

/-- What stands under a text in a mapping with texts for keys. -/
theorem Value.lookupEntry?_texts {α : Type} (f : α → Value) (key : String) (entries : Entries α) :
    lookupEntry? (.text key) (entries.map fun e ↦ (.text e.1, f e.2))
      = (entries.find? key).map f := by
  induction entries with
  | nil => rfl
  | cons e rest ih =>
    obtain ⟨k, a⟩ := e
    rw [List.map_cons, lookupEntry?, List.find?_cons, keyEqual_text, Entries.find?]
    by_cases hk : k = key
    · rw [decide_eq_true hk, if_pos hk]
      rfl
    · rw [decide_eq_false hk, if_neg hk]
      exact ih

/-! ## Contents -/

namespace Blueprint

variable {old incoming fields : Entries Blueprint} {key : String}

/-- What stands under a key after a merge. -/
theorem find?_mergeFields (h : incoming.keys.Nodup) :
    (mergeFields old incoming).find? key
      = ((incoming.find? key).map fun b ↦ merge (old.find? key) b).or (old.find? key) := by
  induction incoming generalizing old with
  | nil => rfl
  | cons e rest ih =>
    obtain ⟨k, b⟩ := e
    rw [Entries.keys, List.map_cons, List.nodup_cons] at h
    rw [mergeFields, ih h.2]
    by_cases hk : k = key
    · subst hk
      rw [Entries.find?_put_self, Entries.find?, if_pos rfl, Entries.find?_eq_none_iff.mpr h.1]
      rfl
    · rw [Entries.find?_put_of_ne (Ne.symm hk), Entries.find?, if_neg hk]

/-- **Merging is an overlay** where every field that comes in replaces what stood there. -/
theorem mergeFields_eq_overlay (hkeys : incoming.keys.Nodup)
    (h : ∀ e ∈ incoming, merge (old.find? e.1) e.2 = e.2) :
    mergeFields old incoming = old.overlay incoming := by
  induction incoming generalizing old with
  | nil => rfl
  | cons e rest ih =>
    obtain ⟨k, b⟩ := e
    rw [Entries.keys, List.map_cons, List.nodup_cons] at hkeys
    rw [mergeFields, h (k, b) List.mem_cons_self, Entries.overlay_cons]
    refine ih hkeys.2 fun e he ↦ ?_
    -- what has come in under this key is not met again
    have hne : e.1 ≠ k := fun heq ↦ hkeys.1 (heq ▸ List.mem_map.mpr ⟨e, he, rfl⟩)
    rw [Entries.find?_put_of_ne hne]
    exact h e (List.mem_cons_of_mem _ he)

/-- Fields without a node among them are overlaid. -/
theorem mergeFields_of_flat (hkeys : incoming.keys.Nodup)
    (h : ∀ key fields, old.find? key ≠ some (.node fields)) :
    mergeFields old incoming = old.overlay incoming :=
  mergeFields_eq_overlay hkeys fun e _ ↦ merge_of_ne (h e.1)

theorem mergeFields_nil (hkeys : incoming.keys.Nodup) : mergeFields [] incoming = incoming := by
  rw [mergeFields_of_flat hkeys fun _ _ hc ↦ (by cases hc), Entries.overlay_nil hkeys]

theorem merge_of_merge_ne {o : Option Blueprint} {b : Blueprint}
    (h : ∀ fields, merge o b ≠ .node fields) : merge o b = b := by
  by_cases ho : ∃ fields, o = some (.node fields)
  · obtain ⟨fields, rfl⟩ := ho
    by_cases hnull : b = .scalar .null
    · subst hnull
      exact absurd rfl (h fields)
    · refine merge_of_plain hnull fun incoming hb ↦ ?_
      subst hb
      exact h _ rfl
  · exact merge_of_ne fun fields hc ↦ ho ⟨fields, hc⟩

/-- So are fields that give none. -/
theorem mergeFields_of_flat_result (hkeys : incoming.keys.Nodup)
    (h : ∀ key fields, (mergeFields old incoming).find? key ≠ some (.node fields)) :
    mergeFields old incoming = old.overlay incoming := by
  refine mergeFields_eq_overlay hkeys fun e he ↦ merge_of_merge_ne fun fields hnode ↦ ?_
  refine h e.1 fields ?_
  rw [find?_mergeFields hkeys, Entries.find?_of_mem hkeys he, Option.map_some, Option.some_or,
    hnode]

/-- The entries that the fields of a node are written out as. -/
def plainEntries (fields : Entries Blueprint) : List (Value × Value) :=
  fields.map fun e ↦ (.text e.1, e.2.plain)

theorem lookupEntry?_plain (key : String) (fields : Entries Blueprint) :
    Value.lookupEntry? (.text key) (plainEntries fields) = (fields.find? key).map plain :=
  Value.lookupEntry?_texts plain key fields

theorem insertEntry_plain (key : String) (b : Blueprint) (fields : Entries Blueprint) :
    Value.insertEntry (.text key) b.plain (plainEntries fields)
      = plainEntries (fields.put key b) := by
  induction fields with
  | nil => rfl
  | cons e rest ih =>
    obtain ⟨k, c⟩ := e
    rw [plainEntries, List.map_cons, Value.insertEntry, Value.keyEqual_text, Entries.put]
    by_cases hk : k = key
    · rw [if_pos (decide_eq_true hk), if_pos hk, hk]
      rfl
    · rw [if_neg (by simpa using hk), if_neg hk]
      exact congrArg ((Value.text k, c.plain) :: ·) ih

/-- **An overlay is written out** as the overlay of what its parts are written out as. -/
theorem foldl_insertEntry (old new : Entries Blueprint) :
    (plainEntries new).foldl (fun all e ↦ Value.insertEntry e.1 e.2 all) (plainEntries old)
      = plainEntries (old.overlay new) := by
  induction new generalizing old with
  | nil => rfl
  | cons e rest ih =>
    have hstep := ih (old.put e.1 e.2)
    rw [← insertEntry_plain] at hstep
    exact hstep

/-! ## Texts of what is written out -/

/-- What is written out of contents without computations looks the same everywhere. -/
theorem Settled.quoted_plain {b : Blueprint} (h : b.Settled) (m m' : Memory) :
    m.quoted b.plain = m'.quoted b.plain := by
  induction h with
  | scalar s => rfl
  | set items => cases items <;> rfl
  | list _ ih =>
    simp only [Memory.quoted, Memory.view] at ih ⊢
    rw [plain_list, Forest.view_seq, Forest.view_seq, Tree.quoted_list, Tree.quoted_list]
    simp only [List.map_map]
    exact congrArg (Tree.bracketed "[" "]") (List.map_congr_left ih)
  | node _ ih =>
    simp only [Memory.quoted, Memory.view] at ih ⊢
    rw [plain_node, Forest.view_mapping, Forest.view_mapping, Tree.quoted_mapping,
      Tree.quoted_mapping]
    simp only [List.map_map]
    refine congrArg (Tree.bracketed _ _) (List.map_congr_left fun e he ↦ ?_)
    exact congrArg (Quoted.text e.1 ++ ": " ++ ·) (ih e he)

theorem Settled.display_plain {b : Blueprint} (h : b.Settled) (m m' : Memory) :
    m.display b.plain = m'.display b.plain := by
  have hquoted := h.quoted_plain m m'
  cases h with
  | scalar s => rfl
  | set items => exact hquoted
  | list _ =>
    simp only [Memory.quoted, Memory.display, Memory.view, plain_list, Forest.view_seq] at hquoted ⊢
    exact hquoted
  | node _ =>
    simp only [Memory.quoted, Memory.display, Memory.view, plain_node, Forest.view_mapping]
      at hquoted ⊢
    exact hquoted

/-! ## What is written out, read again -/

/-- What a content is written out as has that content again, and can be stored. -/
theorem Settled.content_plain {b : Blueprint} (h : b.Settled) (hb : b.Distinct) (m : Memory) :
    (m.view b.plain).content = b ∧ (m.view b.plain).WellKeyed := by
  induction h with
  | scalar s => exact ⟨rfl, .scalar s⟩
  | set items => exact ⟨rfl, .set items⟩
  | @list items _ ih =>
    cases hb with
    | list hb =>
      have hitems : ∀ b ∈ items, (m.forest.view b.plain).content = b ∧
          (m.forest.view b.plain).WellKeyed := fun b hitem ↦ ih b hitem (hb b hitem)
      rw [plain_list, Memory.view, Forest.view_seq]
      constructor
      · rw [Tree.content_seq, List.map_map, List.map_map]
        refine congrArg Blueprint.list ((List.map_congr_left fun b hitem ↦ ?_).trans (List.map_id _))
        exact (hitems b hitem).1
      · refine .seq _ fun t ht ↦ ?_
        obtain ⟨v, hv, rfl⟩ := List.mem_map.mp ht
        obtain ⟨b, hitem, rfl⟩ := List.mem_map.mp hv
        exact (hitems b hitem).2
  | @node fields _ ih =>
    cases hb with
    | node hkeys hb =>
      have hfields : ∀ e ∈ fields, (m.forest.view e.2.plain).content = e.2 ∧
          (m.forest.view e.2.plain).WellKeyed := fun e he ↦ ih e he (hb e he)
      rw [plain_node, Memory.view, Forest.view_mapping, List.map_map]
      constructor
      · have hpairs : fields.map (fun e ↦ (e.1, (m.forest.view e.2.plain).content)) = fields := by
          refine (List.map_congr_left fun e he ↦ ?_).trans (List.map_id _)
          exact Prod.ext rfl (hfields e he).1
        rw [Tree.content_mapping, List.map_map]
        refine congrArg Blueprint.node (Eq.trans ?_ (Entries.ofPairs_of_nodup hkeys))
        exact congrArg Entries.ofPairs hpairs
      · refine .mapping (fun e he ↦ ?_) fun e he ↦ ?_
        · obtain ⟨a, _, rfl⟩ := List.mem_map.mp he
          exact ⟨a.1, rfl⟩
        · obtain ⟨a, ha, rfl⟩ := List.mem_map.mp he
          exact (hfields a ha).2

end Blueprint

end LayeredConfig
