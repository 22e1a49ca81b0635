import LayeredConfig.Proofs.Tree.Documents

/-!
# Contents with computations answered

Writing out a node runs the computations that stand under keys and puts their answers in their
place. It passes over those that are items of lists. `Blueprint.Resolved` says, form by form, what
becomes of a content and which answers go into it. All computations are answered, and a document
comes of it, if none of them is an item of a list, and only then
(`Blueprint.Resolved.document_iff`, `Blueprint.Resolved.answers_eq_iff`).
-/

namespace LayeredConfig.Blueprint

variable {b c : Blueprint} {items : List Blueprint} {fields : Entries Blueprint} {key : String}
  {answers : List (DeferredId × Scalar)}

mutual

/-- The computations that stand in the content, in the order in which it is read. -/
def deferreds : Blueprint → List DeferredId
  | .scalar _ => []
  | .set _ => []
  | .deferred d => [d]
  | .list items => itemDeferreds items
  | .node fields => fieldDeferreds fields
termination_by structural x => x

private def itemDeferreds : List Blueprint → List DeferredId
  | [] => []
  | b :: rest => deferreds b ++ itemDeferreds rest
termination_by structural x => x

private def fieldDeferreds : List (String × Blueprint) → List DeferredId
  | [] => []
  | (_, b) :: rest => deferreds b ++ fieldDeferreds rest
termination_by structural x => x

end

@[simp] theorem deferreds_list_cons :
    deferreds (.list (b :: items)) = b.deferreds ++ deferreds (.list items) := rfl

@[simp] theorem deferreds_node_cons :
    deferreds (.node ((key, b) :: fields)) = b.deferreds ++ deferreds (.node fields) := rfl

/-- No computation is an item of a list, at any depth. Under keys computations may stand. -/
inductive Keyed : Blueprint → Prop
  | scalar (s : Scalar) : Keyed (.scalar s)
  | set (items : List Scalar) : Keyed (.set items)
  | list {items : List Blueprint} (h : ∀ b ∈ items, Keyed b) : Keyed (.list items)
  | node {fields : Entries Blueprint} (h : ∀ e ∈ fields, (∀ d, e.2 ≠ .deferred d) → Keyed e.2) :
      Keyed (.node fields)

/-- The content `c` is `b` with the answers, in their order, in the place of the computations that
stand under keys. Computations that are items of lists stay where they are. -/
inductive Resolved : Blueprint → List (DeferredId × Scalar) → Blueprint → Prop
  | scalar (s : Scalar) : Resolved (.scalar s) [] (.scalar s)
  | set (items : List Scalar) : Resolved (.set items) [] (.set items)
  | listNil : Resolved (.list []) [] (.list [])
  | listCons {b c : Blueprint} {items items' : List Blueprint}
      {answers rest : List (DeferredId × Scalar)} (hb : Resolved b answers c)
      (h : Resolved (.list items) rest (.list items')) :
      Resolved (.list (b :: items)) (answers ++ rest) (.list (c :: items'))
  | listDeferred (d : DeferredId) {items items' : List Blueprint}
      {rest : List (DeferredId × Scalar)} (h : Resolved (.list items) rest (.list items')) :
      Resolved (.list (.deferred d :: items)) rest (.list (.deferred d :: items'))
  | nodeNil : Resolved (.node []) [] (.node [])
  | nodeCons (key : String) {b c : Blueprint} {fields fields' : Entries Blueprint}
      {answers rest : List (DeferredId × Scalar)} (hb : Resolved b answers c)
      (h : Resolved (.node fields) rest (.node fields')) :
      Resolved (.node ((key, b) :: fields)) (answers ++ rest) (.node ((key, c) :: fields'))
  | nodeDeferred (key : String) (d : DeferredId) (s : Scalar) {fields fields' : Entries Blueprint}
      {rest : List (DeferredId × Scalar)} (h : Resolved (.node fields) rest (.node fields')) :
      Resolved (.node ((key, .deferred d) :: fields)) ((d, s) :: rest)
        (.node ((key, .scalar s) :: fields'))

/-! ## What holds of a first item or entry and of the rest -/

theorem keyed_list_cons : Keyed (.list (b :: items)) ↔ b.Keyed ∧ Keyed (.list items) := by
  constructor
  · rintro (_ | _ | h | _)
    exact ⟨h b List.mem_cons_self, .list fun c hc ↦ h c (List.mem_cons_of_mem _ hc)⟩
  · rintro ⟨hb, _ | _ | h | _⟩
    exact .list (List.forall_mem_cons.mpr ⟨hb, h⟩)

theorem keyed_node_cons : Keyed (.node ((key, b) :: fields))
    ↔ ((∀ d, b ≠ .deferred d) → b.Keyed) ∧ Keyed (.node fields) := by
  constructor
  · rintro (_ | _ | _ | h)
    exact ⟨h (key, b) List.mem_cons_self, .node fun e he ↦ h e (List.mem_cons_of_mem _ he)⟩
  · rintro ⟨hb, _ | _ | _ | h⟩
    exact .node (List.forall_mem_cons.mpr ⟨hb, h⟩)

theorem settled_list_cons : Settled (.list (b :: items)) ↔ b.Settled ∧ Settled (.list items) := by
  refine ⟨fun h ↦ ?_, fun h ↦ .list (List.forall_mem_cons.mpr ⟨h.1, h.2.items⟩)⟩
  obtain ⟨hb, hrest⟩ := List.forall_mem_cons.mp h.items
  exact ⟨hb, .list hrest⟩

theorem settled_node_cons :
    Settled (.node ((key, b) :: fields)) ↔ b.Settled ∧ Settled (.node fields) := by
  refine ⟨fun h ↦ ?_, fun h ↦ .node (List.forall_mem_cons.mpr ⟨h.1, h.2.fields⟩)⟩
  obtain ⟨hb, hrest⟩ := List.forall_mem_cons.mp h.fields
  exact ⟨hb, .node hrest⟩

theorem distinct_list_cons :
    Distinct (.list (b :: items)) ↔ b.Distinct ∧ Distinct (.list items) := by
  constructor
  · rintro (_ | _ | _ | h | _)
    exact ⟨h b List.mem_cons_self, .list fun c hc ↦ h c (List.mem_cons_of_mem _ hc)⟩
  · rintro ⟨hb, _ | _ | _ | h | _⟩
    exact .list (List.forall_mem_cons.mpr ⟨hb, h⟩)

theorem distinct_node_cons : Distinct (.node ((key, b) :: fields))
    ↔ key ∉ fields.keys ∧ b.Distinct ∧ Distinct (.node fields) := by
  constructor
  · rintro (_ | _ | _ | _ | ⟨once, h⟩)
    obtain ⟨hfresh, hrest⟩ := List.nodup_cons.mp once
    exact ⟨hfresh, h (key, b) List.mem_cons_self,
      .node hrest fun e he ↦ h e (List.mem_cons_of_mem _ he)⟩
  · rintro ⟨hfresh, hb, _ | _ | _ | _ | ⟨once, h⟩⟩
    exact .node (List.nodup_cons.mpr ⟨hfresh, once⟩) (List.forall_mem_cons.mpr ⟨hb, h⟩)

namespace Resolved

theorem ne_deferred (h : Resolved b answers c) (d : DeferredId) : b ≠ .deferred d := by
  rintro rfl
  cases h

/-- **No computation is left** if none was an item of a list, and only then. -/
theorem settled_iff (h : Resolved b answers c) : c.Settled ↔ b.Keyed := by
  induction h with
  | scalar s => exact iff_of_true (.scalar s) (.scalar s)
  | set items => exact iff_of_true (.set items) (.set items)
  | listNil => exact iff_of_true (.list nofun) (.list nofun)
  | listCons _ _ ihb ih => rw [settled_list_cons, keyed_list_cons, ihb, ih]
  | listDeferred d _ _ =>
    refine iff_of_false (fun h ↦ ?_) fun h ↦ ?_
    · cases (settled_list_cons.mp h).1
    · cases (keyed_list_cons.mp h).1
  | nodeNil => exact iff_of_true (.node nofun) (.node nofun)
  | nodeCons key hb _ ihb ih =>
    rw [settled_node_cons, keyed_node_cons, ihb, ih, forall_prop_of_true hb.ne_deferred]
  | nodeDeferred key d s _ ih =>
    rw [settled_node_cons, keyed_node_cons, ih]
    exact and_congr_left' (iff_of_true (.scalar s) fun h ↦ absurd rfl (h d))

/-- The keys and their order stay. -/
theorem exists_fields (h : Resolved b answers c) {fields : Entries Blueprint}
    (hb : b = .node fields) :
    ∃ fields' : Entries Blueprint, c = .node fields' ∧ fields'.keys = fields.keys := by
  induction h generalizing fields with
  | nodeNil =>
    cases hb
    exact ⟨[], rfl, rfl⟩
  | nodeCons key _ _ _ ih =>
    cases hb
    obtain ⟨_, hfields, hkeys⟩ := ih rfl
    cases hfields
    exact ⟨_, rfl, congrArg (key :: ·) hkeys⟩
  | nodeDeferred key d s _ ih =>
    cases hb
    obtain ⟨_, hfields, hkeys⟩ := ih rfl
    cases hfields
    exact ⟨_, rfl, congrArg (key :: ·) hkeys⟩
  | _ => cases hb

theorem distinct (h : Resolved b answers c) (hb : b.Distinct) : c.Distinct := by
  induction h with
  | listCons _ _ ihb ih =>
    obtain ⟨hfirst, hrest⟩ := distinct_list_cons.mp hb
    exact distinct_list_cons.mpr ⟨ihb hfirst, ih hrest⟩
  | listDeferred d _ ih =>
    exact distinct_list_cons.mpr ⟨.deferred d, ih (distinct_list_cons.mp hb).2⟩
  | nodeCons key _ h ihb ih =>
    obtain ⟨hfresh, hfirst, hrest⟩ := distinct_node_cons.mp hb
    obtain ⟨_, hfields, hkeys⟩ := h.exists_fields rfl
    cases hfields
    exact distinct_node_cons.mpr ⟨hkeys ▸ hfresh, ihb hfirst, ih hrest⟩
  | nodeDeferred key d s h ih =>
    obtain ⟨hfresh, _, hrest⟩ := distinct_node_cons.mp hb
    obtain ⟨_, hfields, hkeys⟩ := h.exists_fields rfl
    cases hfields
    exact distinct_node_cons.mpr ⟨hkeys ▸ hfresh, .scalar s, ih hrest⟩
  | _ => exact hb

/-- **What is written out is a document** if no computation was an item of a list, and only
then. -/
theorem document_iff (h : Resolved b answers c) (hb : b.Distinct) : c.plain.Document ↔ b.Keyed :=
  (h.distinct hb).document_plain_iff.trans h.settled_iff

/-! ## Which computations are answered -/

theorem answers_eq (h : Resolved b answers c) (hb : b.Keyed) :
    answers.map Prod.fst = b.deferreds := by
  induction h with
  | scalar s => rfl
  | set items => rfl
  | listNil => rfl
  | listCons _ _ ihb ih =>
    obtain ⟨hfirst, hrest⟩ := keyed_list_cons.mp hb
    rw [List.map_append, deferreds_list_cons, ihb hfirst, ih hrest]
  | listDeferred d _ _ => cases (keyed_list_cons.mp hb).1
  | nodeNil => rfl
  | nodeCons key hstored _ ihb ih =>
    obtain ⟨hfirst, hrest⟩ := keyed_node_cons.mp hb
    rw [List.map_append, deferreds_node_cons, ihb (hfirst hstored.ne_deferred), ih hrest]
  | nodeDeferred key d s _ ih =>
    rw [List.map_cons, deferreds_node_cons, ih (keyed_node_cons.mp hb).2]
    rfl

theorem length_le (h : Resolved b answers c) : answers.length ≤ b.deferreds.length := by
  induction h with
  | listCons _ _ ihb ih =>
    rw [deferreds_list_cons, List.length_append, List.length_append]
    exact Nat.add_le_add ihb ih
  | listDeferred d _ ih =>
    rw [deferreds_list_cons, List.length_append]
    exact Nat.le_add_left_of_le ih
  | nodeCons key _ _ ihb ih =>
    rw [deferreds_node_cons, List.length_append, List.length_append]
    exact Nat.add_le_add ihb ih
  | nodeDeferred key d s _ ih =>
    rw [deferreds_node_cons, List.length_append, List.length_cons, Nat.add_comm]
    exact Nat.add_le_add_left ih 1
  | _ => exact Nat.le_refl _

/-- A computation that is an item of a list is not answered. -/
theorem keyed_of_length (h : Resolved b answers c) (hlength : answers.length = b.deferreds.length) :
    b.Keyed := by
  induction h with
  | scalar s => exact .scalar s
  | set items => exact .set items
  | listNil => exact .list nofun
  | listCons hb h ihb ih =>
    rw [deferreds_list_cons, List.length_append, List.length_append] at hlength
    have hfirst := hb.length_le
    have hrest := h.length_le
    exact keyed_list_cons.mpr ⟨ihb (by omega), ih (by omega)⟩
  | listDeferred d h _ =>
    rw [deferreds_list_cons, List.length_append] at hlength
    have hone : (deferred d).deferreds.length = 1 := rfl
    have hrest := h.length_le
    omega
  | nodeNil => exact .node nofun
  | nodeCons key hb h ihb ih =>
    rw [deferreds_node_cons, List.length_append, List.length_append] at hlength
    have hfirst := hb.length_le
    have hrest := h.length_le
    exact keyed_node_cons.mpr ⟨fun _ ↦ ihb (by omega), ih (by omega)⟩
  | nodeDeferred key d s _ ih =>
    rw [deferreds_node_cons, List.length_append, List.length_cons] at hlength
    have hone : (deferred d).deferreds.length = 1 := rfl
    exact keyed_node_cons.mpr ⟨fun h ↦ absurd rfl (h d), ih (by omega)⟩

/-- **Every computation is answered, once for each place where it stands**, if none is an item of a
list, and only then. -/
theorem answers_eq_iff (h : Resolved b answers c) :
    answers.map Prod.fst = b.deferreds ↔ b.Keyed := by
  refine ⟨fun heq ↦ h.keyed_of_length ?_, h.answers_eq⟩
  rw [← heq, List.length_map]

end Resolved

end LayeredConfig.Blueprint
