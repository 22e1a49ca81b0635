import LayeredConfig.Proofs.Exceptions
import LayeredConfig.Proofs.Tree.Blueprint
import LayeredConfig.Yaml.Document

/-!
# Documents hold no nodes

A document is made of scalars, sequences, sets and mappings. It cannot mention a node or a
computation, so what becomes of it when it is stored holds no computation.
-/

namespace LayeredConfig

/-! ## Plain values -/

/-- Neither a node nor a computation stands in the value. -/
inductive Value.Plain : Value → Prop
  | scalar (s : Scalar) : Plain (.scalar s)
  | seq (kind : SeqKind) {items : List Value} (h : ∀ v ∈ items, Plain v) : Plain (.seq kind items)
  | set (items : List Scalar) : Plain (.set items)
  | mapping {entries : List (Value × Value)} (keys : ∀ e ∈ entries, Plain e.1)
      (values : ∀ e ∈ entries, Plain e.2) : Plain (.mapping entries)

namespace Value

theorem mem_insertEntry {key value : Value} {entries : List (Value × Value)} {e : Value × Value}
    (h : e ∈ insertEntry key value entries) :
    (e.1 = key ∨ ∃ a ∈ entries, e.1 = a.1) ∧ (e.2 = value ∨ ∃ a ∈ entries, e.2 = a.2) := by
  induction entries with
  | nil =>
    rw [List.mem_singleton.mp h]
    exact ⟨.inl rfl, .inl rfl⟩
  | cons a rest ih =>
    obtain ⟨k, v⟩ := a
    have hself : ∀ e ∈ (k, v) :: rest, (e.1 = key ∨ ∃ a ∈ (k, v) :: rest, e.1 = a.1) ∧
        (e.2 = value ∨ ∃ a ∈ (k, v) :: rest, e.2 = a.2) := fun e he ↦
      ⟨.inr ⟨e, he, rfl⟩, .inr ⟨e, he, rfl⟩⟩
    rw [insertEntry] at h
    split at h
    · rcases List.mem_cons.mp h with rfl | hrest
      · exact ⟨.inr ⟨_, List.mem_cons_self, rfl⟩, .inl rfl⟩
      · exact hself e (List.mem_cons_of_mem _ hrest)
    · rcases List.mem_cons.mp h with rfl | hrest
      · exact hself _ List.mem_cons_self
      · obtain ⟨hkey, hvalue⟩ := ih hrest
        refine ⟨hkey.imp_right ?_, hvalue.imp_right ?_⟩
        · rintro ⟨a, ha, heq⟩
          exact ⟨a, List.mem_cons_of_mem _ ha, heq⟩
        · rintro ⟨a, ha, heq⟩
          exact ⟨a, List.mem_cons_of_mem _ ha, heq⟩

/-- What holds of the keys and the values of pairs holds after they were inserted. -/
theorem forall_mem_insertAll {K V : Value → Prop} {pairs entries : List (Value × Value)}
    (hpairs : ∀ e ∈ pairs, K e.1 ∧ V e.2) (hentries : ∀ e ∈ entries, K e.1 ∧ V e.2) :
    ∀ e ∈ pairs.foldl (fun entries (k, v) ↦ insertEntry k v entries) entries, K e.1 ∧ V e.2 := by
  induction pairs generalizing entries with
  | nil => exact hentries
  | cons a rest ih =>
    obtain ⟨hfirst, hrest⟩ := List.forall_mem_cons.mp hpairs
    refine ih hrest fun e he ↦ ?_
    obtain ⟨hkey, hvalue⟩ := mem_insertEntry he
    constructor
    · rcases hkey with heq | ⟨c, hc, heq⟩
      · exact heq ▸ hfirst.1
      · exact heq ▸ (hentries c hc).1
    · rcases hvalue with heq | ⟨c, hc, heq⟩
      · exact heq ▸ hfirst.2
      · exact heq ▸ (hentries c hc).2

/-- A mapping of plain keys and values is plain. -/
theorem plain_mappingOf {pairs : List (Value × Value)}
    (h : ∀ e ∈ pairs, e.1.Plain ∧ e.2.Plain) : (mappingOf pairs).Plain := by
  have hall := forall_mem_insertAll h fun e he ↦ absurd he List.not_mem_nil
  exact .mapping (fun e he ↦ (hall e he).1) fun e he ↦ (hall e he).2

/-- **A plain value** holds no computation when it is stored. -/
theorem Plain.settled_content {v : Value} (hv : v.Plain) (sub : NodeId → Tree) :
    (v.graft sub).content.Settled := by
  induction hv with
  | scalar s => exact .scalar s
  | seq kind _ ih =>
    rw [graft_seq, Tree.content_seq, List.map_map]
    refine .list fun b hb ↦ ?_
    obtain ⟨v, hv, rfl⟩ := List.mem_map.mp hb
    exact ih v hv
  | set items => exact .set items
  | @mapping entries _ _ _ ih =>
    rw [graft_mapping, Tree.content_mapping]
    refine .node fun e he ↦ ?_
    obtain ⟨t, ht, rfl⟩ := List.mem_map.mp (Entries.mem_of_mem_ofPairs he)
    obtain ⟨a, ha, rfl⟩ := List.mem_map.mp ht
    exact ih a ha

/-- It is the same tree everywhere. -/
theorem Plain.graft_eq {v : Value} (hv : v.Plain) (sub sub' : NodeId → Tree) :
    v.graft sub = v.graft sub' := by
  induction hv with
  | scalar s => rfl
  | seq kind _ ih =>
    rw [graft_seq, graft_seq]
    exact congrArg _ (List.map_congr_left ih)
  | set items => rfl
  | mapping _ _ ihkeys ihvalues =>
    rw [graft_mapping, graft_mapping]
    refine congrArg _ (List.map_congr_left fun e he ↦ ?_)
    rw [ihkeys e he, ihvalues e he]

end Value

/-! ## Documents -/

namespace Yaml

/-- The value of a node is plain. -/
theorem Node.plain_build (height : ℕ) (n : Node) : Gives Value.Plain (n.build height) := by
  induction height generalizing n with
  | zero => exact .error _
  | succ height ih =>
    by_cases hloop : n = .loop
    · rw [hloop, build.eq_2 _ (Nat.succ_ne_zero height)]
      exact .error _
    rw [build.eq_3 n height hloop]
    split
    · exact (Gives.anything _).bind fun _ _ ↦ (Gives.anything _).bind fun s _ ↦
        .ok (.scalar s)
    refine (Gives.anything _).bind fun parts _ ↦ ?_
    cases parts with
    | items nodes =>
      refine (Gives.mapM fun n _ ↦ ih n).bind fun items hitems ↦ ?_
      exact .ok (.seq .list hitems)
    | keyed pairs =>
      have hpairs : Gives (fun pairs : List (Value × Value) ↦
          ∀ e ∈ pairs, e.1.Plain ∧ e.2.Plain) (pairs.mapM fun e ↦
            return (← build height e.1, ← build height e.2)) := by
        refine .mapM fun e _ ↦ (ih e.1).bind fun k hk ↦ (ih e.2).bind fun v hv ↦ ?_
        exact .ok ⟨hk, hv⟩
      refine hpairs.bind fun pairs hpairs ↦ ?_
      split
      · exact .ok (.set _)
      · exact .ok (Value.plain_mappingOf hpairs)
    | singles nodes =>
      refine Gives.bind (P := fun items ↦ ∀ v ∈ items, v.Plain) (.mapM fun n _ ↦ ?_)
        fun items hitems ↦ .ok (.seq .list hitems)
      refine (Gives.anything _).bind fun pair _ ↦ (ih pair.1).bind fun k hk ↦
        (ih pair.2).bind fun v hv ↦ .ok (.seq .tuple ?_)
      simp [hk, hv]

/-- **A document is plain.** -/
theorem plain_load (text : String) : Gives Value.Plain (load text) := by
  unfold load
  split
  · exact .error _
  · exact .ok (.scalar .null)
  · exact (Gives.anything _).bind fun _ _ ↦ (Gives.anything _).bind fun _ _ ↦ Node.plain_build _ _

end Yaml

end LayeredConfig
