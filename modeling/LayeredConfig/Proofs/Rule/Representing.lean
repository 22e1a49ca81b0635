import LayeredConfig.Proofs.Node.Exporting
import LayeredConfig.Proofs.Rule.Interpreting
import Mathlib.Data.List.Find

/-!
# Rules over scalars see the content

A frozen node holds tuples where an open one holds lists, a node may be built anew from what it was
written out as, and a value may be stored or computed. Rules that mention scalars only do not notice:
which of their checks is violated depends on the content that is read, and on the environment
(`Sight.Displays`). So two nodes that offer the same content pass the same rules, and fail at the
same key (`Memory.Offers.ends`).
-/

namespace LayeredConfig

open Inspection (name)

/-- The value is a scalar. -/
def Value.IsScalar (v : Value) : Prop := ∃ s, v = .scalar s

theorem Value.IsScalar.known {v : Value} (h : v.IsScalar) (m : Memory) : m.Known v := by
  obtain ⟨s, rfl⟩ := h
  exact m.known_scalar s

theorem Condition.OverTexts.mono {p q : Value → Prop} {condition : Condition}
    (h : condition.OverTexts p) (hpq : ∀ v, p v → q v) : condition.OverTexts q := by
  cases h with
  | concreteEnvironment h => exact .concreteEnvironment (hpq _ h)
  | flag key expected => exact .flag key expected

/-- Rules may be taken to mention more. -/
theorem Rule.OverTexts.mono {p q : Value → Prop} {rule : Rule} (h : rule.OverTexts p)
    (hpq : ∀ v, p v → q v) : rule.OverTexts q := by
  induction h with
  | hasKeys keys => exact .hasKeys keys
  | hasValues key h hnull => exact .hasValues key (fun v hv ↦ hpq v (h v hv)) (hpq _ hnull)
  | areBooleans keys => exact .areBooleans keys
  | isNotEmpty key => exact .isNotEmpty key
  | nested key _ ih => exact .nested key ih
  | when hcondition _ ih => exact .when (hcondition.mono hpq) ih

/-! ## Trees as they are stored -/

/-- No mapping stands in the tree. -/
inductive Tree.Converted : Tree → Prop
  | scalar (s : Scalar) : Converted (.scalar s)
  | seq (kind : SeqKind) {items : List Tree} (h : ∀ t ∈ items, Converted t) :
      Converted (.seq kind items)
  | set (items : List Scalar) : Converted (.set items)
  | node (id : NodeId) (frozen : Bool) {fields : Entries Tree} (h : ∀ e ∈ fields, Converted e.2) :
      Converted (.node id frozen fields)
  | deferred (id : DeferredId) : Converted (.deferred id)

theorem Value.Uniform.converted_graft {sub : NodeId → Tree} {v : Value} {kind : SeqKind}
    (hv : v.Uniform kind) (h : ∀ c ∈ v.nodes, (sub c).Converted) : (v.graft sub).Converted := by
  induction hv with
  | scalar s => exact .scalar s
  | @seq items _ ih =>
    rw [graft_seq]
    refine .seq kind fun t ht ↦ ?_
    obtain ⟨w, hw, rfl⟩ := List.mem_map.mp ht
    refine ih w hw fun c hc ↦ h c ?_
    rw [nodes_seq]
    exact List.mem_flatMap.mpr ⟨w, hw, hc⟩
  | set items => exact .set items
  | node id => exact h id List.mem_cons_self
  | deferred id => exact .deferred id

/-- What a node holds has been converted. -/
theorem Forest.Sound.converted_view {f : Forest} (hf : f.Sound) (n : NodeId) :
    (f.view (.node n)).Converted := by
  induction n using hf.node_induction with
  | h n ih =>
    rw [hf.view_node]
    refine .node _ _ fun e he ↦ ?_
    obtain ⟨a, ha, rfl⟩ := List.mem_map.mp he
    exact (hf.uniform n a ha).converted_graft fun c hc ↦ ih c (List.mem_flatMap.mpr ⟨a, ha, hc⟩)

namespace Tree

variable {t u : Tree}

theorem truthy_congr (h : t.content = u.content) : t.truthy = u.truthy := by
  rw [← truthy_content, h, truthy_content]

theorem equal_scalar_congr (h : t.content = u.content) (a : Scalar) :
    t.equal (.scalar a) = u.equal (.scalar a) := by
  rw [← equal_scalar_content, h, equal_scalar_content]

/-- Of the kind of a scalar are scalars only. -/
theorem sameKind_scalar_content (t : Tree) (a : Scalar) :
    t.content.tree.sameKind (.scalar a) = t.sameKind (.scalar a) := by
  cases t with
  | seq kind items => rw [content_seq, Blueprint.tree_list]; rfl
  | mapping entries => rw [content_mapping, Blueprint.tree_node]; rfl
  | node id frozen fields => rw [content_node, Blueprint.tree_node]; rfl
  | _ => rfl

theorem sameKind_scalar_congr (h : t.content = u.content) (a : Scalar) :
    t.sameKind (.scalar a) = u.sameKind (.scalar a) := by
  rw [← sameKind_scalar_content, h, sameKind_scalar_content]

/-- The written form of a stored tree without computations does not depend on their names. -/
theorem Converted.quoted_eq (ht : t.Converted) (hsettled : t.content.Settled)
    (names names' : DeferredId → String) : t.quoted names = t.quoted names' := by
  induction ht with
  | scalar s => rfl
  | @seq kind items _ ih =>
    rw [content_seq] at hsettled
    have hitems : items.map (quoted names) = items.map (quoted names') :=
      List.map_congr_left fun t ht ↦ ih t ht (hsettled.items _ (List.mem_map_of_mem ht))
    cases kind with
    | list => rw [quoted_list, quoted_list, hitems]
    | tuple => rw [quoted_tuple, quoted_tuple, hitems]
  | set items => cases items <;> rfl
  | @node id frozen fields _ ih =>
    rw [content_node] at hsettled
    rw [quoted_node, quoted_node]
    refine congrArg (bracketed _ _) (List.map_congr_left fun e he ↦ ?_)
    exact congrArg (Quoted.text e.1 ++ ": " ++ ·)
      (ih e he (hsettled.fields _ (List.mem_map_of_mem he)))
  | deferred d => cases hsettled

theorem Converted.display_eq (ht : t.Converted) (hsettled : t.content.Settled)
    (names names' : DeferredId → String) : t.display names = t.display names' := by
  have hquoted := ht.quoted_eq hsettled names names'
  cases ht with
  | scalar s => rfl
  | _ => exact hquoted

/-- Where mappings have been converted, the content tells what is a node. -/
theorem Converted.isNode_content (ht : t.Converted) : t.content.tree.isNode = t.isNode := by
  cases ht with
  | seq kind h => rw [content_seq, Blueprint.tree_list]; rfl
  | node id frozen h => rw [content_node, Blueprint.tree_node]; rfl
  | _ => rfl

theorem Converted.isNode_congr (ht : t.Converted) (hu : u.Converted)
    (h : t.content = u.content) : t.isNode = u.isNode := by
  rw [← ht.isNode_content, h, hu.isNode_content]

theorem Converted.isSome_emptiness?_content (ht : t.Converted) :
    t.content.tree.emptiness?.isSome = t.emptiness?.isSome := by
  cases ht with
  | @seq kind items h =>
    rw [content_seq, Blueprint.tree_list]
    cases items <;> rfl
  | @node id frozen fields h =>
    rw [content_node, Blueprint.tree_node]
    cases fields <;> rfl
  | _ => rfl

theorem Converted.isSome_emptiness?_congr (ht : t.Converted) (hu : u.Converted)
    (h : t.content = u.content) : t.emptiness?.isSome = u.emptiness?.isSome := by
  rw [← ht.isSome_emptiness?_content, h, hu.isSome_emptiness?_content]

end Tree

/-! ## Sights of a content -/

/-- The fields of a node; anything else has none. -/
def Blueprint.nodeFields : Blueprint → Entries Blueprint
  | .node fields => fields
  | _ => []

/-- What is found in the sight are the given fields, in whatever form they are held. -/
structure Sight.Displays (s : Sight) (fields : Entries Blueprint) : Prop where
  view_scalar : ∀ a, s.view (.scalar a) = .scalar a
  defined : ∀ key, (s.fields.find? key).isSome = (fields.find? key).isSome
  content : ∀ key, (s.found key).content = (fields.find? key).getD (.scalar .null)
  converted : ∀ key, (s.found key).Converted
  settled : ∀ e ∈ fields, e.2.Settled

namespace Sight.Displays

variable {s s' : Sight} {fields : Entries Blueprint} {key : String}

theorem settled_found (h : s.Displays fields) (key : String) :
    ((fields.find? key).getD (.scalar .null)).Settled := by
  cases hb : fields.find? key with
  | none => exact .scalar .null
  | some b => exact h.settled _ (Entries.mem_of_find? hb)

/-- What is found in a node is what it holds, with the answers in the place of the computations that
stand under its keys. -/
theorem of_answered {s : Sight} {answer : DeferredId → Scalar}
    (hview : ∀ a, s.view (.scalar a) = .scalar a) (hconverted : ∀ e ∈ s.fields, e.2.Converted)
    (hanswers : ∀ e ∈ s.fields, e.2.content.Settled ∨
      ∃ d, e.2 = .deferred d ∧ s.answers d = .scalar (answer d)) :
    s.Displays ((s.fields.mapValues Tree.content).mapValues (Blueprint.answered answer)) := by
  have hresolved : ∀ e ∈ s.fields, (s.resolved e.2).content = e.2.content.answered answer ∧
      (s.resolved e.2).Converted := by
    intro e he
    rcases hanswers e he with hsettled | ⟨d, hd, hanswer⟩
    · have hne : ∀ d, e.2 ≠ .deferred d := by
        intro d hd
        rw [hd] at hsettled
        cases hsettled
      rw [s.resolved_of_ne hne, hsettled.answered_eq]
      exact ⟨rfl, hconverted e he⟩
    · rw [hd, Sight.resolved, hanswer]
      exact ⟨rfl, .scalar (answer d)⟩
  refine ⟨hview, fun key ↦ ?_, fun key ↦ ?_, fun key ↦ ?_,
    Blueprint.settled_answered (fun e he ↦ ?_) answer⟩
  · rw [Entries.find?_mapValues, Entries.find?_mapValues, Option.isSome_map, Option.isSome_map]
  · rw [found, Entries.find?_mapValues, Entries.find?_mapValues]
    cases ht : s.fields.find? key with
    | none => rfl
    | some t => exact (hresolved _ (Entries.mem_of_find? ht)).1
  · rw [found]
    cases ht : s.fields.find? key with
    | none => exact .scalar .null
    | some t => exact (hresolved _ (Entries.mem_of_find? ht)).2
  · obtain ⟨a, ha, rfl⟩ := List.mem_map.mp he
    exact (hanswers a ha).imp_right (Exists.imp fun d hd ↦ congrArg Tree.content hd.1)

/-- What is found in a node without computations is what it holds. -/
theorem of_settled {s : Sight} (hview : ∀ a, s.view (.scalar a) = .scalar a)
    (hconverted : ∀ e ∈ s.fields, e.2.Converted)
    (hsettled : ∀ e ∈ s.fields, e.2.content.Settled) :
    s.Displays (s.fields.mapValues Tree.content) := by
  have heq : (s.fields.mapValues Tree.content).mapValues (Blueprint.answered fun _ ↦ .null)
      = s.fields.mapValues Tree.content := by
    refine Entries.mapValues_eq_self fun e he ↦ ?_
    obtain ⟨a, ha, rfl⟩ := List.mem_map.mp he
    exact (hsettled a ha).answered_eq _
  exact heq ▸ of_answered hview hconverted fun e he ↦ .inl (hsettled e he)

/-- Inside a key the fields are displayed that stand there. -/
theorem inside (h : s.Displays fields) (key : String) :
    (s.inside key).Displays ((fields.find? key).getD (.scalar .null)).nodeFields := by
  have hconverted := h.converted key
  have hsettled := h.settled_found key
  rw [← h.content key] at hsettled ⊢
  have hinside : ∀ e ∈ (s.found key).nodeFields, e.2.Converted ∧ e.2.content.Settled := by
    intro e he
    cases hconverted' : s.found key with
    | node id frozen inner =>
      rw [hconverted'] at hconverted hsettled he
      rw [Tree.content_node] at hsettled
      cases hconverted with
      | node _ _ hall =>
        exact ⟨hall e he, hsettled.fields _ (List.mem_map.mpr ⟨e, he, rfl⟩)⟩
    | _ =>
      rw [hconverted'] at he
      exact absurd he List.not_mem_nil
  have hfields : (s.found key).content.nodeFields
      = (s.inside key).fields.mapValues Tree.content := by
    rw [Sight.inside]
    generalize s.found key = t at hconverted
    cases hconverted with
    | seq kind _ => rw [Tree.content_seq]; rfl
    | node id frozen _ => rw [Tree.content_node]; rfl
    | _ => rfl
  rw [hfields]
  exact of_settled h.view_scalar (fun e he ↦ (hinside e he).1) fun e he ↦ (hinside e he).2

variable (h : s.Displays fields) (h' : s'.Displays fields)

include h h'

theorem content_eq (key : String) : (s.found key).content = (s'.found key).content :=
  (h.content key).trans (h'.content key).symm

/-- A demand that mentions scalars only is met alike. -/
theorem oneOf_eq {values : List Value} {allowNull : Value} (hvalues : ∀ v ∈ values, v.IsScalar)
    (hnull : allowNull.IsScalar) :
    ((Demand.oneOf values allowNull).problem? s key).isSome
      = ((Demand.oneOf values allowNull).problem? s' key).isSome := by
  have hcontent := h.content_eq h' key
  obtain ⟨a, rfl⟩ := hnull
  have hallowed : s.allowed values (.scalar a) = s'.allowed values (.scalar a) := by
    rw [Sight.allowed, Sight.allowed, h.view_scalar, h'.view_scalar]
  have hmatch : ∀ v ∈ s'.allowed values (.scalar a),
      ((s.found key).equal (s.view v) && (s.found key).sameKind (s.view v))
        = ((s'.found key).equal (s'.view v) && (s'.found key).sameKind (s'.view v)) := by
    intro v hv
    obtain ⟨b, rfl⟩ : v.IsScalar := by
      rcases List.mem_append.mp hv with hv | hv
      · exact hvalues v hv
      · split at hv
        · exact ⟨.null, List.mem_singleton.mp hv⟩
        · exact absurd hv List.not_mem_nil
    rw [h.view_scalar, h'.view_scalar, Tree.equal_scalar_congr hcontent,
      Tree.sameKind_scalar_congr hcontent]
  have hany : ((s'.allowed values (.scalar a)).any fun v ↦
        (s.found key).equal (s.view v) && (s.found key).sameKind (s.view v))
      = (s'.allowed values (.scalar a)).any fun v ↦
        (s'.found key).equal (s'.view v) && (s'.found key).sameKind (s'.view v) := by
    rw [Bool.eq_iff_iff, List.any_eq_true, List.any_eq_true]
    exact exists_congr fun v ↦ and_congr_right fun hv ↦ by rw [hmatch v hv]
  simp only [Demand.problem?, hallowed, List.any_map, Function.comp_def, hany]
  split <;> rfl

theorem demand_eq {d : Demand} (hd : ∀ values allowNull, d ≠ .oneOf values allowNull) :
    (d.problem? s key).isSome = (d.problem? s' key).isSome := by
  have hcontent := h.content_eq h' key
  cases d with
  | defined =>
    rw [Demand.problem?, Demand.problem?, h.defined, h'.defined]
  | oneOf values allowNull => exact absurd rfl (hd values allowNull)
  | filled => exact (h.converted key).isSome_emptiness?_congr (h'.converted key) hcontent
  | nodeIfSet =>
    rw [Demand.problem?, Demand.problem?, Tree.truthy_congr hcontent,
      (h.converted key).isNode_congr (h'.converted key) hcontent]

/-- Conditions apply alike. -/
theorem appliesTo_eq (henvironment : s.environment = s'.environment) {condition : Condition}
    (hcondition : condition.OverTexts Value.IsScalar) :
    condition.appliesTo s = condition.appliesTo s' := by
  cases hcondition with
  | concreteEnvironment hexcluding =>
    obtain ⟨a, rfl⟩ := hexcluding
    rw [Condition.appliesTo, Condition.appliesTo, henvironment, h.view_scalar, h'.view_scalar]
  | flag key expected =>
    have htruthy := Tree.truthy_congr (h.content_eq h' (name (.text key)))
    rw [Bool.eq_iff_iff, Condition.appliesTo_iff, Condition.appliesTo_iff, Condition.Holds,
      Condition.Holds, htruthy]

end Sight.Displays

/-- **Rules over scalars** are violated at the same checks by sights of the same content. -/
theorem Rule.OverTexts.violated_eq {rule : Rule} (hrule : rule.OverTexts Value.IsScalar)
    {s s' : Sight} {fields : Entries Blueprint} (h : s.Displays fields) (h' : s'.Displays fields)
    (henvironment : s.environment = s'.environment) :
    ∀ c ∈ rule.checks, c.violated s = c.violated s' := by
  induction hrule generalizing s s' fields with
  | hasKeys keys =>
    rw [checks, List.forall_mem_map]
    intro key _
    exact h.demand_eq h' (by rintro _ _ ⟨⟩)
  | hasValues key hvalues hnull =>
    rw [checks, List.forall_mem_singleton]
    exact h.oneOf_eq h' hvalues hnull
  | areBooleans keys =>
    rw [checks, List.forall_mem_map]
    refine fun key _ ↦ h.oneOf_eq h' (fun v hv ↦ ?_) ⟨_, rfl⟩
    rcases List.mem_pair.mp hv with rfl | rfl
    · exact ⟨_, rfl⟩
    · exact ⟨_, rfl⟩
  | isNotEmpty key =>
    rw [checks, List.forall_mem_singleton]
    exact h.demand_eq h' (by rintro _ _ ⟨⟩)
  | @nested key rules _ ih =>
    rw [checks, List.forall_mem_cons, List.forall_mem_map, forall_mem_checksOf]
    refine ⟨h.demand_eq h' (by rintro _ _ ⟨⟩), fun rule hr c hc ↦ ?_⟩
    exact ih rule hr (h.inside key) (h'.inside key) henvironment c hc
  | @when condition rules hcondition _ ih =>
    rw [checks, List.forall_mem_map, forall_mem_checksOf]
    intro rule hr c hc
    have happlies := h.appliesTo_eq h' henvironment hcondition
    have hc : (c.problem? s).isSome = (c.problem? s').isSome := ih rule hr h h' henvironment c hc
    rw [Check.violated, Check.violated, Check.problem?, Check.problem?, happlies]
    split
    · exact hc
    · rfl

/-- So the first violated check is the same. -/
theorem Sight.Displays.verdict_eq {s s' : Sight} {fields : Entries Blueprint} {rules : List Rule}
    (h : s.Displays fields) (h' : s'.Displays fields) (henvironment : s.environment = s'.environment)
    (hrules : ∀ rule ∈ rules, rule.OverTexts Value.IsScalar) :
    s.verdict (checksOf rules) = s'.verdict (checksOf rules) := by
  refine List.find?_congr ?_
  rw [forall_mem_checksOf]
  exact fun rule hrule ↦ (hrules rule hrule).violated_eq h h' henvironment

/-! ## Nodes that offer a content -/

/-- A tree without computations leads to none. -/
theorem Tree.not_reads_of_settled {answers : DeferredId → Tree} {t : Tree} {d : DeferredId}
    (ht : t.content.Settled) : ¬t.Reads answers d := by
  intro hd
  induction hd with
  | self d => cases ht
  | answer _ _ => cases ht
  | field hkey _ ih =>
    rw [content_node] at ht
    exact ih (ht.fields _ (List.mem_map.mpr ⟨_, Entries.mem_of_find? hkey, rfl⟩))

/-- Reading the node gives the fields. Some of them may be computed, as long as the computation
always gives the same scalar. -/
structure Memory.Offers (m : Memory) (n : NodeId) (fields : Entries Blueprint) : Prop where
  sound : m.forest.Sound
  mem : n ∈ m.forest
  held : ∃ (answer : DeferredId → Scalar) (stored : Entries Blueprint),
    (m.view (.node n)).content = .node stored ∧
      stored.mapValues (Blueprint.answered answer) = fields ∧
      ∀ e ∈ stored, e.2.Settled ∨ ∃ d, e.2 = .deferred d ∧ m.Gives d (.scalar (answer d))

namespace Memory.Offers

variable {m m' : Memory} {n n' : NodeId} {fields : Entries Blueprint} {environment : Value}
  {rules : List Rule}

/-- A node without computations offers what it holds. -/
theorem of_settled (hm : m.forest.Sound) (hn : n ∈ m.forest)
    (hcontent : (m.view (.node n)).content = .node fields) (hfields : ∀ e ∈ fields, e.2.Settled) :
    m.Offers n fields := by
  refine ⟨hm, hn, fun _ ↦ .null, fields, hcontent, ?_, fun e he ↦ .inl (hfields e he)⟩
  exact Entries.mapValues_eq_self fun e he ↦ (hfields e he).answered_eq _

/-- Rules see the fields that are offered. -/
theorem displays (h : m.Offers n fields) (environment : Value) :
    ∃ answers, (m.sight answers n environment).Displays fields ∧
      ∀ d, (m.view (.node n)).Reads answers d → m.Gives d (answers d) := by
  obtain ⟨hm, _, answer, stored, hcontent, rfl, hstored⟩ := h
  have hview := hm.view_eq_fields n
  obtain rfl : stored = (m.forest.fields n).mapValues Tree.content :=
    Blueprint.node.inj (hcontent.symm.trans (content_node_eq hm n))
  have hconverted : ∀ e ∈ m.forest.fields n, e.2.Converted := by
    have hall := hm.converted_view n
    rw [hview] at hall
    cases hall with
    | node _ _ hall => exact hall
  have hcases : ∀ e ∈ m.forest.fields n, e.2.content.Settled ∨
      ∃ d, e.2 = .deferred d ∧ m.Gives d (.scalar (answer d)) := fun e he ↦
    (hstored _ (List.mem_map.mpr ⟨e, he, rfl⟩)).imp_right fun ⟨d, hd, hgives⟩ ↦
      ⟨d, Tree.eq_deferred_of_content hd, hgives⟩
  refine ⟨fun d ↦ .scalar (answer d), ?_, fun d hd ↦ ?_⟩
  · exact .of_answered (fun _ ↦ rfl) hconverted fun e he ↦
      (hcases e he).imp_right fun ⟨d, hd, _⟩ ↦ ⟨d, hd, rfl⟩
  -- what is read below a key is the computation that stands there, as the answers are scalars
  · rw [Memory.view, hview] at hd
    cases hd with
    | field hkey hd =>
      rcases hcases _ (Entries.mem_of_find? hkey) with hsettled | ⟨e, rfl, hgives⟩
      · exact absurd hd (Tree.not_reads_of_settled hsettled)
      · cases hd with
        | self => exact hgives
        | answer hd => cases hd

end Memory.Offers

/-- How validation ends: with a violation at the key path, or well. -/
def Validator.Ends (v : Validator) (m : Memory) : Option String → Prop
  | none => ∃ m', v.validate m = .ok () m'
  | some keyPath => ∃ environment problem m',
    v.validate m = .error (.configuration (.validationFailure keyPath environment problem)) m'

theorem Validator.Ends.unique {v : Validator} {m : Memory} {o o' : Option String}
    (h : v.Ends m o) (h' : v.Ends m o') : o = o' := by
  cases o with
  | none =>
    obtain ⟨m', hok⟩ := h
    cases o' with
    | none => rfl
    | some keyPath =>
      obtain ⟨_, _, _, herror⟩ := h'
      rw [hok] at herror
      cases herror
  | some keyPath =>
    obtain ⟨_, _, _, herror⟩ := h
    cases o' with
    | none =>
      obtain ⟨m', hok⟩ := h'
      rw [hok] at herror
      cases herror
    | some keyPath' =>
      obtain ⟨_, _, _, herror'⟩ := h'
      rw [herror] at herror'
      cases herror'
      rfl

theorem Reports.ends {v : Validator} {m : Memory} {s : Sight} {path : List String}
    {o : Option Check} (h : Reports v.validate m s path o) :
    v.Ends m (o.map fun c ↦ ".".intercalate (path ++ c.keys)) := by
  cases o with
  | none =>
    obtain ⟨m', hok, _⟩ := h
    exact ⟨m', hok⟩
  | some c =>
    obtain ⟨m', problem, herror, _⟩ := h
    exact ⟨_, problem, m', herror⟩

/-- **Nodes that offer the same** pass the same rules over scalars, and fail at the same key. -/
theorem Memory.Offers.ends {m m' : Memory} {n n' : NodeId} {fields : Entries Blueprint}
    {environment : Value} {rules : List Rule} (h : m.Offers n fields) (h' : m'.Offers n' fields)
    (henvironment : environment.IsScalar)
    (hrules : ∀ rule ∈ rules, rule.OverTexts Value.IsScalar) (path : List String) :
    ∃ o, Validator.Ends ⟨⟨n, environment, path.map .text⟩, rules⟩ m o ∧
      Validator.Ends ⟨⟨n', environment, path.map .text⟩, rules⟩ m' o := by
  obtain ⟨answers, hdisplays, hgives⟩ := h.displays environment
  obtain ⟨answers', hdisplays', hgives'⟩ := h'.displays environment
  have hsees := Sees.of_mem h.sound h.mem (henvironment.known m) hgives
  have hsees' := Sees.of_mem h'.sound h'.mem (henvironment.known m') hgives'
  have hview : m.view environment = m'.view environment := by
    obtain ⟨a, rfl⟩ := henvironment
    rfl
  have hknown : ∀ t : Memory, ∀ rule ∈ rules, rule.OverTexts t.Known := fun t rule hrule ↦
    (hrules rule hrule).mono fun v hv ↦ hv.known t
  have hreports' := hsees'.reports (hknown m') path
  rw [← hdisplays.verdict_eq hdisplays' hview hrules] at hreports'
  exact ⟨_, (hsees.reports (hknown m) path).ends, hreports'.ends⟩

end LayeredConfig
