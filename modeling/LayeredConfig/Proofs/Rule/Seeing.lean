import LayeredConfig.Proofs.Node.Reading
import LayeredConfig.Proofs.Rule.Meaning

/-!
# What rules see of a node

A node is checked in a memory: computations run while it is read, and nodes are made where sub-trees
are missing. Nothing that was there changes (`Memory.Aside`). So as long as each computation that is
met gives the same every time (`Memory.Gives`), what is read under a key is what is found there in a
`Sight` of the node, but for the identities of nodes. A node that was found is seen in turn as the
sight inside its key says, and reading can go on there (`Sees.inside`).
-/

namespace LayeredConfig

open Memory (Beyond)

namespace Memory

variable {m m' m'' : Memory} {v : Value} {t : Tree} {d : DeferredId}

/-- No node has changed since the first memory, and names stand for what they stood for. -/
structure Aside (m m' : Memory) : Prop where
  beyond : Beyond m m'
  names_eq : m'.names = m.names

theorem Aside.refl (hm : m.forest.Sound) : Aside m m := ⟨.refl hm, rfl⟩

theorem Aside.trans (h : Aside m m') (h' : Aside m' m'') : Aside m m'' :=
  ⟨h.beyond.trans h'.beyond, h'.names_eq.trans h.names_eq⟩

/-- Changing the forest changes no name. -/
theorem names_of_onForest {α : Type} {change : ForestM α} {a : α}
    (h : onForest change m = .ok a m') : m'.names = m.names := by
  unfold onForest at h
  cases hc : change m.forest with
  | ok b f =>
    rw [hc] at h
    cases h
    rfl
  | error e f =>
    rw [hc] at h
    cases h

/-- The value looks like the tree, but for the identities of nodes. -/
structure Looks (m : Memory) (v : Value) (t : Tree) : Prop where
  known : m.Known v
  anonymous_eq : (m.view v).anonymous = t.anonymous

/-- In this memory, and while only computations run and nodes are made, the computation gives a
value that looks like the tree. -/
def Gives (m : Memory) (d : DeferredId) (t : Tree) : Prop :=
  ∀ m', Aside m m' → ∃ v m'', evaluate d m' = .ok v m'' ∧ Aside m' m'' ∧ Looks m'' v t

theorem Gives.later (h : m.Gives d t) (hmm : Aside m m') : m'.Gives d t :=
  fun m'' h' ↦ h m'' (hmm.trans h')

namespace Looks

theorem later (h : Looks m v t) (hm : m.forest.Sound) (hmm : Aside m m') : Looks m' v t :=
  ⟨fun a ha ↦ hmm.beyond.grown.mem (h.known a ha),
    hmm.beyond.view_eq hm h.known ▸ h.anonymous_eq⟩

theorem scalar (m : Memory) (a : Scalar) : Looks m (.scalar a) (.scalar a) :=
  ⟨known_scalar m a, rfl⟩

theorem eq_deferred (h : Looks m v (.deferred d)) (hm : m.forest.Sound) : v = .deferred d := by
  refine eq_deferred_of_content hm ?_
  rw [← Tree.content_anonymous, h.anonymous_eq]
  rfl

/-- Only a computation looks like one. -/
theorem ne_deferred (h : Looks m v t) (ht : ∀ d, t ≠ .deferred d) (d : DeferredId) :
    v ≠ .deferred d := by
  rintro rfl
  have hsame : Tree.deferred d = t.anonymous := h.anonymous_eq
  cases t with
  | deferred d' => exact ht d' rfl
  | seq kind items => rw [Tree.anonymous_seq] at hsame; cases hsame
  | mapping entries => rw [Tree.anonymous_mapping] at hsame; cases hsame
  | node id frozen fields => rw [Tree.anonymous_node] at hsame; cases hsame
  | _ => cases hsame

theorem truthy_eq (h : Looks m v t) (hm : m.forest.Sound) : m.forest.truthy v = t.truthy := by
  rw [← truthy_view hm, ← Tree.truthy_anonymous, h.anonymous_eq, Tree.truthy_anonymous]

theorem equal_eq (h : Looks m v t) (u : Tree) : (m.view v).equal u = t.equal u := by
  rw [← Tree.equal_anonymous, h.anonymous_eq, Tree.equal_anonymous]

theorem sameKind_eq (h : Looks m v t) (u : Tree) : (m.view v).sameKind u = t.sameKind u := by
  rw [← Tree.sameKind_anonymous, h.anonymous_eq, Tree.sameKind_anonymous]

/-- What is a node, and what is none, can be seen. -/
theorem eq_node_iff (h : Looks m v t) (hm : m.forest.Sound) :
    t.isNode = true ↔ ∃ c, v = .node c := by
  have hsame := h.anonymous_eq
  constructor
  · intro ht
    cases t with
    | node id frozen fields =>
      rw [Tree.anonymous_node] at hsame
      cases v with
      | node c => exact ⟨c, rfl⟩
      | seq kind items => rw [view, Forest.view_seq, Tree.anonymous_seq] at hsame; cases hsame
      | mapping entries =>
        rw [view, Forest.view_mapping, Tree.anonymous_mapping] at hsame
        cases hsame
      | _ => cases hsame
    | _ => cases ht
  · rintro ⟨c, rfl⟩
    rw [view, hm.view_node, Tree.anonymous_node] at hsame
    cases t with
    | node id frozen fields => rfl
    | seq kind items => rw [Tree.anonymous_seq] at hsame; cases hsame
    | mapping entries => rw [Tree.anonymous_mapping] at hsame; cases hsame
    | _ => cases hsame

/-- What stands under a key of a node looks like what stands there in the tree. -/
theorem find? {n id : NodeId} {frozen : Bool} {fields : Entries Tree}
    (h : Looks m (.node n) (.node id frozen fields)) (hm : m.forest.Sound) (key : String) :
    (fields.find? key = none → m.forest.find? n key = none) ∧
    ∀ t, fields.find? key = some t → ∃ v, m.forest.find? n key = some v ∧ Looks m v t := by
  have hsame := h.anonymous_eq
  rw [view, hm.view_eq_fields, Tree.anonymous_node, Tree.anonymous_node] at hsame
  have hfind := congrArg (Entries.find? key) (Tree.node.inj hsame).2.2
  rw [Entries.find?_mapValues, Entries.find?_mapValues, Forest.find?_fields, Option.map_map]
    at hfind
  constructor
  · intro hnone
    rw [hnone] at hfind
    exact Option.map_eq_none_iff.mp hfind
  · intro t ht
    rw [ht] at hfind
    obtain ⟨v, hv, hvt⟩ := Option.map_eq_some_iff.mp hfind
    exact ⟨v, hv, fun a ha ↦ (hm.younger (Forest.mem_children_of_find? hv ha)).2, hvt⟩

end Looks

end Memory

open Memory (Aside Gives Looks)

/-- Reading on from the tree, key by key, comes to the computation; where it comes to one, it goes
on in the answer. -/
inductive Tree.Reads (answers : DeferredId → Tree) : Tree → DeferredId → Prop
  | self (d : DeferredId) : Reads answers (.deferred d) d
  | answer {d e : DeferredId} (h : Reads answers (answers d) e) : Reads answers (.deferred d) e
  | field {id : NodeId} {frozen : Bool} {fields : Entries Tree} {key : String} {t : Tree}
      {d : DeferredId} (hkey : fields.find? key = some t) (h : Reads answers t d) :
      Reads answers (.node id frozen fields) d

/-- What is met in an answer is met in the computation. -/
theorem Tree.Reads.of_resolved {s : Sight} {t : Tree} {d : DeferredId}
    (h : (s.resolved t).Reads s.answers d) : t.Reads s.answers d := by
  cases t with
  | deferred e => exact .answer h
  | _ => exact h

theorem Sight.resolved_of_ne (s : Sight) {t : Tree} (h : ∀ d, t ≠ .deferred d) :
    s.resolved t = t := by
  cases t with
  | deferred d => exact absurd rfl (h d)
  | _ => rfl

/-! ## Reading -/

/-- In this memory the node looks like the sight, and the computations that are met in it answer
what the sight says. Since the memory `m₀` nothing has changed. -/
structure Sees (m₀ m : Memory) (n : NodeId) (environment : Value) (s : Sight) : Prop where
  sound : m₀.forest.Sound
  aside : Aside m₀ m
  view_eq : s.view = m₀.view
  known : m₀.Known environment
  environment_eq : s.environment = m₀.view environment
  looks : ∃ id frozen, Looks m (.node n) (.node id frozen s.fields)
  answers : ∀ id frozen d, (Tree.node id frozen s.fields).Reads s.answers d →
    m₀.Gives d (s.answers d)

namespace Sees

variable {m₀ m m' : Memory} {n : NodeId} {environment v : Value} {s : Sight} {key : String}
  {path : List String} (h : Sees m₀ m n environment s)

include h

theorem sound' : m.forest.Sound := h.aside.beyond.sound

theorem later (hmm : Aside m m') : Sees m₀ m' n environment s := by
  obtain ⟨id, frozen, hlooks⟩ := h.looks
  exact { h with
    aside := h.aside.trans hmm
    looks := ⟨id, frozen, hlooks.later h.sound' hmm⟩ }

theorem view_known (hv : m₀.Known v) : m.view v = s.view v := by
  rw [h.view_eq]
  exact h.aside.beyond.view_eq h.sound hv

theorem truthy_known (hv : m₀.Known v) : truthyValue v m = .ok (s.view v).truthy m := by
  rw [← h.view_known hv, Memory.truthy_view h.sound']
  rfl

theorem hasKey (key : String) :
    Node.hasKey n (.text key) m = .ok (s.fields.find? key).isSome m := by
  obtain ⟨id, frozen, hlooks⟩ := h.looks
  obtain ⟨hnone, hsome⟩ := hlooks.find? h.sound' key
  rw [Node.hasKey_text]
  cases ht : s.fields.find? key with
  | none =>
    rw [hnone ht]
    rfl
  | some t =>
    obtain ⟨v, hv, _⟩ := hsome t ht
    rw [hv]
    rfl

/-- What is read under a key looks like what is found there. -/
theorem valueOf (key : String) : ∃ v m', Node.valueOf n (.text key) m = .ok v m' ∧ Aside m m' ∧
    Looks m' v (s.found key) := by
  obtain ⟨id, frozen, hlooks⟩ := h.looks
  have hkey := h.hasKey key
  rw [Sight.found]
  cases ht : s.fields.find? key with
  | none =>
    rw [ht] at hkey
    refine ⟨.null, m, ?_, .refl h.sound', .scalar m .null⟩
    rw [Node.valueOf, bind_of_ok hkey]
    rfl
  | some t =>
    rw [ht] at hkey
    obtain ⟨v, hv, hvt⟩ := (hlooks.find? h.sound' key).2 t ht
    have hget : Node.valueOf n (.text key) m = Node.resolve evaluate v m := by
      rw [Node.valueOf, bind_of_ok hkey]
      exact Node.getWith_of_some hv
    rw [hget, Option.getD_some]
    by_cases hdeferred : ∃ d, t = .deferred d
    · obtain ⟨d, rfl⟩ := hdeferred
      obtain rfl := hvt.eq_deferred h.sound'
      exact h.answers id frozen d (.field ht (.self d)) m h.aside
    · have hne : ∀ d, t ≠ .deferred d := fun d heq ↦ hdeferred ⟨d, heq⟩
      rw [s.resolved_of_ne hne]
      refine ⟨v, m, ?_, .refl h.sound', hvt⟩
      have hvalue := hvt.ne_deferred hne
      cases v with
      | deferred d => exact absurd rfl (hvalue d)
      | _ => rfl

/-- A node that was found is seen as the sight inside its key says. -/
theorem inside {c : NodeId} (hc : Looks m (.node c) (s.found key)) :
    Sees m₀ m c environment (s.inside key) := by
  obtain ⟨id, frozen, fields, hfound⟩ : ∃ id frozen fields, s.found key = .node id frozen fields := by
    have hnode := (hc.eq_node_iff h.sound').mpr ⟨c, rfl⟩
    cases hfound : s.found key with
    | node id frozen fields => exact ⟨id, frozen, fields, rfl⟩
    | _ => rw [hfound] at hnode; cases hnode
  have hfields : (s.inside key).fields = fields := by rw [Sight.inside, hfound]; rfl
  refine ⟨h.sound, h.aside, h.view_eq, h.known, h.environment_eq, ⟨id, frozen, ?_⟩,
    fun id' frozen' d hd ↦ ?_⟩
  · rw [hfields, ← hfound]
    exact hc
  · rw [hfields] at hd
    -- what is met from the node is met from the key it stands under
    have hfrom : (Tree.node id frozen fields).Reads s.answers d := by
      cases hd with
      | field hkey hrest => exact .field hkey hrest
    refine h.answers id frozen d ?_
    rw [Sight.found] at hfound
    cases ht : s.fields.find? key with
    | none => rw [ht] at hfound; cases hfound
    | some t =>
      rw [ht, Option.getD_some] at hfound
      exact .field ht (.of_resolved (hfound ▸ hfrom))

end Sees

end LayeredConfig
