import LayeredConfig.Proofs.Node.Run

/-!
# Every node has one place

A node can be stored under a key of another node, alone or inside nested lists. A `Slot` names
such a place. Whatever a program does, no node ever stands in two slots and no node is stored
inside itself, because storing always copies. So a write to a node cannot be seen through any node
that it does not reach.
-/

namespace LayeredConfig

/-- A place inside a node: a key, and the positions that lead into nested sequences. -/
structure Slot where
  node : NodeId
  key : String
  positions : List ℕ
deriving DecidableEq

/-- The part of a value at the given positions of nested sequences. -/
def Value.at? : List ℕ → Value → Option Value
  | [], v => some v
  | i :: rest, .seq _ items => items[i]?.bind (Value.at? rest)
  | _ :: _, _ => none

namespace Forest

/-- What is stored in a slot. -/
def stored? (f : Forest) (s : Slot) : Option Value :=
  (f.find? s.node s.key).bind (Value.at? s.positions)

/-- The second node is stored in the first. -/
def Holds (f : Forest) (n c : NodeId) : Prop :=
  ∃ s : Slot, s.node = n ∧ f.stored? s = some (.node c)

end Forest

/-! ## Slots of a value -/

/-- In lists without common elements, an element tells the list. -/
private theorem index_eq_of_nodup_flatMap {α β : Type} {parts : α → List β} {l : List α}
    (h : (l.flatMap parts).Nodup) {i j : ℕ} {a b : α} {x : β} (hi : l[i]? = some a)
    (hj : l[j]? = some b) (ha : x ∈ parts a) (hb : x ∈ parts b) : i = j := by
  have hdisjoint := (List.nodup_flatMap.mp h).2
  obtain ⟨hi', rfl⟩ := List.getElem?_eq_some_iff.mp hi
  obtain ⟨hj', rfl⟩ := List.getElem?_eq_some_iff.mp hj
  rcases Nat.lt_trichotomy i j with hlt | heq | hgt
  · exact absurd hb (List.pairwise_iff_getElem.mp hdisjoint i j hi' hj' hlt ha)
  · exact heq
  · exact absurd ha (List.pairwise_iff_getElem.mp hdisjoint j i hj' hi' hgt hb)

namespace Value

variable {v w : Value} {c : NodeId} {p q : List ℕ}

theorem mem_nodes_of_at? (h : v.at? p = some (.node c)) : c ∈ v.nodes := by
  induction v generalizing p with
  | seq kind items ih =>
    cases p with
    | nil => cases h
    | cons i rest =>
      obtain ⟨a, ha, hac⟩ := Option.bind_eq_some_iff.mp h
      rw [nodes_seq]
      exact List.mem_flatMap.mpr
        ⟨a, List.mem_of_getElem? ha, ih a (List.mem_of_getElem? ha) hac⟩
  | node id =>
    cases p with
    | nil =>
      cases h
      exact List.mem_singleton_self _
    | cons i rest => cases h
  | _ => cases p <;> cases h

theorem Uniform.exists_at? {kind : SeqKind} (hv : v.Uniform kind) (hc : c ∈ v.nodes) :
    ∃ p, v.at? p = some (.node c) := by
  induction hv with
  | @seq items _ ih =>
    rw [nodes_seq] at hc
    obtain ⟨a, ha, hac⟩ := List.mem_flatMap.mp hc
    obtain ⟨p, hp⟩ := ih a ha hac
    obtain ⟨i, hi⟩ := List.mem_iff_getElem?.mp ha
    exact ⟨i :: p, Option.bind_eq_some_iff.mpr ⟨a, hi, hp⟩⟩
  | node id =>
    rw [nodes_node, List.mem_singleton] at hc
    exact ⟨[], by rw [at?, hc]⟩
  | _ => exact absurd hc List.not_mem_nil

theorem positions_eq (h : v.nodes.Nodup) (hp : v.at? p = some (.node c))
    (hq : v.at? q = some (.node c)) : p = q := by
  induction v generalizing p q with
  | seq kind items ih =>
    cases p with
    | nil => cases hp
    | cons i p =>
      cases q with
      | nil => cases hq
      | cons j q =>
        obtain ⟨a, ha, hap⟩ := Option.bind_eq_some_iff.mp hp
        obtain ⟨b, hb, hbq⟩ := Option.bind_eq_some_iff.mp hq
        rw [nodes_seq] at h
        -- the items of a sequence have no node in common, so that the first position is the same
        have hij : i = j :=
          index_eq_of_nodup_flatMap h ha hb (mem_nodes_of_at? hap) (mem_nodes_of_at? hbq)
        subst hij
        have hab : a = b := Option.some.inj (ha.symm.trans hb)
        subst hab
        have hmem := List.mem_of_getElem? ha
        rw [ih a hmem ((List.nodup_flatMap.mp h).1 a hmem) hap hbq]
  | node id =>
    cases p with
    | nil =>
      cases q with
      | nil => rfl
      | cons j q => cases hq
    | cons i p => cases hp
  | _ => cases p <;> cases hp

end Value

/-! ## Slots of a forest -/

namespace Forest

variable {f : Forest} {n c : NodeId} {s t : Slot}

theorem mem_children_of_stored? (h : f.stored? s = some (.node c)) : c ∈ f.children s.node := by
  obtain ⟨v, hv, hc⟩ := Option.bind_eq_some_iff.mp h
  exact mem_children_of_find? hv (Value.mem_nodes_of_at? hc)

theorem Sound.holds_iff (hf : f.Sound) : f.Holds n c ↔ c ∈ f.children n := by
  constructor
  · rintro ⟨s, rfl, hs⟩
    exact mem_children_of_stored? hs
  · intro hc
    obtain ⟨⟨key, v⟩, he, hcv⟩ := List.mem_flatMap.mp hc
    obtain ⟨p, hp⟩ := (hf.uniform n _ he).exists_at? hcv
    refine ⟨⟨n, key, p⟩, rfl, Option.bind_eq_some_iff.mpr ⟨v, ?_, hp⟩⟩
    exact Entries.find?_of_mem (hf.distinct n) he

/-- **A node stands in one slot at most.** -/
theorem Sound.slot_eq (hf : f.Sound) (hs : f.stored? s = some (.node c))
    (ht : f.stored? t = some (.node c)) : s = t := by
  obtain ⟨n, k, p⟩ := s
  obtain ⟨n', l, q⟩ := t
  have hn : n = n' := hf.single (mem_children_of_stored? hs) (mem_children_of_stored? ht)
  subst hn
  obtain ⟨v, hv, hvc⟩ := Option.bind_eq_some_iff.mp hs
  obtain ⟨w, hw, hwc⟩ := Option.bind_eq_some_iff.mp ht
  obtain ⟨rfl, rfl⟩ := Prod.mk.inj (hf.entry_eq (Entries.mem_of_find? hv) (Entries.mem_of_find? hw)
    (Value.mem_nodes_of_at? hvc) (Value.mem_nodes_of_at? hwc))
  have hnodup := (List.nodup_flatMap.mp (hf.once n)).1 _ (Entries.mem_of_find? hv)
  exact congrArg (Slot.mk n k) (Value.positions_eq hnodup hvc hwc)

theorem Sound.not_holds_cycle (hf : f.Sound) (n : NodeId) : ¬Relation.TransGen f.Holds n n :=
  fun h ↦ hf.acyclic n (Relation.TransGen.mono (fun _ _ hc ↦ hf.holds_iff.mp hc) _ _ h)

end Forest

/-! ## Writes -/

namespace Operation

/-- The node that an operation writes to. -/
def receiver? : Operation → Option NodeId
  | .set n _ _ => some n
  | .merge n _ => some n
  | .freeze n => some n
  | _ => none

/-- The value that a new node is made of. -/
def source? : Operation → Option Value
  | .create source => some source
  | .copy n => some (.node n)
  | _ => none

end Operation

namespace Memory

/-- Between the two memories only nodes that the given one reaches have changed. -/
def Writes (n : NodeId) (m m' : Memory) : Prop :=
  m.forest.Sound → Forest.Written n m.forest m'.forest

instance (n : NodeId) : IsPreorder Memory (Writes n) where
  refl _ hm := (Forest.Edited.refl hm n).toWritten
  trans _ _ _ h h' hm := (h hm).trans (h' (h hm).sound)

/-- Between the two memories nodes were made, and none has changed. -/
def Makes (m m' : Memory) : Prop :=
  m.forest.Sound → m'.forest.Sound ∧ Forest.Extends m.forest m'.forest

instance : IsPreorder Memory Makes where
  refl m hm := ⟨hm, .refl m.forest⟩
  trans _ _ _ h h' hm := ⟨(h' (h hm).1).1, (h hm).2.trans (h' (h hm).1).2⟩

end Memory

variable {α : Type} {n : NodeId} {op : Operation} {call : DeferredId → Eval Value}

private theorem writes_onForest {x : ForestM α}
    (h : ∀ {f : Forest}, f.Sound → Forest.Written n f (after x f)) :
    Keeps (Memory.Writes n) (onForest x) := by
  intro m hm
  rw [forest_after_onForest]
  exact h hm

private theorem writes_set (key value : Value) :
    Keeps (Memory.Writes n) (Node.set n key value) := by
  unfold Node.set
  exact (Node.keeps_checkKey key).bind fun name ↦
    writes_onForest fun hf ↦ (hf.edited_assign n name value).toWritten

/-- **The frame of a write.** -/
theorem writes_performWith (h : op.receiver? = some n) :
    Keeps (Memory.Writes n) (op.performWith call) := by
  cases op with
  | set k key value =>
    cases h
    exact (writes_set key value).bind fun _ ↦ .pure _
  | merge k other =>
    cases h
    exact .bind (writes_onForest fun hf ↦ (hf.edited_mergeValue n other).toWritten) fun _ ↦ .pure _
  | freeze k =>
    cases h
    exact .bind (.modify fun m hm ↦ hm.written_freeze n) fun _ ↦ .pure _
  | _ => cases h

private theorem makes_create (source : Value) : Keeps Memory.Makes (Node.create source) := by
  intro m hm
  rw [Node.create, forest_after_onForest]
  rcases hm.create_cases source with ⟨k, g, heq, hmade⟩ | ⟨e, heq⟩
  · rw [after_of_ok heq]
    exact ⟨hmade.placed.sound, hmade.placed.grown⟩
  · rw [after_of_error heq]
    exact ⟨hm, .refl m.forest⟩

theorem makes_performWith {v : Value} (h : op.source? = some v) :
    Keeps Memory.Makes (op.performWith call) := by
  cases op with
  | create source => exact (makes_create _).bind fun _ ↦ .pure _
  | copy k => exact (makes_create _).bind fun _ ↦ .pure _
  | _ => cases h

variable {m : Memory}

/-- **Trees never share nodes.** In every memory that a program can be in, no node stands in two
slots, and no node is stored inside itself. Setting, merging and freezing, whether they succeed or
fail, change only nodes that the receiver reaches; a node that is handed over keeps what it holds
unless the receiver reaches it, and its whole tree unless one of the two reaches the other. Making
and copying a node change no node. -/
theorem Memory.Reachable.owned (hm : m.Reachable) :
    (∀ s t c, m.forest.stored? s = some (.node c) → m.forest.stored? t = some (.node c) → s = t) ∧
    (∀ c, ¬Relation.TransGen m.forest.Holds c c) ∧
    (∀ (op : Operation) (n : NodeId) (call : DeferredId → Eval Value), op.receiver? = some n →
      ∀ c ∈ m.forest, ¬m.forest.Reaches n c →
        (after (op.performWith call) m).forest.cell c = m.forest.cell c ∧
        (¬m.forest.Reaches c n →
          (after (op.performWith call) m).view (.node c) = m.view (.node c))) ∧
    ∀ (op : Operation) (v : Value) (call : DeferredId → Eval Value), op.source? = some v →
      ∀ c ∈ m.forest, (after (op.performWith call) m).forest.cell c = m.forest.cell c := by
  have hf := hm.sound
  refine ⟨fun s t c hs ht ↦ hf.slot_eq hs ht, hf.not_holds_cycle, fun op n call hop c hc hn ↦ ?_,
    fun op v call hop c hc ↦ ?_⟩
  · have hwritten : Forest.Written n m.forest (after (op.performWith call) m).forest :=
      writes_performWith hop m hf
    refine ⟨hwritten.frame hc hn, fun hcn ↦ hwritten.view_eq hf ?_ ?_⟩
    · intro a ha
      rwa [List.mem_singleton.mp ha]
    · -- the tree of `c` could only be touched at a node that both reach
      intro a ha d hcd hnd
      rw [List.mem_singleton.mp ha] at hcd
      exact (hf.reaches_or_reaches hcd hnd).elim hcn hn
  · have hmade : Keeps Memory.Makes (op.performWith call) := makes_performWith hop
    exact (hmade m hf).2.cell_eq hc

/-- A node that is stored under a second key is not stored there itself. -/
theorem second_key_holds_copy : ∃ m : Memory, m.Reachable ∧
    m.forest.stored? ⟨⟨0⟩, "a", []⟩ = some (.node ⟨1⟩) ∧
    m.forest.stored? ⟨⟨0⟩, "b", [0]⟩ ≠ some (.node ⟨1⟩) := by
  let make := Operation.create (.mapping [(.text "a", .mapping [])])
  let store := Operation.set ⟨0⟩ (.text "b") (.list [.node ⟨1⟩])
  let m₀ := after (make.performWith (evaluateWithin 0)) default
  have hm : (after (store.performWith (evaluateWithin 0)) m₀).Reachable :=
    (Relation.ReflTransGen.single (.operation default make 0)).tail (.operation m₀ store 0)
  have hslot : (after (store.performWith (evaluateWithin 0)) m₀).forest.stored? ⟨⟨0⟩, "a", []⟩
      = some (.node ⟨1⟩) := by with_unfolding_all rfl
  exact ⟨_, hm, hslot, fun h ↦ absurd (hm.owned.1 _ _ _ hslot h) (by decide)⟩

end LayeredConfig
