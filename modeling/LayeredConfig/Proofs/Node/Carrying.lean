import LayeredConfig.Proofs.Forest.Carrying
import LayeredConfig.Proofs.Node.Reading

/-!
# Computations that are handed on

Copying a node, making a node of it and merging it into another one hand its computations on as they
are. So the same computation may stand in many trees, and it does the same wherever it is read from.
`Memory.HandedOn n keys m₀ t m` follows what stands under the given keys of a node `n` to another
node `t`, through writes that do not touch these keys and whatever else may happen in between.
-/

namespace LayeredConfig

namespace Memory

variable {m m' m₀ : Memory} {n s t : NodeId} {keys : List String} {key : String} {d : DeferredId}

/-! ## Computations that stay what they are -/

/-- The computations of the first memory are in the second one and do the same there. -/
structure Retains (m m' : Memory) : Prop where
  size_le : m.computations.size ≤ m'.computations.size
  body_eq : ∀ d : DeferredId, d.index < m.computations.size →
    (m'.computation d).body = (m.computation d).body

theorem Retains.of_computations_eq (h : m'.computations = m.computations) : Retains m m' := by
  refine ⟨Nat.le_of_eq (congrArg Array.size h.symm), fun d _ ↦ ?_⟩
  rw [computation, h, ← computation]

theorem Beyond.retains (h : Beyond m m') : Retains m m' := ⟨h.size_le, h.body_eq⟩

/-- No change makes another computation of one that is there. -/
instance : Lasting Retains where
  refl _ := .of_computations_eq rfl
  trans _ _ _ h h' := ⟨Nat.le_trans h.size_le h'.size_le, fun d hd ↦
    (h'.body_eq d (Nat.lt_of_lt_of_le hd h.size_le)).trans (h.body_eq d hd)⟩
  assign n key v m := by
    rw [after_onForest]
    exact .of_computations_eq rfl
  merge n v m := by
    rw [after_onForest]
    exact .of_computations_eq rfl
  create v m := by
    rw [after_onForest]
    exact .of_computations_eq rfl
  freeze _ _ := .of_computations_eq rfl
  define m c := by
    refine ⟨?_, fun d hd ↦ ?_⟩
    · rw [Memory.define, Array.size_push]
      exact Nat.le_succ _
    · rw [computation, computation, Memory.define, Array.getElem?_push, if_neg (Nat.ne_of_lt hd)]
  bind _ _ _ := .of_computations_eq rfl
  emit _ _ := .of_computations_eq rfl
  count m d := ⟨Nat.le_of_eq (reruns_countRun m d).size_eq.symm,
    fun d' _ ↦ (reruns_countRun m d).body_eq d'⟩

/-! ## Runs that leave keys alone -/

/-- A step that does not assign the given keys of the node. -/
inductive Spares (t : NodeId) (keys : List String) : Memory → Memory → Prop
  /-- Another key is set. -/
  | set (m : Memory) {key : Value} (v : Value) (h : ∀ k ∈ keys, key ≠ .text k) :
      Spares t keys m (after (Operation.set t key v).perform m)
  /-- A value that has none of the keys is merged in. -/
  | merge (m : Memory) {v : Value} (h : ∀ k ∈ keys, (m.view v).fields.find? k = none) :
      Spares t keys m (after (Operation.merge t v).perform m)
  /-- Anything else happens, and the keys lead to what they led to. -/
  | other {m m' : Memory} (h : Step m m')
      (hfind : ∀ k ∈ keys, m'.forest.find? t k = m.forest.find? t k) : Spares t keys m m'

theorem Spares.step (h : Spares t keys m m') : Step m m' := by
  cases h with
  | set v _ => exact .operation m _ nestingLimit
  | merge _ => exact .operation m _ nestingLimit
  | other h _ => exact h

theorem Spares.find?_eq (h : Spares t keys m m') (hm : m.forest.Sound) (hkey : key ∈ keys) :
    m'.forest.find? t key = m.forest.find? t key := by
  cases h with
  | @set k v hk =>
    rw [Operation.perform, Operation.performWith, after_bind_pure _ fun _ ↦ Value.null]
    cases k with
    | scalar s =>
      cases s with
      | text name =>
        have hne : key ≠ name := fun heq ↦ hk key hkey (congrArg Value.text heq.symm)
        change (after (onForest (Forest.assign t name v)) m).forest.find? t key = _
        rw [forest_after_onForest]
        cases ht : m.forest.frozen t with
        | true => rw [after_of_error (Forest.assign_of_frozen ht name v)]
        | false =>
          rw [after, Forest.assign_of_writable ht, ← after]
          exact hm.find?_write_of_ne (Forest.mem_of_frozen_eq_false ht) hne v
      | _ => rfl
    | _ => rfl
  | @merge v hv =>
    rw [Operation.perform, Operation.performWith, after_bind_pure _ fun _ ↦ Value.node t,
      Node.merge, forest_after_onForest]
    exact hm.find?_mergeValue (hv key hkey)
  | other _ hfind => exact hfind key hkey

/-! ## Trees that computations are handed on to -/

/-- What stood under the keys of `n` in the memory `m₀` has been handed on to `t`. -/
inductive HandedOn (n : NodeId) (keys : List String) (m₀ : Memory) : NodeId → Memory → Prop
  | origin : HandedOn n keys m₀ n m₀
  | spare {t : NodeId} {m m' : Memory} (ht : HandedOn n keys m₀ t m) (h : Spares t keys m m') :
      HandedOn n keys m₀ t m'
  | freeze {t : NodeId} {m : Memory} (ht : HandedOn n keys m₀ t m) (c : NodeId) :
      HandedOn n keys m₀ t (after (Operation.freeze c).perform m)
  | copy {s t : NodeId} {m m' : Memory} (hs : HandedOn n keys m₀ s m)
      (h : (Operation.copy s).perform m = .ok (.node t) m') : HandedOn n keys m₀ t m'
  | create {s t : NodeId} {m m' : Memory} (hs : HandedOn n keys m₀ s m)
      (h : (Operation.create (.node s)).perform m = .ok (.node t) m') : HandedOn n keys m₀ t m'
  | merge {s t : NodeId} {m m' : Memory} {r : Value} (hs : HandedOn n keys m₀ s m)
      (h : (Operation.merge t (.node s)).perform m = .ok r m') : HandedOn n keys m₀ t m'

theorem find?_of_create (hm : m.forest.Sound)
    (h : (Operation.create (.node s)).perform m = .ok (.node t) m')
    (hd : m.forest.find? s key = some (.deferred d)) :
    m'.forest.find? t key = some (.deferred d) := by
  obtain ⟨t', m'', hcreate, hpure⟩ := bind_eq_ok.mp h
  cases hpure
  cases hg : Forest.create (.node s) m.forest with
  | ok t' g =>
    cases (onForest_of_ok hg).symm.trans hcreate
    exact hm.find?_create_deferred hd hg
  | error e g => cases (onForest_of_error hg).symm.trans hcreate

theorem find?_of_merge {r : Value} (hm : m.forest.Sound)
    (h : (Operation.merge t (.node s)).perform m = .ok r m')
    (hd : m.forest.find? s key = some (.deferred d)) :
    m'.forest.find? t key = some (.deferred d) := by
  obtain ⟨_, m'', hmerge, hpure⟩ := bind_eq_ok.mp h
  cases hpure
  cases hg : Forest.mergeValue t (.node s) m.forest with
  | ok u g =>
    cases (onForest_of_ok hg).symm.trans hmerge
    exact hm.find?_mergeValue_deferred hd hg
  | error e g => cases (onForest_of_error hg).symm.trans hmerge

namespace HandedOn

theorem run (h : HandedOn n keys m₀ t m) : Run m₀ m := by
  have step : ∀ {op : Operation} {v : Value} {m m' : Memory}, op.perform m = .ok v m' →
      Step m m' := by
    intro op v m m' hop
    rw [← after_of_ok hop]
    exact .operation m op nestingLimit
  induction h with
  | origin => exact .refl
  | spare _ h ih => exact ih.tail h.step
  | freeze _ c ih => exact ih.tail (.operation _ (.freeze c) nestingLimit)
  | copy _ h ih => exact ih.tail (step h)
  | create _ h ih => exact ih.tail (step h)
  | merge _ h ih => exact ih.tail (step h)

/-- **The tree holds the very computation** that the first node held. -/
theorem find?_eq (h : HandedOn n keys m₀ t m) (hm₀ : m₀.forest.Sound) (hkey : key ∈ keys)
    (hd : m₀.forest.find? n key = some (.deferred d)) :
    m.forest.find? t key = some (.deferred d) := by
  have hsound : ∀ {t m}, HandedOn n keys m₀ t m → m.forest.Sound := fun h ↦
    (h.run.follows hm₀).sound
  induction h with
  | origin => exact hd
  | spare ht h ih => exact (h.find?_eq (hsound ht) hkey).trans ih
  | freeze ht c ih => exact (hsound ht).find?_freeze_deferred ih c
  | copy hs h ih => exact find?_of_create (hsound hs) h ih
  | create hs h ih => exact find?_of_create (hsound hs) h ih
  | merge hs h ih => exact find?_of_merge (hsound hs) h ih

end HandedOn

end Memory

end LayeredConfig
