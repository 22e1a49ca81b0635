import LayeredConfig.Entries
import LayeredConfig.Proofs.Value.Meaning
import LayeredConfig.Tree
import Mathlib.Data.List.Forall2

/-!
# Equality of trees

Two nodes are equal if each key leads to equal values in both or is missing in both
(`Tree.same_node_iff_find?`); in which order the keys stand makes no difference, at any level.
Although the comparison only looks for the entries of the left side on the right one, it is
symmetric, because entries that stand once cannot share a partner. It is transitive because scalars
are compared by what they stand for. Both ask that the trees are what trees are: that nothing stands
twice where it can stand only once, and that no number is written in two ways (`Tree.Proper`).
-/

namespace LayeredConfig

/-- If every member of a list has a partner in a list that is no longer, and no two of them share
one, then nobody is left without a partner. -/
theorem exists_partner {α β : Type} {r : α → β → Prop} {xs : List α} {ys : List β}
    (hlen : ys.length ≤ xs.length) (h : ∀ x ∈ xs, ∃ y ∈ ys, r x y)
    (hapart : xs.Pairwise fun a b ↦ ∀ y ∈ ys, r a y → ¬r b y) : ∀ y ∈ ys, ∃ x ∈ xs, r x y := by
  induction xs generalizing ys with
  | nil =>
    rw [List.length_eq_zero_iff.mp (Nat.le_zero.mp hlen)]
    exact fun y hy ↦ absurd hy List.not_mem_nil
  | cons x rest ih =>
    obtain ⟨hx, hrest⟩ := List.pairwise_cons.mp hapart
    obtain ⟨y, hy, hxy⟩ := h x List.mem_cons_self
    obtain ⟨front, back, rfl⟩ := List.append_of_mem hy
    -- without the first member and its partner the same is true of the lists
    have hsub : ∀ z ∈ front ++ back, z ∈ front ++ y :: back := fun z hz ↦ by
      simp only [List.mem_append, List.mem_cons] at hz ⊢
      exact hz.imp_right .inr
    have hlen' : (front ++ back).length ≤ rest.length := by
      simp only [List.length_append, List.length_cons] at hlen ⊢
      omega
    have hpartner : ∀ a ∈ rest, ∃ z ∈ front ++ back, r a z := by
      intro a ha
      obtain ⟨z, hz, haz⟩ := h a (List.mem_cons_of_mem _ ha)
      have hne : z ≠ y := fun hzy ↦ hx a ha y hy hxy (hzy ▸ haz)
      simp only [List.mem_append, List.mem_cons] at hz ⊢
      exact ⟨z, hz.imp_right fun hz ↦ hz.resolve_left hne, haz⟩
    have hall := ih hlen' hpartner (hrest.imp fun hab z hz ↦ hab z (hsub z hz))
    intro z hz
    by_cases hzy : z = y
    · exact ⟨x, List.mem_cons_self, hzy ▸ hxy⟩
    · have hz : z ∈ front ++ back := by
        simp only [List.mem_append, List.mem_cons] at hz ⊢
        exact hz.imp_right fun hz ↦ hz.resolve_left hzy
      obtain ⟨a, ha, haz⟩ := hall z hz
      exact ⟨a, List.mem_cons_of_mem _ ha, haz⟩

/-- The lists are equally long, and every member of the left one has a partner on the right one. -/
def Partnered {α β : Type} (r : α → β → Prop) (xs : List α) (ys : List β) : Prop :=
  xs.length = ys.length ∧ ∀ x ∈ xs, ∃ y ∈ ys, r x y

namespace Partnered

variable {α β γ : Type} {r : α → β → Prop} {r' : β → γ → Prop} {xs : List α} {ys : List β}
  {zs : List γ}

theorem trans {s : α → γ → Prop} (h : Partnered r xs ys) (h' : Partnered r' ys zs)
    (himp : ∀ x ∈ xs, ∀ y ∈ ys, ∀ z ∈ zs, r x y → r' y z → s x z) : Partnered s xs zs := by
  refine ⟨h.1.trans h'.1, fun x hx ↦ ?_⟩
  obtain ⟨y, hy, hxy⟩ := h.2 x hx
  obtain ⟨z, hz, hyz⟩ := h'.2 y hy
  exact ⟨z, hz, himp x hx y hy z hz hxy hyz⟩

/-- The right side has its partners on the left one, too, if no two members on the left share
one. -/
theorem symm {s : β → α → Prop} (h : Partnered r xs ys)
    (hapart : xs.Pairwise fun a b ↦ ∀ y ∈ ys, r a y → ¬r b y)
    (himp : ∀ x ∈ xs, ∀ y ∈ ys, r x y → s y x) : Partnered s ys xs := by
  refine ⟨h.1.symm, fun y hy ↦ ?_⟩
  obtain ⟨x, hx, hxy⟩ := exists_partner h.1.ge h.2 hapart y hy
  exact ⟨x, hx, himp x hx y hy hxy⟩

end Partnered

theorem eq_none_iff_of_rel {α β : Type} {r : α → β → Prop} {x : Option α} {y : Option β}
    (h : Option.Rel r x y) : x = none ↔ y = none := by
  cases h <;> simp

theorem rel_map_iff {α β γ δ : Type} {r : γ → δ → Prop} {f : α → γ} {g : β → δ} {x : Option α}
    {y : Option β} :
    Option.Rel r (x.map f) (y.map g) ↔ Option.Rel (fun a b ↦ r (f a) (g b)) x y := by
  constructor
  · intro h
    cases x with
    | none =>
      cases y with
      | none => exact .none
      | some b => cases h
    | some a =>
      cases y with
      | none => cases h
      | some b =>
        cases h with
        | some hab => exact .some hab
  · rintro (hab | _)
    · exact .some hab
    · exact .none

/-- What is implied of the members of two lists is implied of the lists. -/
theorem forall₂_of_mem {α β : Type} {r r' : α → β → Prop} {xs : List α} {ys : List β}
    (h : List.Forall₂ r xs ys) (himp : ∀ x ∈ xs, ∀ y ∈ ys, r x y → r' x y) :
    List.Forall₂ r' xs ys := by
  induction h with
  | nil => exact .nil
  | cons hxy _ ih =>
    exact .cons (himp _ List.mem_cons_self _ List.mem_cons_self hxy) (ih fun x hx y hy ↦
      himp x (List.mem_cons_of_mem _ hx) y (List.mem_cons_of_mem _ hy))

namespace Entries

variable {α β γ δ : Type} {r r' : α → β → Prop} {xs : Entries α} {ys : Entries β}
  {zs : Entries γ}

/-- Every entry of the left side has a partner under the same key on the right one, and the sides
are equally long. -/
def Paired (r : α → β → Prop) (xs : Entries α) (ys : Entries β) : Prop :=
  xs.length = ys.length ∧ ∀ x ∈ xs, ∃ y ∈ ys, x.1 = y.1 ∧ r x.2 y.2

theorem Paired.of_mem (h : Paired r xs ys)
    (himp : ∀ x ∈ xs, ∀ y ∈ ys, r x.2 y.2 → r' x.2 y.2) : Paired r' xs ys := by
  refine ⟨h.1, fun x hx ↦ ?_⟩
  obtain ⟨y, hy, hkey, hxy⟩ := h.2 x hx
  exact ⟨y, hy, hkey, himp x hx y hy hxy⟩

theorem Paired.trans {r' : β → γ → Prop} {s : α → γ → Prop} (h : Paired r xs ys)
    (h' : Paired r' ys zs)
    (himp : ∀ x ∈ xs, ∀ y ∈ ys, ∀ z ∈ zs, r x.2 y.2 → r' y.2 z.2 → s x.2 z.2) : Paired s xs zs :=
  Partnered.trans h h' fun x hx y hy z hz hxy hyz ↦
    ⟨hxy.1.trans hyz.1, himp x hx y hy z hz hxy.2 hyz.2⟩

theorem paired_mapValues_iff {r : γ → δ → Prop} {f : α → γ} {g : β → δ} :
    Paired r (xs.mapValues f) (ys.mapValues g) ↔ Paired (fun a b ↦ r (f a) (g b)) xs ys := by
  simp only [Paired, mapValues, List.length_map, List.mem_map, exists_exists_and_eq_and,
    forall_exists_index, and_imp, forall_apply_eq_imp_iff₂]

/-- The right side has its partners on the left one, too: entries with different keys do not share
one. -/
theorem Paired.flip (h : Paired r xs ys) (hx : xs.keys.Nodup) : Paired (flip r) ys xs := by
  have hapart : xs.Pairwise fun x x' ↦ ∀ y ∈ ys,
      x.1 = y.1 ∧ r x.2 y.2 → ¬(x'.1 = y.1 ∧ r x'.2 y.2) :=
    (List.pairwise_map.mp hx).imp fun hne _ _ h h' ↦ hne (h.1.trans h'.1.symm)
  exact Partnered.symm h hapart fun _ _ _ _ hxy ↦ ⟨hxy.1.symm, hxy.2⟩

/-- Entries without a double key are paired if each key leads to related values, or to none. -/
theorem paired_iff_find? (hx : xs.keys.Nodup) (hy : ys.keys.Nodup) :
    Paired r xs ys ↔ ∀ key, Option.Rel r (xs.find? key) (ys.find? key) := by
  constructor
  · intro h key
    cases hxs : xs.find? key with
    | some a =>
      obtain ⟨⟨_, b⟩, hmem, rfl, hab⟩ := h.2 (key, a) (mem_of_find? hxs)
      rw [find?_of_mem hy hmem]
      exact .some hab
    | none =>
      cases hys : ys.find? key with
      | none => exact .none
      | some b =>
        obtain ⟨x, hmem, heq, _⟩ := (h.flip hx).2 (key, b) (mem_of_find? hys)
        exact absurd (List.mem_map.mpr ⟨x, hmem, heq.symm⟩) (find?_eq_none_iff.mp hxs)
  · intro h
    have hkeys : ∀ key, key ∈ xs.keys ↔ key ∈ ys.keys := by
      intro key
      rw [← not_iff_not, ← find?_eq_none_iff, ← find?_eq_none_iff]
      exact eq_none_iff_of_rel (h key)
    have hperm := (List.perm_ext_iff_of_nodup hx hy).mpr hkeys
    refine ⟨by simpa [keys] using hperm.length_eq, fun x hmem ↦ ?_⟩
    have hkey := h x.1
    rw [find?_of_mem hx hmem] at hkey
    cases hys : ys.find? x.1 with
    | none => rw [hys] at hkey; cases hkey
    | some b =>
      rw [hys] at hkey
      cases hkey with
      | some hab => exact ⟨(x.1, b), mem_of_find? hys, rfl, hab⟩

end Entries

namespace Tree

variable {t u v : Tree} {j k : SeqKind} {m n : NodeId} {a b : Bool} {as bs : List Tree}
  {xs ys : Entries Tree}

/-- The trees are equal, as items of a collection are. -/
def Same (t u : Tree) : Prop := t.itemEqual u = true

theorem same_seq_iff : Same (.seq j as) (.seq k bs) ↔ j = k ∧ List.Forall₂ Same as bs := by
  rw [Same, itemEqual_seq, List.forall₂_iff_zip]
  simp only [Bool.and_eq_true, beq_iff_eq, List.all_eq_true, Prod.forall]
  rfl

theorem same_set_iff {xs ys : List Scalar} : Same (.set xs) (.set ys) ↔
    Partnered (fun x y ↦ x.sameOrEqual y = true) xs ys := by
  rw [Same, itemEqual, Partnered]
  simp only [Bool.and_eq_true, beq_iff_eq, List.all_eq_true, List.any_eq_true]

theorem same_mapping_iff {xs ys : List (Tree × Tree)} : Same (.mapping xs) (.mapping ys) ↔
    Partnered (fun x y ↦ Same x.1 y.1 ∧ Same x.2 y.2) xs ys := by
  rw [Same, itemEqual_mapping, Partnered]
  simp only [Bool.and_eq_true, beq_iff_eq, List.all_eq_true, List.any_eq_true]
  rfl

theorem same_node_iff : Same (.node m a xs) (.node n b ys) ↔ Entries.Paired Same xs ys := by
  rw [Same, itemEqual_node]
  simp only [Bool.and_eq_true, beq_iff_eq, List.all_eq_true, List.any_eq_true]
  rfl

/-- **Nodes are equal** if every key leads to equal values in both of them, or to none. -/
theorem same_node_iff_find? (hx : xs.keys.Nodup) (hy : ys.keys.Nodup) :
    Same (.node m a xs) (.node n b ys)
      ↔ ∀ key, Option.Rel Same (xs.find? key) (ys.find? key) :=
  same_node_iff.trans (Entries.paired_iff_find? hx hy)

/-! ## An equivalence relation -/

/-- A set holds no item twice, a mapping and a node no key, and every number is in canonical
form. -/
inductive Proper : Tree → Prop
  | scalar {s : Scalar} (h : s.Canonical) : Proper (.scalar s)
  | seq (kind : SeqKind) {items : List Tree} (h : ∀ t ∈ items, Proper t) : Proper (.seq kind items)
  | set {items : List Scalar} (h : ∀ s ∈ items, s.Canonical)
      (once : items.Pairwise fun s s' ↦ s.sameOrEqual s' = false) : Proper (.set items)
  | mapping {entries : List (Tree × Tree)} (keys : ∀ e ∈ entries, Proper e.1)
      (values : ∀ e ∈ entries, Proper e.2)
      (once : entries.Pairwise fun e e' ↦ ¬Same e.1 e'.1) : Proper (.mapping entries)
  | node (id : NodeId) (frozen : Bool) {fields : Entries Tree} (once : fields.keys.Nodup)
      (h : ∀ e ∈ fields, Proper e.2) : Proper (.node id frozen fields)
  | deferred (id : DeferredId) : Proper (.deferred id)

@[simp] theorem proper_scalar_iff {s : Scalar} : Proper (.scalar s) ↔ s.Canonical :=
  ⟨fun h ↦ by cases h; assumption, .scalar⟩

@[simp] theorem proper_seq_iff : Proper (.seq j as) ↔ ∀ t ∈ as, t.Proper :=
  ⟨fun h ↦ by cases h; assumption, .seq j⟩

@[simp] theorem proper_node_iff : Proper (.node m a xs) ↔ xs.keys.Nodup ∧ ∀ e ∈ xs, e.2.Proper :=
  ⟨fun h ↦ by cases h; exact ⟨‹_›, ‹_›⟩, fun h ↦ .node m a h.1 h.2⟩

private theorem forall₂_trans {as bs cs : List Tree} (h : List.Forall₂ Same as bs)
    (h' : List.Forall₂ Same bs cs)
    (ih : ∀ t ∈ as, ∀ u ∈ bs, ∀ v ∈ cs, Same t u → Same u v → Same t v) :
    List.Forall₂ Same as cs := by
  induction h generalizing cs with
  | nil => exact h'
  | cons hab _ ihrest =>
    cases h' with
    | cons hbc hrest =>
      refine .cons (ih _ List.mem_cons_self _ List.mem_cons_self _ List.mem_cons_self hab hbc) ?_
      exact ihrest hrest fun t ht u hu v hv ↦ ih t (List.mem_cons_of_mem _ ht) u
        (List.mem_cons_of_mem _ hu) v (List.mem_cons_of_mem _ hv)

theorem Proper.trans (ht : t.Proper) (hu : u.Proper) (hv : v.Proper) (h : Same t u)
    (h' : Same u v) : Same t v := by
  induction ht generalizing u v with
  | @scalar s hs =>
    cases hu with
    | scalar hs' =>
      cases hv with
      | scalar hs'' =>
        have heq := (Scalar.sameOrEqual_iff hs hs').mp h
        exact (Scalar.sameOrEqual_iff hs hs'').mpr
          (heq.trans ((Scalar.sameOrEqual_iff hs' hs'').mp h'))
      | _ => cases h'
    | _ => cases h
  | seq kind _ ih =>
    cases hu with
    | seq kind' hbs =>
      cases hv with
      | seq kind'' hcs =>
        obtain ⟨rfl, hab⟩ := same_seq_iff.mp h
        obtain ⟨rfl, hbc⟩ := same_seq_iff.mp h'
        refine same_seq_iff.mpr ⟨rfl, forall₂_trans hab hbc fun t ht u hu v hv ↦ ?_⟩
        exact ih t ht (hbs u hu) (hcs v hv)
      | _ => cases h'
    | _ => cases h
  | @set items hs _ =>
    cases hu with
    | set hs' _ =>
      cases hv with
      | set hs'' _ =>
        refine same_set_iff.mpr ((same_set_iff.mp h).trans (same_set_iff.mp h') ?_)
        intro x hx y hy z hz hxy hyz
        have hmeaning := (Scalar.sameOrEqual_iff (hs x hx) (hs' y hy)).mp hxy
        have hmeaning' := (Scalar.sameOrEqual_iff (hs' y hy) (hs'' z hz)).mp hyz
        exact (Scalar.sameOrEqual_iff (hs x hx) (hs'' z hz)).mpr (hmeaning.trans hmeaning')
      | _ => cases h'
    | _ => cases h
  | mapping _ _ _ ihkeys ihvalues =>
    cases hu with
    | mapping hkeys hvalues _ =>
      cases hv with
      | mapping hkeys' hvalues' _ =>
        refine same_mapping_iff.mpr ((same_mapping_iff.mp h).trans (same_mapping_iff.mp h') ?_)
        intro x hx y hy z hz hxy hyz
        exact ⟨ihkeys x hx (hkeys y hy) (hkeys' z hz) hxy.1 hyz.1,
          ihvalues x hx (hvalues y hy) (hvalues' z hz) hxy.2 hyz.2⟩
      | _ => cases h'
    | _ => cases h
  | node id frozen _ _ ih =>
    cases hu with
    | node id' frozen' _ hys =>
      cases hv with
      | node id'' frozen'' _ hzs =>
        refine same_node_iff.mpr ((same_node_iff.mp h).trans (same_node_iff.mp h') ?_)
        exact fun x hx y hy z hz ↦ ih x hx (hys y hy) (hzs z hz)
      | _ => cases h'
    | _ => cases h
  | deferred id =>
    cases hu with
    | deferred id' =>
      obtain rfl : id = id' := beq_iff_eq.mp h
      exact h'
    | _ => cases h

theorem Proper.symm (ht : t.Proper) (hu : u.Proper) (h : Same t u) : Same u t := by
  induction ht generalizing u with
  | @scalar s hs =>
    cases hu with
    | scalar hs' =>
      exact (Scalar.sameOrEqual_iff hs' hs).mpr ((Scalar.sameOrEqual_iff hs hs').mp h).symm
    | _ => cases h
  | seq kind _ ih =>
    cases hu with
    | seq kind' hbs =>
      obtain ⟨rfl, hab⟩ := same_seq_iff.mp h
      exact same_seq_iff.mpr ⟨rfl, (forall₂_of_mem hab fun t ht u hu ↦ ih t ht (hbs u hu)).flip⟩
    | _ => cases h
  | @set items hs once =>
    cases hu with
    | @set items' hs' _ =>
      have hapart : items.Pairwise fun x x' ↦ ∀ y ∈ items', x.sameOrEqual y = true →
          ¬x'.sameOrEqual y = true := by
        refine once.imp_of_mem fun {x x'} hx hx' hne y hy h h' ↦ Bool.eq_false_iff.mp hne ?_
        rw [Scalar.sameOrEqual_iff (hs _ hx) (hs' y hy)] at h
        rw [Scalar.sameOrEqual_iff (hs _ hx') (hs' y hy)] at h'
        exact (Scalar.sameOrEqual_iff (hs _ hx) (hs _ hx')).mpr (h.trans h'.symm)
      refine same_set_iff.mpr ((same_set_iff.mp h).symm hapart fun x hx y hy hxy ↦ ?_)
      have hmeaning := (Scalar.sameOrEqual_iff (hs x hx) (hs' y hy)).mp hxy
      exact (Scalar.sameOrEqual_iff (hs' y hy) (hs x hx)).mpr hmeaning.symm
    | _ => cases h
  | @mapping entries hkeys _ once ihkeys ihvalues =>
    cases hu with
    | @mapping entries' hkeys' hvalues' _ =>
      -- two keys that equal the same key equal each other
      have hapart : entries.Pairwise fun x x' ↦ ∀ y ∈ entries',
          Same x.1 y.1 ∧ Same x.2 y.2 → ¬(Same x'.1 y.1 ∧ Same x'.2 y.2) := by
        refine once.imp_of_mem fun {x x'} hx hx' hne y hy h h' ↦ hne ?_
        exact (hkeys x hx).trans (hkeys' y hy) (hkeys x' hx') h.1
          (ihkeys x' hx' (hkeys' y hy) h'.1)
      refine same_mapping_iff.mpr ((same_mapping_iff.mp h).symm hapart fun x hx y hy hxy ↦ ?_)
      exact ⟨ihkeys x hx (hkeys' y hy) hxy.1, ihvalues x hx (hvalues' y hy) hxy.2⟩
    | _ => cases h
  | node id frozen once _ ih =>
    cases hu with
    | node id' frozen' _ hys =>
      refine same_node_iff.mpr (((same_node_iff.mp h).flip once).of_mem ?_)
      exact fun y hy x hx ↦ ih x hx (hys y hy)
    | _ => cases h
  | deferred id =>
    cases hu with
    | deferred id' =>
      obtain rfl : id = id' := beq_iff_eq.mp h
      exact h
    | _ => cases h

end Tree

end LayeredConfig
