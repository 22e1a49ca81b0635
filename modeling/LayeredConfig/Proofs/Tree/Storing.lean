import LayeredConfig.Proofs.Tree.Overlay

/-!
# Values that can be stored, and what is stored of them

A value is refused because a key of some mapping in it is no text, `Value.MisKeyed`, and for no
other reason. `Tree.StoredAs` compares a tree with what was stored of it, level by level: sequences
become lists, mappings become nodes that can be written to, keys and items keep their order, and
everything else is the same. A merge stores some parts of what comes in and goes through others;
`Tree.Absorbed` says of every path which.
-/

namespace LayeredConfig

namespace Value

/-- The value stands in another one: it is the whole, or is found through items of sequences and
values of mappings. Nothing is found in a node or a computation. -/
inductive Within (x : Value) : Value → Prop
  | self : Within x x
  | item {kind : SeqKind} {items : List Value} {v : Value} (hv : v ∈ items) (h : Within x v) :
      Within x (.seq kind items)
  | entry {entries : List (Value × Value)} {e : Value × Value} (he : e ∈ entries)
      (h : Within x e.2) : Within x (.mapping entries)

/-- Some mapping in the value has a key that is no text. -/
def MisKeyed (v : Value) : Prop :=
  ∃ entries, (mapping entries).Within v ∧ ∃ e ∈ entries, ∀ s, e.1 ≠ .text s

/-- Nothing, a node or a mapping: what a node can be made of. -/
inductive NodeLike : Value → Prop
  | null : NodeLike .null
  | node (id : NodeId) : NodeLike (.node id)
  | mapping (entries : List (Value × Value)) : NodeLike (.mapping entries)

theorem misKeyed_seq {kind : SeqKind} {items : List Value} :
    (seq kind items).MisKeyed ↔ ∃ v ∈ items, v.MisKeyed := by
  constructor
  · rintro ⟨entries, hwithin, hkey⟩
    cases hwithin with
    | item hv h => exact ⟨_, hv, entries, h, hkey⟩
  · rintro ⟨v, hv, entries, hwithin, hkey⟩
    exact ⟨entries, .item hv hwithin, hkey⟩

theorem misKeyed_mapping {entries : List (Value × Value)} :
    (mapping entries).MisKeyed ↔
      (∃ e ∈ entries, ∀ s, e.1 ≠ .text s) ∨ ∃ e ∈ entries, e.2.MisKeyed := by
  constructor
  · rintro ⟨entries', hwithin, hkey⟩
    cases hwithin with
    | self => exact .inl hkey
    | entry he h => exact .inr ⟨_, he, entries', h, hkey⟩
  · rintro (hkey | ⟨e, he, entries', hwithin, hkey⟩)
    · exact ⟨entries, .self, hkey⟩
    · exact ⟨entries', .entry he hwithin, hkey⟩

/-- A node is stored already, and its keys are texts. -/
theorem not_misKeyed_node (n : NodeId) : ¬(node n).MisKeyed := by
  rintro ⟨entries, hwithin, _⟩
  cases hwithin

theorem not_misKeyed_null : ¬null.MisKeyed := by
  rintro ⟨entries, hwithin, _⟩
  cases hwithin

end Value

namespace Tree

/-- **What is stored of a tree.** -/
inductive StoredAs : Tree → Tree → Prop
  | scalar (s : Scalar) : StoredAs (.scalar s) (.scalar s)
  | set (items : List Scalar) : StoredAs (.set items) (.set items)
  | deferred (d : DeferredId) : StoredAs (.deferred d) (.deferred d)
  | seq {kind : SeqKind} {items stored : List Tree} (length : stored.length = items.length)
      (values : ∀ (i : ℕ) (t u : Tree), items[i]? = some t → stored[i]? = some u →
        StoredAs t u) :
      StoredAs (.seq kind items) (.seq .list stored)
  | node {t : Tree} {fields stored : Entries Tree} (id : NodeId)
      (branches : t.branches? = some fields) (keys : stored.keys = fields.keys)
      (values : ∀ (i : ℕ) (e s : String × Tree), fields[i]? = some e → stored[i]? = some s →
        StoredAs e.2 s.2) :
      StoredAs t (.node id false stored)

variable {t u : Tree}

/-- A stored tree holds no mappings, no tuples, and nothing frozen. -/
theorem StoredAs.writable (h : t.StoredAs u) : u.Writable := by
  induction h with
  | scalar s => exact .scalar s
  | set items => exact .set items
  | deferred d => exact .deferred d
  | @seq kind items stored length _ ih =>
    refine .list fun w hw ↦ ?_
    obtain ⟨i, hi, rfl⟩ := List.getElem_of_mem hw
    exact ih i items[i] stored[i] (List.getElem?_eq_getElem (length ▸ hi))
      (List.getElem?_eq_getElem hi)
  | @node t fields stored id _ keys _ ih =>
    refine .node id fun s hs ↦ ?_
    obtain ⟨i, hi, rfl⟩ := List.getElem_of_mem hs
    have hlength : stored.length = fields.length := by
      have h := congrArg List.length keys
      rwa [Entries.keys, Entries.keys, List.length_map, List.length_map] at h
    exact ih i fields[i] stored[i] (List.getElem?_eq_getElem (hlength ▸ hi))
      (List.getElem?_eq_getElem hi)

/-- Lists with the same contents have them at the same places. -/
private theorem content_getElem? {α : Type} {content : α → Blueprint} {xs ys : List α}
    (h : ys.map content = xs.map content) {i : ℕ} {x y : α} (hx : xs[i]? = some x)
    (hy : ys[i]? = some y) : content y = content x := by
  have hi := congrArg (·[i]?) h
  simp only [List.getElem?_map, hx, hy, Option.map_some] at hi
  exact Option.some.inj hi

/-- **A tree that can be written to** and that has the content of another is what is stored of
it. -/
theorem storedAs_of_content (hcontent : u.content = t.content) (hu : u.Writable) :
    t.StoredAs u := by
  -- mappings and nodes are one case: both have branches
  have level : ∀ {t u : Tree} {fields : Entries Tree}, t.branches? = some fields →
      (∀ e ∈ fields, ∀ {u : Tree}, u.content = e.2.content → u.Writable → e.2.StoredAs u) →
      u.content = t.content → u.Writable → t.StoredAs u := by
    intro t u fields hb ih hcontent hu
    obtain ⟨stored, hstored, hsame⟩ :=
      branches_of_content (hcontent.trans (content_of_branches hb))
    obtain ⟨id, rfl, hall⟩ := hu.eq_node hstored
    have hkeys := congrArg Entries.keys hsame
    rw [Entries.keys_mapValues, Entries.keys_mapValues] at hkeys
    refine .node id hb hkeys fun i e s he hs ↦ ?_
    have hmem : s ∈ stored := List.mem_of_getElem? hs
    refine ih e (List.mem_of_getElem? he) ?_ (hall s hmem)
    have hvalues : stored.map (fun e ↦ e.2.content) = fields.map fun e ↦ e.2.content := by
      have h := congrArg (List.map Prod.snd) hsame
      rwa [Entries.mapValues, Entries.mapValues, List.map_map, List.map_map] at h
    exact content_getElem? hvalues he hs
  induction t generalizing u with
  | scalar s =>
    rw [eq_scalar_of_content hcontent]
    exact .scalar s
  | seq kind items ih =>
    rw [content_seq] at hcontent
    obtain ⟨kind', stored, rfl, hitems⟩ := eq_seq_of_content hcontent
    cases hu with
    | list hall =>
      have hlength := congrArg List.length hitems
      rw [List.length_map, List.length_map] at hlength
      exact .seq hlength fun i t w ht hw ↦ ih t (List.mem_of_getElem? ht)
        (content_getElem? hitems ht hw) (hall w (List.mem_of_getElem? hw))
  | set items =>
    rw [eq_set_of_content hcontent]
    exact .set items
  | mapping entries ih =>
    refine level rfl (fun e he {u} hc hw ↦ ?_) hcontent hu
    obtain ⟨a, ha, rfl⟩ := List.mem_map.mp (Entries.mem_of_mem_ofPairs he)
    exact (ih a ha).2 hc hw
  | node id frozen fields ih => exact level rfl (fun e he {u} hc hw ↦ ih e he hc hw) hcontent hu
  | deferred d =>
    rw [eq_deferred_of_content hcontent]
    exact .deferred d

/-! ## What a merge has taken in -/

/-- **What a merge has taken in**, path by path. Where no node stood all that comes in is stored;
elsewhere, all but nodes, which are gone through, and nothing, which leaves the node there. -/
structure Absorbed (old incoming new : Tree) : Prop where
  stored : ∀ p x, incoming.at? p = some x →
    (old.at? p).bind branches? = none ∨ x.branches? = none ∧ x ≠ .scalar .null →
    ∃ y, new.at? p = some y ∧ x.StoredAs y
  kept : ∀ p o, incoming.at? p = some (.scalar .null) → old.at? p = some o →
    o.branches? ≠ none → new.at? p = some o
  /-- New keys come after the old ones, in the order in which they came in. -/
  keys : ∀ p a b as bs, old.at? p = some a → incoming.at? p = some b →
    a.branches? = some as → b.branches? = some bs →
    ∃ c cs, new.at? p = some c ∧ c.branches? = some cs ∧
      cs.keys = as.keys ++ bs.keys.filter (· ∉ as.keys)

theorem absorbed_null (id : NodeId) (frozen : Bool) (fields : Entries Tree) :
    (node id frozen fields).Absorbed (.scalar .null) (node id frozen fields) := by
  -- the only path in nothing is the empty one
  have hpath : ∀ {p x}, (scalar .null).at? p = some x → p = [] ∧ x = .scalar .null := by
    intro p x h
    cases p with
    | nil => exact ⟨rfl, (Option.some.inj h).symm⟩
    | cons key rest =>
      rw [at?_cons_of_none rfl] at h
      cases h
  refine ⟨fun p x hx hplain ↦ ?_, fun p o _ ho _ ↦ ho, fun p a b as bs _ hb _ hbs ↦ ?_⟩
  · obtain ⟨rfl, rfl⟩ := hpath hx
    rcases hplain with hplain | ⟨_, hnull⟩
    · cases hplain
    · exact absurd rfl hnull
  · obtain ⟨_, rfl⟩ := hpath hb
    cases hbs

theorem Merged.absorbed {Copy : Tree → Blueprint → Prop}
    (hcontent : ∀ {t b}, Copy t b → t.content = b)
    (hparts : ∀ {t b fields}, Copy t b → t.branches? = some fields →
      ∀ e ∈ fields, Copy e.2 e.2.content) (hwritable : ∀ {t b}, Copy t b → t.Writable)
    (id : NodeId) (frozen : Bool) {old new xs : Entries Tree} {incoming : Tree}
    (hxs : incoming.branches? = some xs) (hd : incoming.Distinct)
    (h : Merged Copy old (xs.mapValues Tree.content) new) :
    (node id frozen old).Absorbed incoming (node id frozen new) where
  stored p x hx hplain := by
    obtain ⟨y, hy, hcopy⟩ := h.copy_at? hcontent hparts id frozen p hxs hd hx hplain
    exact ⟨y, hy, storedAs_of_content (hcontent hcopy) (hwritable hcopy)⟩
  kept p o hp := (h.at? hcontent hparts id frozen p hxs hd).kept hp o
  keys p _ _ _ _ ha hb has hbs := h.keys_at? id frozen p hxs hd ha hb has hbs

end Tree

end LayeredConfig
