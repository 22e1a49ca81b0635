import LayeredConfig.Proofs.Tree.Paths

/-!
# What merging makes of a tree

`Merged Copy old incoming new` describes a merge as a relation between what a node holds before,
the content that comes in, and what the node holds afterwards, where `Copy t b` says which trees
may be stored for a blueprint. The relation follows the order in which the merge goes through the
incoming keys. Its consequences no longer mention that order: what stands under one key
(`Merged.find?`), the order of the keys (`Merged.keys`), and what stands at the end of a path
(`Merged.at?`). On contents merging is a function, `Blueprint.merge`.
-/

namespace LayeredConfig

/-- Writing a key and then adding those of others that are new is adding the new ones of all. -/
theorem Entries.keys_put_append_filter {α : Type} {key : String} {rest : List String}
    (h : key ∉ rest) (value : α) (entries : Entries α) :
    (entries.put key value).keys ++ rest.filter (· ∉ (entries.put key value).keys)
      = entries.keys ++ (key :: rest).filter (· ∉ entries.keys) := by
  rw [Entries.keys_put]
  -- a key that is there already stays in its place, and a new one goes to the end
  by_cases hkey : key ∈ entries.keys
  · rw [if_pos hkey, List.filter_cons_of_neg (by simpa using hkey)]
  · rw [if_neg hkey, List.filter_cons_of_pos (by simpa using hkey), List.append_assoc]
    refine congrArg (entries.keys ++ ·) (congrArg (key :: ·) (List.filter_congr fun k hk ↦ ?_))
    have hne : k ≠ key := fun heq ↦ h (heq ▸ hk)
    simp [hne]

/-! ## Merging contents -/

namespace Blueprint

mutual

/-- The fields of a node with others merged over them, one after the other. -/
def mergeFields (old : Entries Blueprint) : Entries Blueprint → Entries Blueprint
  | [] => old
  | (key, b) :: rest => mergeFields (old.put key (merge (old.find? key) b)) rest
termination_by structural x => x

/-- What stands under a key after a value was merged over what stood there: two nodes are merged,
nothing leaves a node as it is, and otherwise the new value replaces the old one. -/
def merge (old : Option Blueprint) : Blueprint → Blueprint
  | .node fields =>
    match old with
    | some (.node oldFields) => .node (mergeFields oldFields fields)
    | _ => .node fields
  | .scalar .null =>
    match old with
    | some (.node oldFields) => .node oldFields
    | _ => .scalar .null
  | b => b
termination_by structural x => x

end

variable {old : Option Blueprint} {b : Blueprint}

theorem merge_of_ne (h : ∀ fields, old ≠ some (.node fields)) : merge old b = b := by
  cases b with
  | node fields =>
    rw [merge]
    exact h
  | scalar s =>
    cases s with
    | null =>
      rw [merge]
      exact h
    | _ => rfl
  | _ => rfl

theorem merge_of_plain (hnull : b ≠ .scalar .null) (hnode : ∀ fields, b ≠ .node fields) :
    merge old b = b := by
  cases b with
  | node fields => exact absurd rfl (hnode fields)
  | scalar s =>
    cases s with
    | null => exact absurd rfl hnull
    | _ => rfl
  | _ => rfl

end Blueprint

namespace Tree

variable {Copy : Tree → Blueprint → Prop}

/-- What merging may make of the fields of a node. -/
inductive Merged (Copy : Tree → Blueprint → Prop) :
    Entries Tree → Entries Blueprint → Entries Tree → Prop
  | done (old : Entries Tree) : Merged Copy old [] old
  | descend {old fields fields' new : Entries Tree} {key : String} {id : NodeId} {frozen : Bool}
      {sub rest : Entries Blueprint} (h : old.find? key = some (.node id frozen fields))
      (hsub : Merged Copy fields sub fields')
      (hrest : Merged Copy (old.put key (.node id frozen fields')) rest new) :
      Merged Copy old ((key, .node sub) :: rest) new
  | keep {old fields new : Entries Tree} {key : String} {id : NodeId} {frozen : Bool}
      {rest : Entries Blueprint} (h : old.find? key = some (.node id frozen fields))
      (hrest : Merged Copy old rest new) : Merged Copy old ((key, .scalar .null) :: rest) new
  | replace {old new : Entries Tree} {key : String} {b : Blueprint} {t : Tree}
      {rest : Entries Blueprint}
      (h : (old.find? key).bind branches? = none ∨ b ≠ .scalar .null ∧ ∀ sub, b ≠ .node sub)
      (hcopy : Copy t b) (hrest : Merged Copy (old.put key t) rest new) :
      Merged Copy old ((key, b) :: rest) new

/-- What merging may make of what stands under one key. -/
inductive MergedAt (Copy : Tree → Blueprint → Prop) : Option Tree → Blueprint → Tree → Prop
  | descend {fields fields' : Entries Tree} {sub : Entries Blueprint} (id : NodeId) (frozen : Bool)
      (h : Merged Copy fields sub fields') :
      MergedAt Copy (some (.node id frozen fields)) (.node sub) (.node id frozen fields')
  | keep (id : NodeId) (frozen : Bool) (fields : Entries Tree) :
      MergedAt Copy (some (.node id frozen fields)) (.scalar .null) (.node id frozen fields)
  | replace {old : Option Tree} {b : Blueprint} {t : Tree}
      (h : old.bind branches? = none ∨ b ≠ .scalar .null ∧ ∀ sub, b ≠ .node sub)
      (hcopy : Copy t b) : MergedAt Copy old b t

namespace Merged

theorem step {old new : Entries Tree} {key : String} {b : Blueprint} {t : Tree}
    {rest : Entries Blueprint} (hat : MergedAt Copy (old.find? key) b t)
    (h : Merged Copy (old.put key t) rest new) : Merged Copy old ((key, b) :: rest) new := by
  generalize ho : old.find? key = o at hat
  cases hat with
  | descend id frozen hsub => exact .descend ho hsub h
  | keep id frozen fields =>
    rw [Entries.put_of_find? ho] at h
    exact .keep ho h
  | replace hcond hcopy =>
    rw [← ho] at hcond
    exact .replace hcond hcopy h

/-- A merge goes through the incoming keys and writes one after the other. -/
theorem step_induction {motive : Entries Tree → Entries Blueprint → Entries Tree → Prop}
    (done : ∀ old, motive old [] old)
    (step : ∀ {old new : Entries Tree} {key : String} {b : Blueprint} {t : Tree}
      {rest : Entries Blueprint}, MergedAt Copy (old.find? key) b t →
      motive (old.put key t) rest new → motive old ((key, b) :: rest) new)
    {old new : Entries Tree} {incoming : Entries Blueprint} (h : Merged Copy old incoming new) :
    motive old incoming new := by
  induction h with
  | done old => exact done old
  | descend h hsub _ _ ih =>
    refine step ?_ ih
    rw [h]
    exact .descend _ _ hsub
  | @keep old fields new key id frozen rest h _ ih =>
    refine step (t := .node id frozen fields) ?_ ?_
    · rw [h]
      exact .keep id frozen fields
    · rwa [Entries.put_of_find? h]
  | replace h hcopy _ ih => exact step (.replace h hcopy) ih

variable {old new : Entries Tree} {incoming : Entries Blueprint}

/-- **What stands under a key after a merge** depends only on what stood there and what came in
under it. -/
theorem find? (h : Merged Copy old incoming new) (hin : incoming.keys.Nodup) (key : String) :
    (incoming.find? key = none → new.find? key = old.find? key) ∧
    ∀ b, incoming.find? key = some b →
      ∃ t, new.find? key = some t ∧ MergedAt Copy (old.find? key) b t := by
  revert hin
  refine step_induction (motive := fun old incoming new ↦ incoming.keys.Nodup →
    (incoming.find? key = none → new.find? key = old.find? key) ∧
    ∀ b, incoming.find? key = some b →
      ∃ t, new.find? key = some t ∧ MergedAt Copy (old.find? key) b t) ?_ ?_ h
  · exact fun old _ ↦ ⟨fun _ ↦ rfl, fun b hb ↦ by cases hb⟩
  · intro old new k b t rest hat ih hin
    rw [Entries.keys, List.map_cons, List.nodup_cons] at hin
    obtain ⟨hk, hrest⟩ := hin
    obtain ⟨hnone, hsome⟩ := ih hrest
    rw [Entries.find?]
    by_cases hkey : k = key
    · subst hkey
      rw [if_pos rfl]
      refine ⟨fun hc ↦ absurd hc (Option.some_ne_none b), fun c hc ↦ ⟨t, ?_, ?_⟩⟩
      · rw [hnone (Entries.find?_eq_none_iff.mpr hk), Entries.find?_put_self]
      · rwa [← Option.some.inj hc]
    · rw [if_neg hkey]
      rw [Entries.find?_put_of_ne (Ne.symm hkey)] at hnone hsome
      exact ⟨hnone, hsome⟩

/-- **The keys after a merge**: those of the node in their order, then the new ones in theirs. -/
theorem keys (h : Merged Copy old incoming new) (hin : incoming.keys.Nodup) :
    new.keys = old.keys ++ incoming.keys.filter (· ∉ old.keys) := by
  revert hin
  refine step_induction (motive := fun old incoming new ↦ incoming.keys.Nodup →
    new.keys = old.keys ++ incoming.keys.filter (· ∉ old.keys)) ?_ ?_ h
  · exact fun old _ ↦ (List.append_nil _).symm
  · intro old new k b t rest hat ih hin
    rw [Entries.keys, List.map_cons, List.nodup_cons] at hin
    obtain ⟨hk, hrest⟩ := hin
    rw [ih hrest]
    exact Entries.keys_put_append_filter hk t old

/-- **The content after a merge** is the merge of the contents. -/
theorem content (hcontent : ∀ {t b}, Copy t b → t.content = b)
    (h : Merged Copy old incoming new) :
    new.mapValues Tree.content
      = Blueprint.mergeFields (old.mapValues Tree.content) incoming := by
  induction h with
  | done old => rfl
  | @descend old fields fields' new key id frozen sub rest h _ _ ihsub ih =>
    rw [ih, Entries.mapValues_put, Blueprint.mergeFields, Entries.find?_mapValues, h, content_node,
      ihsub, Option.map_some, content_node]
    rfl
  | @keep old fields new key id frozen rest h _ ih =>
    have hsame : (old.mapValues Tree.content).put key (.node (fields.mapValues Tree.content))
        = old.mapValues Tree.content := by
      refine Entries.put_of_find? ?_
      rw [Entries.find?_mapValues, h, Option.map_some, content_node]
    rw [ih, Blueprint.mergeFields, Entries.find?_mapValues, h, Option.map_some, content_node]
    exact congrArg (Blueprint.mergeFields · rest) hsame.symm
  | @replace old new key b t rest h hcopy _ ih =>
    -- on contents, too, the condition says that the new value replaces the old one
    have hmerge : Blueprint.merge ((old.mapValues Tree.content).find? key) b = b := by
      rcases h with h | ⟨hnull, hnode⟩
      · refine Blueprint.merge_of_ne fun fields hfields ↦ ?_
        rw [Entries.find?_mapValues] at hfields
        obtain ⟨u, hu, hcontent⟩ := Option.map_eq_some_iff.mp hfields
        obtain ⟨branches, hbranches, _⟩ := branches_of_content hcontent
        rw [hu, Option.bind_some, hbranches] at h
        cases h
      · exact Blueprint.merge_of_plain hnull hnode
    rw [ih, Entries.mapValues_put, Blueprint.mergeFields, hmerge, hcontent hcopy]

end Merged

/-! ## Merges that do not get through -/

/-- **What a refused merge leaves** of what a node holds. The entries in front have been merged. At
the next key a node came in; the node there is frozen and is left as it was, or it can be written to
and the merge into it was refused in turn. -/
inductive Halted (Copy : Tree → Blueprint → Prop) :
    Entries Tree → Entries Blueprint → Entries Tree → Prop
  | here {old new fields : Entries Tree} {front sub rest : Entries Blueprint} {key : String}
      {id : NodeId} (hfront : Merged Copy old front new)
      (h : new.find? key = some (.node id true fields)) :
      Halted Copy old (front ++ (key, .node sub) :: rest) new
  | inside {old mid fields fields' : Entries Tree} {front sub rest : Entries Blueprint}
      {key : String} {id : NodeId} (hfront : Merged Copy old front mid)
      (h : mid.find? key = some (.node id false fields)) (hsub : Halted Copy fields sub fields') :
      Halted Copy old (front ++ (key, .node sub) :: rest) (mid.put key (.node id false fields'))

/-- One more entry that was merged before. -/
theorem Halted.step {old new : Entries Tree} {key : String} {b : Blueprint} {t : Tree}
    {rest : Entries Blueprint} (hat : MergedAt Copy (old.find? key) b t)
    (h : Halted Copy (old.put key t) rest new) : Halted Copy old ((key, b) :: rest) new := by
  cases h with
  | here hfront h => exact .here (.step hat hfront) h
  | inside hfront h hsub => exact .inside (.step hat hfront) h hsub

/-! ## Paths after a merge -/

/-- **What a merge puts at the end of a path**, by what stood there before and what came in. -/
structure PathMerged (Copy : Tree → Blueprint → Prop) (old incoming new : Tree)
    (p : List String) : Prop where
  /-- A value that is neither a node nor nothing is copied. -/
  value : ∀ x, incoming.at? p = some x → x.branches? = none → x ≠ .scalar .null →
    ∃ y, new.at? p = some y ∧ Copy y x.content
  /-- Nothing leaves a node as it is. -/
  kept : incoming.at? p = some (.scalar .null) →
    ∀ o, old.at? p = some o → o.branches? ≠ none → new.at? p = some o
  /-- Nothing replaces everything else. -/
  nulled : incoming.at? p = some (.scalar .null) →
    (∀ o, old.at? p = some o → o.branches? = none) → new.at? p = some (.scalar .null)
  /-- Where a node comes in there is a node. -/
  node : ∀ x, incoming.at? p = some x → x.branches? ≠ none →
    ∃ y, new.at? p = some y ∧ y.branches? ≠ none
  /-- A value on the way cuts off what stood behind it. -/
  cut : incoming.at? p = none → incoming.Blocked p → new.at? p = none
  /-- Otherwise, what is not mentioned stays what it was. -/
  unchanged : incoming.at? p = none → ¬incoming.Blocked p → new.at? p = old.at? p

/-- A copy has the paths of the original, and copies at their ends. -/
theorem at?_copy (hcontent : ∀ {t b}, Copy t b → t.content = b)
    (hparts : ∀ {t b fields}, Copy t b → t.branches? = some fields →
      ∀ e ∈ fields, Copy e.2 e.2.content) (p : List String) {x y : Tree}
    (hxy : Copy y x.content) :
    (x.at? p = none → y.at? p = none) ∧
      ∀ z, x.at? p = some z → ∃ w, y.at? p = some w ∧ Copy w z.content := by
  induction p generalizing x y with
  | nil => exact ⟨fun h ↦ (by cases h), fun z hz ↦ ⟨y, rfl, Option.some.inj hz ▸ hxy⟩⟩
  | cons key rest ih =>
    -- the two agree on whether they have keys at all, because their contents do
    cases hx : x.branches? with
    | none =>
      rw [at?_cons_of_none hx,
        at?_cons_of_none (branches_eq_none_of_content (hcontent hxy) hx)]
      exact ⟨fun _ ↦ rfl, fun z hz ↦ by cases hz⟩
    | some xs =>
      have hy : y.content = .node (xs.mapValues Tree.content) :=
        (hcontent hxy).trans (content_of_branches hx)
      obtain ⟨ys, hys, hsame⟩ := branches_of_content hy
      have hfind : (ys.find? key).map Tree.content = (xs.find? key).map Tree.content := by
        rw [← Entries.find?_mapValues, hsame, Entries.find?_mapValues]
      rw [at?_cons hx, at?_cons hys]
      cases hxk : xs.find? key with
      | none =>
        rw [hxk, Option.map_none, Option.map_eq_none_iff] at hfind
        rw [hfind]
        exact ⟨fun _ ↦ rfl, fun z hz ↦ by cases hz⟩
      | some a =>
        rw [hxk, Option.map_some] at hfind
        obtain ⟨b, hb, hab⟩ := Option.map_eq_some_iff.mp hfind
        rw [hb, Option.bind_some, Option.bind_some]
        exact ih (hab ▸ hparts hxy hys (key, b) (Entries.mem_of_find? hb))

namespace PathMerged

variable {old incoming new o x t : Tree} {os xs ts : Entries Tree} {key : String}
  {rest : List String}

/-- One more key in front of a path. -/
theorem cons (hos : old.branches? = some os) (hxs : incoming.branches? = some xs)
    (hts : new.branches? = some ts) (ho : os.find? key = some o) (hx : xs.find? key = some x)
    (ht : ts.find? key = some t) (h : PathMerged Copy o x t rest) :
    PathMerged Copy old incoming new (key :: rest) := by
  have hold : old.at? (key :: rest) = o.at? rest := by rw [at?_cons hos, ho, Option.bind_some]
  have hin : incoming.at? (key :: rest) = x.at? rest := by
    rw [at?_cons hxs, hx, Option.bind_some]
  have hnew : new.at? (key :: rest) = t.at? rest := by rw [at?_cons hts, ht, Option.bind_some]
  have hblocked : incoming.Blocked (key :: rest) ↔ x.Blocked rest := by
    rw [blocked_cons hxs]
    exact ⟨fun ⟨u, hu, h⟩ ↦ Option.some.inj (hx.symm.trans hu) ▸ h, fun h ↦ ⟨x, hx, h⟩⟩
  constructor
  · rw [hin, hnew]
    exact h.value
  · rw [hin, hold, hnew]
    exact h.kept
  · rw [hin, hold, hnew]
    exact h.nulled
  · rw [hin, hnew]
    exact h.node
  · rw [hin, hnew, hblocked]
    exact h.cut
  · rw [hin, hold, hnew, hblocked]
    exact h.unchanged

/-- A key that does not come in. -/
theorem absent (hos : old.branches? = some os) (hxs : incoming.branches? = some xs)
    (hts : new.branches? = some ts) (hx : xs.find? key = none)
    (ht : ts.find? key = os.find? key) : PathMerged Copy old incoming new (key :: rest) := by
  have hin : incoming.at? (key :: rest) = none := by rw [at?_cons hxs, hx, Option.bind_none]
  have hsome : ∀ {u}, incoming.at? (key :: rest) ≠ some u := fun h ↦ by
    rw [hin] at h
    cases h
  refine ⟨fun u hu ↦ absurd hu hsome, fun h ↦ absurd h hsome, fun h ↦ absurd h hsome,
    fun u hu ↦ absurd hu hsome, fun _ h ↦ ?_, fun _ _ ↦ ?_⟩
  · obtain ⟨u, hu, _⟩ := (blocked_cons hxs).mp h
    rw [hx] at hu
    cases hu
  · rw [at?_cons hos, at?_cons hts, ht]

/-- Nothing comes in where a node stands. -/
theorem keep (ho : o.branches? ≠ none) : PathMerged Copy o (.scalar .null) o rest := by
  cases rest with
  | nil =>
    refine ⟨fun x hx _ hnull ↦ absurd (Option.some.inj hx).symm hnull, fun _ u hu _ ↦ hu,
      fun _ h ↦ absurd (h o rfl) ho, fun x hx hx' ↦ ?_, fun hx ↦ (by cases hx), fun _ _ ↦ rfl⟩
    rw [← Option.some.inj hx] at hx'
    exact absurd rfl hx'
  | cons key rest =>
    have hsome : ∀ {u}, (scalar .null).at? (key :: rest) ≠ some u := fun h ↦ by
      rw [at?_cons_of_none rfl] at h
      cases h
    exact ⟨fun _ hx ↦ absurd hx hsome, fun hx ↦ absurd hx hsome, fun hx ↦ absurd hx hsome,
      fun _ hx ↦ absurd hx hsome, fun _ h ↦ absurd h (not_blocked_null _), fun _ _ ↦ rfl⟩

/-- Behind what has no keys there is nothing. -/
private theorem at?_of_no_branches {o : Option Tree} (h : o.bind branches? = none)
    (hrest : rest ≠ []) : o.bind (at? rest) = none := by
  obtain ⟨k, r, rfl⟩ := List.exists_cons_of_ne_nil hrest
  cases o with
  | none => rfl
  | some u => exact at?_cons_of_none h k r

/-- What is replaced never meets nothing as a node. -/
private theorem branches_of_replaced {o : Option Tree} {u : Tree}
    (h : o.bind branches? = none ∨ x.content ≠ .scalar .null ∧ ∀ sub, x.content ≠ .node sub)
    (hx : x.at? rest = some (.scalar .null)) (hu : o.bind (at? rest) = some u) :
    u.branches? = none := by
  cases rest with
  | nil =>
    rcases h with h | h
    · obtain ⟨w, hw, hwu⟩ := Option.bind_eq_some_iff.mp hu
      rw [hw, Option.bind_some] at h
      exact Option.some.inj hwu ▸ h
    · exact absurd (congrArg Tree.content (Option.some.inj hx)) h.1
  | cons k r =>
    rcases h with h | h
    · rw [at?_of_no_branches h (List.cons_ne_nil k r)] at hu
      cases hu
    · cases hb : x.branches? with
      | none =>
        rw [at?_cons_of_none hb] at hx
        cases hx
      | some fields => exact absurd (content_of_branches hb) (h.2 _)

/-- A value comes in that is not merged. -/
theorem replace (hcontent : ∀ {t b}, Copy t b → t.content = b)
    (hparts : ∀ {t b fields}, Copy t b → t.branches? = some fields →
      ∀ e ∈ fields, Copy e.2 e.2.content)
    (hos : old.branches? = some os) (hxs : incoming.branches? = some xs)
    (hts : new.branches? = some ts) (hx : xs.find? key = some x) (ht : ts.find? key = some t)
    (h : (os.find? key).bind branches? = none ∨
      x.content ≠ .scalar .null ∧ ∀ sub, x.content ≠ .node sub)
    (hcopy : Copy t x.content) : PathMerged Copy old incoming new (key :: rest) := by
  have hold : old.at? (key :: rest) = (os.find? key).bind (at? rest) := at?_cons hos key rest
  have hin : incoming.at? (key :: rest) = x.at? rest := by
    rw [at?_cons hxs, hx, Option.bind_some]
  have hnew : new.at? (key :: rest) = t.at? rest := by rw [at?_cons hts, ht, Option.bind_some]
  obtain ⟨hnone, hsome⟩ := at?_copy hcontent hparts rest hcopy
  constructor
  · rw [hin, hnew]
    exact fun z hz _ _ ↦ hsome z hz
  · rw [hin, hold]
    exact fun hz o ho hbranches ↦ absurd (branches_of_replaced h hz ho) hbranches
  · rw [hin, hnew]
    intro hz _
    obtain ⟨w, hw, hwz⟩ := hsome _ hz
    rw [hw, eq_scalar_of_content (hcontent hwz)]
  · rw [hin, hnew]
    intro z hz hzb
    obtain ⟨w, hw, hwz⟩ := hsome z hz
    exact ⟨w, hw, fun hwb ↦ hzb (branches_eq_none_of_content (hcontent hwz).symm hwb)⟩
  · rw [hin, hnew]
    exact fun hz _ ↦ hnone hz
  · rw [hin, hnew, hold]
    intro hz hblocked
    have hrest : rest ≠ [] := by
      rintro rfl
      cases hz
    rw [hnone hz]
    -- if the new value has no keys and is not nothing, it would block the path
    refine (at?_of_no_branches ?_ hrest).symm
    rcases h with h | h
    · exact h
    · refine absurd ((blocked_cons hxs).mpr ⟨x, hx, blocked_of_branches ?_ ?_ hrest⟩) hblocked
      · cases hb : x.branches? with
        | none => rfl
        | some fields => exact absurd (content_of_branches hb) (h.2 _)
      · rintro rfl
        exact h.1 rfl

end PathMerged

/-- **A merge, path by path.** -/
theorem Merged.at? (hcontent : ∀ {t b}, Copy t b → t.content = b)
    (hparts : ∀ {t b fields}, Copy t b → t.branches? = some fields →
      ∀ e ∈ fields, Copy e.2 e.2.content) (id : NodeId) (frozen : Bool) (p : List String)
    {old new : Entries Tree} {incoming : Tree} {xs : Entries Tree}
    (hxs : incoming.branches? = some xs) (hd : incoming.Distinct)
    (h : Merged Copy old (xs.mapValues Tree.content) new) :
    PathMerged Copy (.node id frozen old) incoming (.node id frozen new) p := by
  induction p generalizing id frozen old new incoming xs with
  | nil =>
    refine ⟨fun x hx hx' ↦ ?_, fun hx ↦ ?_, fun hx ↦ ?_, fun _ _ _ ↦ ⟨_, rfl, ?_⟩,
      fun hx ↦ (by cases hx), fun hx ↦ (by cases hx)⟩
    · rw [← Option.some.inj hx, hxs] at hx'
      cases hx'
    · rw [Option.some.inj hx] at hxs
      cases hxs
    · rw [Option.some.inj hx] at hxs
      cases hxs
    · exact Option.some_ne_none new
  | cons key rest ih =>
    obtain ⟨hkeys, hdistinct⟩ := hd.branches hxs
    obtain ⟨hnone, hsome⟩ := h.find? (by rwa [Entries.keys_mapValues]) key
    rw [Entries.find?_mapValues] at hnone hsome
    cases hx : xs.find? key with
    | none => exact .absent rfl hxs rfl hx (hnone (by rw [hx, Option.map_none]))
    | some x =>
      obtain ⟨t, ht, hat⟩ := hsome x.content (by rw [hx, Option.map_some])
      have hdx := hdistinct _ (Entries.mem_of_find? hx)
      generalize ho : old.find? key = o at hat
      generalize hb : x.content = b at hat
      -- what happened at this key decides about everything behind it
      cases hat with
      | descend id' frozen' hsub =>
        obtain ⟨branches, hbranches, rfl⟩ := branches_of_content hb
        exact .cons rfl hxs rfl ho hx ht (ih id' frozen' hbranches hdx hsub)
      | keep id' frozen' fields =>
        rw [eq_scalar_of_content hb] at hx
        exact .cons rfl hxs rfl ho hx ht (.keep (Option.some_ne_none fields))
      | replace hcond hcopy =>
        rw [← ho, ← hb] at hcond
        exact .replace hcontent hparts rfl hxs rfl hx ht hcond (hb ▸ hcopy)

/-- **What is copied by a merge**: all that comes in where no node stands, and everywhere what is
neither a node nor nothing. -/
theorem Merged.copy_at? (hcontent : ∀ {t b}, Copy t b → t.content = b)
    (hparts : ∀ {t b fields}, Copy t b → t.branches? = some fields →
      ∀ e ∈ fields, Copy e.2 e.2.content) (id : NodeId) (frozen : Bool) (p : List String)
    {old new xs : Entries Tree} {incoming x : Tree} (hxs : incoming.branches? = some xs)
    (hd : incoming.Distinct) (h : Merged Copy old (xs.mapValues Tree.content) new)
    (hx : incoming.at? p = some x)
    (hplain : ((node id frozen old).at? p).bind branches? = none ∨
      x.branches? = none ∧ x ≠ .scalar .null) :
    ∃ y, (node id frozen new).at? p = some y ∧ Copy y x.content := by
  induction p generalizing id frozen old new incoming xs with
  | nil =>
    rcases hplain with hplain | ⟨hplain, _⟩
    · cases hplain
    · rw [← Option.some.inj hx, hxs] at hplain
      cases hplain
  | cons key rest ih =>
    obtain ⟨hkeys, hdistinct⟩ := hd.branches hxs
    rw [at?_cons hxs] at hx
    obtain ⟨a, ha, hax⟩ := Option.bind_eq_some_iff.mp hx
    obtain ⟨t, ht, hat⟩ := (h.find? (by rwa [Entries.keys_mapValues]) key).2 a.content (by
      rw [Entries.find?_mapValues, ha, Option.map_some])
    rw [at?_cons rfl] at hplain ⊢
    rw [ht, Option.bind_some]
    generalize ho : old.find? key = o at hat hplain
    generalize hb : a.content = b at hat
    -- behind a node that stays only nothing comes in; behind a copy all is copied
    cases hat with
    | descend id' frozen' hsub =>
      obtain ⟨branches, hbranches, rfl⟩ := branches_of_content hb
      exact ih id' frozen' hbranches (hdistinct _ (Entries.mem_of_find? ha)) hsub hax hplain
    | keep id' frozen' fields =>
      rw [eq_scalar_of_content hb] at hax
      cases rest with
      | nil =>
        rcases hplain with hplain | ⟨_, hnull⟩
        · cases hplain
        · exact absurd (Option.some.inj hax).symm hnull
      | cons k r =>
        rw [at?_cons_of_none rfl] at hax
        cases hax
    | replace _ hcopy => exact (at?_copy hcontent hparts rest (hb ▸ hcopy)).2 x hax

/-- **The order of the keys after a merge**, at every path where both sides hold a node. -/
theorem Merged.keys_at? (id : NodeId) (frozen : Bool) (p : List String)
    {old new as bs xs : Entries Tree} {incoming a b : Tree} (hxs : incoming.branches? = some xs)
    (hd : incoming.Distinct) (h : Merged Copy old (xs.mapValues Tree.content) new)
    (ha : (node id frozen old).at? p = some a) (hb : incoming.at? p = some b)
    (has : a.branches? = some as) (hbs : b.branches? = some bs) :
    ∃ c cs, (node id frozen new).at? p = some c ∧ c.branches? = some cs ∧
      cs.keys = as.keys ++ bs.keys.filter (· ∉ as.keys) := by
  induction p generalizing id frozen old new incoming xs with
  | nil =>
    rw [← Option.some.inj ha] at has
    rw [← Option.some.inj hb, hxs] at hbs
    obtain rfl : old = as := Option.some.inj has
    obtain rfl := Option.some.inj hbs
    have hkeys := h.keys (by rw [Entries.keys_mapValues]; exact (hd.branches hxs).1)
    rw [Entries.keys_mapValues] at hkeys
    exact ⟨_, new, rfl, rfl, hkeys⟩
  | cons key rest ih =>
    rw [at?_cons rfl] at ha
    rw [at?_cons hxs] at hb
    obtain ⟨o, ho, hoa⟩ := Option.bind_eq_some_iff.mp ha
    obtain ⟨x, hx, hxb⟩ := Option.bind_eq_some_iff.mp hb
    obtain ⟨hkeys, hdistinct⟩ := hd.branches hxs
    have hdx := hdistinct _ (Entries.mem_of_find? hx)
    -- a path that goes on to a node has a node at its first step
    have hbranches : ∀ {t u : Tree} {us : Entries Tree}, t.at? rest = some u →
        u.branches? = some us → ∃ ts, t.branches? = some ts := by
      intro t u us htu hus
      cases rest with
      | nil => exact ⟨us, Option.some.inj htu ▸ hus⟩
      | cons k r =>
        cases ht : t.branches? with
        | some ts => exact ⟨ts, rfl⟩
        | none =>
          rw [at?_cons_of_none ht] at htu
          cases htu
    obtain ⟨os, hos⟩ := hbranches hoa has
    obtain ⟨ys, hys⟩ := hbranches hxb hbs
    obtain ⟨t, ht, hat⟩ := (h.find? (by rwa [Entries.keys_mapValues]) key).2 x.content (by
      rw [Entries.find?_mapValues, hx, Option.map_some])
    rw [ho, content_of_branches hys] at hat
    -- both sides hold a node here, so that the merge has gone down
    cases hat with
    | descend id' frozen' hsub =>
      obtain ⟨c, cs, hc, hcs⟩ := ih id' frozen' hys hdx hsub hoa hxb
      exact ⟨c, cs, by rw [at?_cons rfl, ht, Option.bind_some, hc], hcs⟩
    | replace hcond _ =>
      rcases hcond with hcond | hcond
      · rw [Option.bind_some, hos] at hcond
        cases hcond
      · exact absurd rfl (hcond.2 _)

end Tree

end LayeredConfig
