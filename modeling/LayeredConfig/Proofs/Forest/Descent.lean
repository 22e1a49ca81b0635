import LayeredConfig.Proofs.Forest.Merging

/-!
# How a merge goes down

A merge calls itself for every key under which both sides hold a node. `Forest.MergeRun` describes
such a run without a bound on the levels, rule by rule, together with the list of all its calls, and
`Forest.Sound.exists_mergeRun` says that the bounded recursion always is such a run: the bound is
never what ends it.

## The measure

When the two sides share nodes, what comes in grows while the merge goes through it, so that neither
its size nor its height bounds anything. What bounds the run is the receiver's side. Before the
merge comes to a key, it has only written under other keys, so that the tree under this key is still
the one from the start. Every call thus goes along a path of the tree that the outermost receiver
had when the merge began, and no two calls go along the same one (`Forest.Descends`).
-/

namespace LayeredConfig

/-! ## Levels of a tree -/

namespace Tree

mutual

/-- The number of nodes on the longest way down through keys. -/
def levels : Tree → ℕ
  | .mapping entries => entryLevels entries + 1
  | .node _ _ fields => fieldLevels fields + 1
  | _ => 0
termination_by structural x => x

private def entryLevels : List (Tree × Tree) → ℕ
  | [] => 0
  | (_, t) :: rest => max (levels t) (entryLevels rest)
termination_by structural x => x

private def fieldLevels : List (String × Tree) → ℕ
  | [] => 0
  | (_, t) :: rest => max (levels t) (fieldLevels rest)
termination_by structural x => x

end

private theorem levels_le_entryLevels {entries : List (Tree × Tree)} {e : Tree × Tree}
    (he : e ∈ entries) : e.2.levels ≤ entryLevels entries := by
  induction entries with
  | nil => simp at he
  | cons a rest ih =>
    rcases List.mem_cons.mp he with rfl | he
    · exact Nat.le_max_left _ _
    · exact Nat.le_trans (ih he) (Nat.le_max_right _ _)

private theorem levels_le_fieldLevels {fields : Entries Tree} {e : String × Tree}
    (he : e ∈ fields) : e.2.levels ≤ fieldLevels fields := by
  induction fields with
  | nil => simp at he
  | cons a rest ih =>
    rcases List.mem_cons.mp he with rfl | he
    · exact Nat.le_max_left _ _
    · exact Nat.le_trans (ih he) (Nat.le_max_right _ _)

private theorem fieldLevels_le {fields : Entries Tree} {k : ℕ} (h : ∀ e ∈ fields, e.2.levels ≤ k) :
    fieldLevels fields ≤ k := by
  induction fields with
  | nil => exact Nat.zero_le k
  | cons a rest ih =>
    exact Nat.max_le.mpr ⟨h a List.mem_cons_self, ih fun e he ↦ h e (List.mem_cons_of_mem _ he)⟩

theorem levels_node_le {id : NodeId} {frozen : Bool} {fields : Entries Tree} {k : ℕ}
    (h : ∀ e ∈ fields, e.2.levels ≤ k) : (node id frozen fields).levels ≤ k + 1 :=
  Nat.succ_le_succ (fieldLevels_le h)

variable {t u : Tree} {branches : Entries Tree}

/-- One key further down there is one level less. -/
theorem levels_lt_of_branches (ht : t.branches? = some branches) {e : String × Tree}
    (he : e ∈ branches) : e.2.levels < t.levels := by
  cases t with
  | node id frozen fields =>
    obtain rfl := Option.some.inj ht
    exact Nat.lt_succ_of_le (levels_le_fieldLevels he)
  | mapping entries =>
    rw [← Option.some.inj ht] at he
    obtain ⟨a, ha, rfl⟩ := List.mem_map.mp (Entries.mem_of_mem_ofPairs he)
    exact Nat.lt_succ_of_le (levels_le_entryLevels ha)
  | _ => cases ht

/-- A path to a node is shorter than the tree has levels. -/
theorem length_lt_levels_of_at? {p : List String} (h : t.at? p = some u)
    (hu : u.branches? = some branches) : p.length < t.levels := by
  induction p generalizing t with
  | nil =>
    rw [Option.some.inj h]
    cases u with
    | node id frozen fields => exact Nat.succ_pos _
    | mapping entries => exact Nat.succ_pos _
    | _ => cases hu
  | cons key rest ih =>
    cases ht : t.branches? with
    | none =>
      rw [at?_cons_of_none ht] at h
      cases h
    | some fields =>
      rw [at?_cons ht] at h
      obtain ⟨x, hx, hrest⟩ := Option.bind_eq_some_iff.mp h
      have hlt : x.levels < t.levels := levels_lt_of_branches ht (Entries.mem_of_find? hx)
      exact Nat.lt_of_le_of_lt (ih hrest) hlt

end Tree

/-! ## Runs -/

/-- A call that a merge makes of itself: the keys that lead to it from the outermost one, the node
that is merged into, and the node that comes in. -/
structure MergeCall where
  path : List String
  receiver : NodeId
  incoming : NodeId

/-- The call as it is seen from one key further up. -/
def MergeCall.below (key : String) (c : MergeCall) : MergeCall := { c with path := key :: c.path }

/-- What a merge has to do: to merge one node into another, or what is left of the entries of the
one. -/
inductive MergeTask where
  | call (n other : NodeId)
  | entries (n : NodeId) (incoming : Entries Value)

namespace Forest

/-- **A run of a merge**: the calls that it makes, in their order, and how it ends. There is no
bound on the levels, so that only what is a finite run is one. -/
inductive MergeRun : MergeTask → Forest → List MergeCall →
    EStateM.Result ConfigurationError Forest Unit → Prop
  | frozen {f : Forest} {n other : NodeId} (hn : f.frozen n = true) :
      MergeRun (.call n other) f [] (.error (.readOnlyNode (.scalar .null)) f)
  | enter {f : Forest} {n other : NodeId} {calls : List MergeCall}
      {r : EStateM.Result ConfigurationError Forest Unit} (hn : f.frozen n = false)
      (hrun : MergeRun (.entries n (f.entries other)) f calls r) :
      MergeRun (.call n other) f calls r
  | done (f : Forest) (n : NodeId) : MergeRun (.entries n []) f [] (.ok () f)
  | descend {f g : Forest} {n a b : NodeId} {key : String} {rest : Entries Value}
      {calls later : List MergeCall} {r : EStateM.Result ConfigurationError Forest Unit}
      (ha : f.find? n key = some (.node a)) (hsub : MergeRun (.call a b) f calls (.ok () g))
      (hrest : MergeRun (.entries n rest) g later r) :
      MergeRun (.entries n ((key, .node b) :: rest)) f
        (⟨[key], a, b⟩ :: calls.map (MergeCall.below key) ++ later) r
  | halt {f g : Forest} {n a b : NodeId} {key : String} {rest : Entries Value}
      {calls : List MergeCall} {e : ConfigurationError} (ha : f.find? n key = some (.node a))
      (hsub : MergeRun (.call a b) f calls (.error e g)) :
      MergeRun (.entries n ((key, .node b) :: rest)) f
        (⟨[key], a, b⟩ :: calls.map (MergeCall.below key)) (.error e g)
  | keep {f : Forest} {n a : NodeId} {key : String} {rest : Entries Value}
      {calls : List MergeCall} {r : EStateM.Result ConfigurationError Forest Unit}
      (ha : f.find? n key = some (.node a)) (hrest : MergeRun (.entries n rest) f calls r) :
      MergeRun (.entries n ((key, .null) :: rest)) f calls r
  | replace {f g : Forest} {n : NodeId} {key : String} {v : Value} {rest : Entries Value}
      {calls : List MergeCall} {r : EStateM.Result ConfigurationError Forest Unit}
      (h : ∀ a, f.find? n key = some (.node a) → v ≠ .null ∧ ∀ b, v ≠ .node b)
      (hwrite : write n key v f = .ok () g) (hrest : MergeRun (.entries n rest) g calls r) :
      MergeRun (.entries n ((key, v) :: rest)) f calls r
  | fail {f g : Forest} {n : NodeId} {key : String} {v : Value} {rest : Entries Value}
      {e : ConfigurationError}
      (h : ∀ a, f.find? n key = some (.node a) → v ≠ .null ∧ ∀ b, v ≠ .node b)
      (hwrite : write n key v f = .error e g) :
      MergeRun (.entries n ((key, v) :: rest)) f [] (.error e g)

variable {f : Forest} {task : MergeTask} {calls calls' : List MergeCall}
  {r r' : EStateM.Result ConfigurationError Forest Unit}

/-- **There is only one run** of a merge. -/
theorem MergeRun.unique (h : MergeRun task f calls r) (h' : MergeRun task f calls' r') :
    calls' = calls ∧ r' = r := by
  induction h generalizing calls' r' with
  | frozen hn =>
    cases h' with
    | frozen => exact ⟨rfl, rfl⟩
    | enter hn' => simp [hn] at hn'
  | enter hn _ ih =>
    cases h' with
    | frozen hn' => simp [hn] at hn'
    | enter _ hrun => exact ih hrun
  | done =>
    cases h'
    exact ⟨rfl, rfl⟩
  | descend ha _ _ ihsub ihrest =>
    cases h' with
    | descend ha' hsub hrest =>
      obtain rfl := Value.node.inj (Option.some.inj (ha'.symm.trans ha))
      obtain ⟨rfl, hok⟩ := ihsub hsub
      obtain rfl := (EStateM.Result.ok.inj hok).2
      obtain ⟨rfl, rfl⟩ := ihrest hrest
      exact ⟨rfl, rfl⟩
    | halt ha' hsub =>
      obtain rfl := Value.node.inj (Option.some.inj (ha'.symm.trans ha))
      cases (ihsub hsub).2
    | replace h => exact absurd rfl ((h _ ha).2 _)
    | fail h => exact absurd rfl ((h _ ha).2 _)
  | halt ha _ ihsub =>
    cases h' with
    | descend ha' hsub =>
      obtain rfl := Value.node.inj (Option.some.inj (ha'.symm.trans ha))
      cases (ihsub hsub).2
    | halt ha' hsub =>
      obtain rfl := Value.node.inj (Option.some.inj (ha'.symm.trans ha))
      obtain ⟨rfl, heq⟩ := ihsub hsub
      exact ⟨rfl, heq⟩
    | replace h => exact absurd rfl ((h _ ha).2 _)
    | fail h => exact absurd rfl ((h _ ha).2 _)
  | keep ha _ ih =>
    cases h' with
    | keep _ hrest => exact ih hrest
    | replace h => exact absurd rfl (h _ ha).1
    | fail h => exact absurd rfl (h _ ha).1
  | replace h hwrite _ ih =>
    cases h' with
    | descend ha => exact absurd rfl ((h _ ha).2 _)
    | halt ha => exact absurd rfl ((h _ ha).2 _)
    | keep ha => exact absurd rfl (h _ ha).1
    | replace _ hwrite' hrest =>
      obtain rfl := (EStateM.Result.ok.inj (hwrite'.symm.trans hwrite)).2
      exact ih hrest
    | fail _ hwrite' => cases hwrite'.symm.trans hwrite
  | fail h hwrite =>
    cases h' with
    | descend ha => exact absurd rfl ((h _ ha).2 _)
    | halt ha => exact absurd rfl ((h _ ha).2 _)
    | keep ha => exact absurd rfl (h _ ha).1
    | replace _ hwrite' => cases hwrite'.symm.trans hwrite
    | fail _ hwrite' => exact ⟨rfl, hwrite'.symm.trans hwrite⟩

/-! ## Where the calls go -/

/-- The calls go along different paths through the given fields, each of which begins with one of
the given keys and leads to the receiver of the call. -/
structure Descends (fields : Entries Tree) (keys : List String) (calls : List MergeCall) :
    Prop where
  path : ∀ c ∈ calls, ∃ key ∈ keys, ∃ rest, c.path = key :: rest ∧ ∃ frozen sub,
    (fields.find? key).bind (Tree.at? rest) = some (.node c.receiver frozen sub)
  once : (calls.map MergeCall.path).Nodup

namespace Descends

variable {fields sub : Entries Tree} {keys subkeys : List String} {later : List MergeCall}
  {key : String} {a : NodeId} {frozen : Bool} {t : Tree}

theorem nil (fields : Entries Tree) (keys : List String) : Descends fields keys [] :=
  ⟨fun _ hc ↦ absurd hc List.not_mem_nil, List.nodup_nil⟩

/-- Calls that do not go through a key do not see what is written under it. -/
theorem of_put (h : Descends (fields.put key t) keys calls) (hkey : key ∉ keys) :
    Descends fields (key :: keys) calls := by
  refine ⟨fun c hc ↦ ?_, h.once⟩
  obtain ⟨k, hk, rest, hpath, hat⟩ := h.path c hc
  have hne : k ≠ key := fun heq ↦ hkey (heq ▸ hk)
  rw [Entries.find?_put_of_ne hne] at hat
  exact ⟨k, List.mem_cons_of_mem key hk, rest, hpath, hat⟩

/-- A call for the node under a key, those that it makes, and those that follow for other keys. -/
theorem down (hfind : fields.find? key = some (.node a frozen sub))
    (hsub : Descends sub subkeys calls) (hlater : Descends (fields.put key t) keys later)
    (hkey : key ∉ keys) (b : NodeId) :
    Descends fields (key :: keys)
      (⟨[key], a, b⟩ :: calls.map (MergeCall.below key) ++ later) := by
  have hpaths : (calls.map (MergeCall.below key)).map MergeCall.path
      = (calls.map MergeCall.path).map (key :: ·) := by
    rw [List.map_map, List.map_map]
    rfl
  -- a later call begins with another key
  have hother : ∀ p, key :: p ∉ later.map MergeCall.path := by
    intro p hp
    obtain ⟨c, hc, hcp⟩ := List.mem_map.mp hp
    obtain ⟨k, hk, rest, hpath, _⟩ := hlater.path c hc
    obtain ⟨rfl, _⟩ := List.cons.inj (hcp.symm.trans hpath)
    exact hkey hk
  constructor
  · intro c hc
    rcases List.mem_append.mp hc with hc | hc
    · rcases List.mem_cons.mp hc with rfl | hc
      · exact ⟨key, List.mem_cons_self, [], rfl, frozen, sub, by rw [hfind]; rfl⟩
      · obtain ⟨d, hd, rfl⟩ := List.mem_map.mp hc
        obtain ⟨k, _, rest, hpath, frozen', sub', hat⟩ := hsub.path d hd
        refine ⟨key, List.mem_cons_self, k :: rest, congrArg (key :: ·) hpath, frozen', sub', ?_⟩
        rw [hfind, Option.bind_some, Tree.at?_cons rfl]
        exact hat
    · exact (hlater.of_put hkey).path c hc
  · rw [List.map_append, List.map_cons, hpaths, List.cons_append, List.nodup_cons,
      List.nodup_append]
    refine ⟨?_, hsub.once.map fun _ _ h ↦ (List.cons.inj h).2, hlater.once, ?_⟩
    · intro h
      rcases List.mem_append.mp h with h | h
      · obtain ⟨p, hp, hnil⟩ := List.mem_map.mp h
        obtain ⟨d, hd, rfl⟩ := List.mem_map.mp hp
        obtain ⟨k, _, rest, hpath, _⟩ := hsub.path d hd
        simp [hpath] at hnil
      · exact hother [] h
    · rintro p hp q hq rfl
      obtain ⟨rest, _, rfl⟩ := List.mem_map.mp hp
      exact hother rest hq

end Descends

/-! ## The bounded recursion -/

/-- The bounded recursion is a run, for receivers whose trees have no more than the given levels. -/
def RunsWithin (levels : ℕ) : Prop :=
  ∀ {f : Forest} {n : NodeId} (other : NodeId), f.Sound → (f.view (.node n)).levels ≤ levels →
    ∃ calls, MergeRun (.call n other) f calls (mergeLevels levels n other f) ∧
      Descends (f.fields n) (f.entries other).keys calls

/-- **One entry.** Once it is done, the others go on as they would have before. -/
theorem Sound.exists_entryRun {f : Forest} {n : NodeId} {key : String} {v : Value}
    {rest : Entries Value} {levels : ℕ} {kind : SeqKind} (hf : f.Sound)
    (hcall : RunsWithin levels) (hn : f.frozen n = false) (hv : v.Uniform kind)
    (hlevel : ∀ t, (f.fields n).find? key = some t → t.levels ≤ levels) (hkey : key ∉ rest.keys)
    (hrest : ∀ {g : Forest} {t : Tree}, Edited n f g → g.fields n = (f.fields n).put key t →
      ∃ calls, MergeRun (.entries n rest) g calls (mergeEntries (mergeLevels levels) n rest g) ∧
        Descends ((f.fields n).put key t) rest.keys calls) :
    ∃ calls, MergeRun (.entries n ((key, v) :: rest)) f calls
        (mergeEntries (mergeLevels levels) n ((key, v) :: rest) f) ∧
      Descends (f.fields n) (key :: rest.keys) calls := by
  rw [mergeEntries]
  rcases entry_cases f n key v with ⟨a, b, ha, rfl⟩ | ⟨a, ha, rfl⟩ | hreplace
  · have hfind := hf.find?_fields_of_node ha
    have hle : (f.view (.node a)).levels ≤ levels := by
      rw [hf.view_eq_fields]
      exact hlevel _ hfind
    obtain ⟨calls, hrun, hdown⟩ := hcall b hf hle
    have hedited : Edited a f (after (mergeLevels levels a b) f) := hf.edited_mergeLevels levels
    cases hr : mergeLevels levels a b f with
    | ok u g =>
      rw [after_of_ok hr] at hedited
      rw [hr] at hrun
      obtain ⟨later, hlater, hlast⟩ :=
        hrest (hedited.mono (reaches_of_find? ha)) (hf.fields_of_edited_child ha hedited)
      rw [bind_of_ok ((mergeEntry_descend ha).trans hr)]
      exact ⟨_, .descend ha hrun hlater, hdown.down hfind hlast hkey b⟩
    | error e g =>
      rw [hr] at hrun
      rw [bind_of_error ((mergeEntry_descend ha).trans hr)]
      have hlast := hdown.down (t := default) hfind (.nil _ _) hkey b
      rw [List.append_nil] at hlast
      exact ⟨_, .halt ha hrun, hlast⟩
  · have hfind := find?_fields_of_find? ha
    obtain ⟨calls, hrun, hlast⟩ := hrest (.refl hf n) (Entries.put_of_find? hfind).symm
    rw [bind_of_ok (mergeEntry_keep ha)]
    exact ⟨calls, .keep ha hrun, hlast.of_put hkey⟩
  · obtain ⟨g, t, hwrite, hfields, _⟩ := hf.write_fields hn (hf.wellKeyed_view hv) key
    have hedited := hf.edited_write hn key v
    rw [after_of_ok hwrite] at hedited
    obtain ⟨calls, hrun, hlast⟩ := hrest hedited hfields
    rw [bind_of_ok ((mergeEntry_replace hreplace).trans hwrite)]
    exact ⟨calls, .replace hreplace hwrite hrun, hlast.of_put hkey⟩

/-- **The entries of one call.** The trees under the keys that are still to come are those from the
start, so that their levels are still covered. -/
theorem Sound.exists_entriesRun {n : NodeId} {levels : ℕ} {kind : SeqKind}
    (hcall : RunsWithin levels) (incoming : Entries Value) {f : Forest} (hf : f.Sound)
    (hn : f.frozen n = false) (hkeys : incoming.keys.Nodup)
    (huniform : ∀ e ∈ incoming, e.2.Uniform kind)
    (hlevels : ∀ key ∈ incoming.keys, ∀ t, (f.fields n).find? key = some t → t.levels ≤ levels) :
    ∃ calls, MergeRun (.entries n incoming) f calls
        (mergeEntries (mergeLevels levels) n incoming f) ∧
      Descends (f.fields n) incoming.keys calls := by
  induction incoming generalizing f with
  | nil => exact ⟨[], .done f n, .nil _ _⟩
  | cons e rest ih =>
    obtain ⟨key, v⟩ := e
    obtain ⟨hkey, hrest⟩ : key ∉ Entries.keys rest ∧ (Entries.keys rest).Nodup :=
      List.nodup_cons.mp hkeys
    refine hf.exists_entryRun hcall hn (huniform (key, v) List.mem_cons_self)
      (hlevels key List.mem_cons_self) hkey fun {g t} hfg hfields ↦ ?_
    have hopen : g.frozen n = false := by rw [hfg.frozen_eq (mem_of_frozen_eq_false hn), hn]
    rw [← hfields]
    refine ih hfg.sound hopen hrest (fun e he ↦ huniform e (List.mem_cons_of_mem _ he)) ?_
    intro k hk t' ht
    have hne : k ≠ key := fun heq ↦ hkey (heq ▸ hk)
    rw [hfields, Entries.find?_put_of_ne hne] at ht
    exact hlevels k (List.mem_cons_of_mem _ hk) t' ht

/-- **Every merge is a run**, as long as the levels cover the receiver's tree. -/
theorem runsWithin (levels : ℕ) : RunsWithin levels := by
  induction levels with
  | zero =>
    intro f n other hf hle
    rw [hf.view_eq_fields] at hle
    exact absurd hle (Nat.not_succ_le_zero _)
  | succ levels ih =>
    intro f n other hf hle
    cases hn : f.frozen n with
    | true =>
      rw [mergeLevels_of_frozen hn]
      exact ⟨[], .frozen hn, .nil _ _⟩
    | false =>
      rw [mergeLevels_of_writable hn]
      rw [hf.view_eq_fields] at hle
      have hlevels : ∀ key ∈ (f.entries other).keys, ∀ t, (f.fields n).find? key = some t →
          t.levels ≤ levels := by
        intro key _ t ht
        have hlt := Tree.levels_lt_of_branches (t := .node n (f.frozen n) (f.fields n)) rfl
          (Entries.mem_of_find? ht)
        exact Nat.le_of_lt_succ (Nat.lt_of_lt_of_le hlt hle)
      obtain ⟨calls, hrun, hdown⟩ := hf.exists_entriesRun ih (f.entries other) hn
        (hf.distinct other) (hf.uniform other) hlevels
      exact ⟨calls, .enter hn hrun, hdown⟩

/-- A node's tree has no more levels than there are nodes from it on. -/
theorem Sound.levels_view_le (hf : f.Sound) {n : NodeId} (hn : n ∈ f) :
    (f.view (.node n)).levels + n.index ≤ f.cells.size := by
  induction n using hf.node_induction with
  | h n ih =>
    rw [mem_iff] at hn
    have hentries : ∀ e ∈ f.fields n, e.2.levels ≤ f.cells.size - n.index - 1 := by
      intro e he
      obtain ⟨⟨key, v⟩, hv, rfl⟩ := List.mem_map.mp he
      cases huniform : hf.uniform n _ hv with
      | node c =>
        have hchild : c ∈ f.children n := List.mem_flatMap.mpr ⟨_, hv, List.mem_cons_self⟩
        obtain ⟨hyounger, hmem⟩ := hf.younger hchild
        have := ih c hchild hmem
        simp only
        omega
      | _ => exact Nat.zero_le _
    have hnode : (Tree.node n (f.frozen n) (f.fields n)).levels ≤ f.cells.size - n.index - 1 + 1 :=
      Tree.levels_node_le hentries
    rw [hf.view_eq_fields]
    omega

/-- **A merge of nodes is a run**, whichever the nodes are and whatever they share. -/
theorem Sound.exists_mergeRun (hf : f.Sound) (n other : NodeId) :
    ∃ calls, MergeRun (.call n other) f calls (mergeValue n (.node other) f) ∧
      Descends (f.fields n) (f.entries other).keys calls := by
  cases hn : f.frozen n with
  | true =>
    rw [mergeValue_of_frozen hn]
    exact ⟨[], .frozen hn, .nil _ _⟩
  | false =>
    rw [mergeValue_node hn, merge_eq]
    have hle := hf.levels_view_le (mem_of_frozen_eq_false hn)
    exact runsWithin f.cells.size other hf (by omega)

end Forest

end LayeredConfig
