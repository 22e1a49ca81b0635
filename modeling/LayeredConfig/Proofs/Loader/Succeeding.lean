import LayeredConfig.Proofs.Loader.Loading
import LayeredConfig.Proofs.Rule.Harmless

/-!
# What a load that succeeds gives out

A load succeeds only if the sections could be merged and the rules found no violation. The node
that it gives out is frozen. A predicate that was derived still runs each time its key is read,
but a frozen node never changes its mode, so reading the node gives the derived contents forever.
-/

namespace LayeredConfig

open Memory (Beyond)

/-! ## Reading a frozen node -/

namespace Memory

/-- A value as it is read from a frozen node: its sequences are tuples, and it has the given
content, in which there are no computations. -/
structure Sealed (m : Memory) (v : Value) (b : Blueprint) : Prop where
  known : m.Known v
  uniform : v.Uniform .tuple
  content : (m.view v).content = b
  settled : b.Settled

namespace Sealed

variable {m : Memory} {v : Value} {c : NodeId} {fields : Entries Blueprint}

theorem eq_scalar {s : Scalar} (h : Sealed m v (.scalar s)) (hm : m.forest.Sound) :
    v = .scalar s := hm.eq_scalar_of_view (Tree.eq_scalar_of_content h.content)

theorem exists_tuple {items : List Blueprint} (h : Sealed m v (.list items))
    (hm : m.forest.Sound) : ∃ values : List Value, v = .tuple values ∧
      values.length = items.length := by
  obtain ⟨-, huniform, hcontent, -⟩ := h
  cases huniform with
  | @seq values _ =>
    rw [view, Forest.view_seq, Tree.content_seq] at hcontent
    refine ⟨values, rfl, ?_⟩
    rw [← Blueprint.list.inj hcontent, List.length_map, List.length_map]
  | node id =>
    rw [view, hm.view_node, Tree.content_node] at hcontent
    cases hcontent
  | _ => cases hcontent

theorem exists_node (h : Sealed m v (.node fields)) : ∃ c, v = .node c := by
  obtain ⟨-, huniform, hcontent, -⟩ := h
  cases huniform with
  | node c => exact ⟨c, rfl⟩
  | seq _ =>
    rw [view, Forest.view_seq, Tree.content_seq] at hcontent
    cases hcontent
  | _ => cases hcontent

theorem truthy_eq {b : Blueprint} (h : Sealed m v b) (hm : m.forest.Sound) :
    m.forest.truthy v = b.tree.truthy := by
  rw [← truthy_view hm, ← h.content, Tree.truthy_content]

end Sealed

/-- Reading the key of the node gives the value, and changes no node. -/
def Reads (m : Memory) (n : NodeId) (key : String) (v : Value) (m' : Memory) : Prop :=
  Node.get n (.text key) m = .ok v m' ∧ Beyond m m'

/-- In this memory and beyond, reading a key of the node gives what the fields say. -/
def Shows (m : Memory) (n : NodeId) (fields : Entries Blueprint) : Prop :=
  ∀ m', Beyond m m' → ∀ key b, fields.find? key = some b →
    ∃ v m'', m'.Reads n key v m'' ∧ Sealed m'' v b

theorem Shows.beyond {m m' : Memory} {n : NodeId} {fields : Entries Blueprint}
    (h : m.Shows n fields) (hmm : Beyond m m') : m'.Shows n fields :=
  fun m'' hm'' ↦ h m'' (hmm.trans hm'')

/-- A scalar is read as it is. -/
theorem Shows.reads_scalar {m m' : Memory} {n : NodeId} {fields : Entries Blueprint}
    {key : String} {s : Scalar} (h : m.Shows n fields) (hmm : Beyond m m')
    (hkey : fields.find? key = some (.scalar s)) : ∃ m'', m'.Reads n key (.scalar s) m'' := by
  obtain ⟨v, m'', hreads, hsealed⟩ := h m' hmm key _ hkey
  obtain rfl := hsealed.eq_scalar hreads.2.sound
  exact ⟨m'', hreads⟩

end Memory

/-- **Reading a draft that was frozen** gives its contents, with the answers of its predicates in
their place. -/
theorem Predicated.shows_freeze {m₀ m : Memory} {n : NodeId} {mode : Blueprint}
    {answer : DeferredId → Scalar} {stored : Entries Blueprint}
    (h : Predicated m₀ m n mode answer stored) :
    Memory.Shows { m with forest := m.forest.freeze n } n
      (stored.mapValues (Blueprint.answered answer)) := by
  intro m' hmm key b hb
  have hfrozen : m'.forest.frozen n = true := by
    have hcell : m'.forest.cell n = (m.forest.freeze n).cell n :=
      hmm.grown.cell_eq (Forest.mem_freeze.mpr h.draft.mem)
    rw [Forest.frozen, hcell]
    exact h.draft.sound.frozen_freeze_of_reaches (.refl m.forest n)
  -- nothing changes a frozen node, so it still holds what the draft held
  have hmirrors := h.mirrors_freeze.later hmm
  have hfind := Memory.find?_of_content hmm.sound hmirrors.content key
  rw [Entries.find?_mapValues, ← hfind, Option.map_map] at hb
  obtain ⟨v, hv, rfl⟩ := Option.map_eq_some_iff.mp hb
  have huniform : v.Uniform .tuple := by
    have hentry := hmm.sound.uniform n (key, v) (Entries.mem_of_find? hv)
    rwa [hfrozen, if_pos rfl] at hentry
  rw [hv, Option.map_some] at hfind
  rw [Function.comp_apply]
  rcases hmirrors.entries _ (Entries.mem_of_find? hfind.symm) with hsettled | ⟨d, hd, ht⟩
  · have hsettled : (m'.view v).content.Settled := hsettled
    rw [hsettled.answered_eq]
    have hknown : m'.Known v := fun a ha ↦
      (hmm.sound.younger (Forest.mem_children_of_find? hv ha)).2
    refine ⟨v, m', ⟨?_, .refl hmm.sound⟩, hknown, huniform, rfl, hsettled⟩
    rw [Node.get, Node.getWith_of_some hv, Memory.resolve_of_settled hsettled]
    rfl
  · obtain rfl := Memory.eq_deferred_of_content hmm.sound hd
    refine ⟨.scalar (answer d), m'.countRun d, ⟨?_, ?_⟩, Memory.known_scalar _ _,
      .scalar _, rfl, .scalar _⟩
    · rw [Node.get, Node.getWith_of_some hv]
      exact hmirrors.hasMode.evaluate_eq ht
    · exact (Memory.reruns_countRun m' d).beyond hmm.sound

/-- Whatever is read from a draft that was frozen is in its contents. -/
theorem ReadsAs.find?_of_get {m₀ m m' : Memory} {n : NodeId} {mode : Blueprint}
    {fields : Entries Blueprint} (h : ReadsAs m₀ m n mode fields) {key : String} {v : Value}
    (hget : Node.get n (.text key) { m with forest := m.forest.freeze n } = .ok v m') :
    ∃ b, fields.find? key = some b ∧ m'.Sealed v b ∧ m'.forest.Sound := by
  obtain ⟨answer, stored, h, rfl⟩ := h
  have hm := h.draft.sound
  have hcontent : (Memory.view { m with forest := m.forest.freeze n } (.node n)).content
      = .node stored := (hm.content_freeze n n).trans h.draft.content_view
  have hfind := Memory.find?_of_content (hm.freeze n) hcontent key
  cases hv : (m.forest.freeze n).find? n key with
  | none =>
    have hnone : Node.get n (.text key) { m with forest := m.forest.freeze n } = _ :=
      Node.getWith_of_none (m := { m with forest := m.forest.freeze n }) hv
    rw [hnone] at hget
    cases hget
  | some x =>
    have hx : stored.find? key = some _ := hfind.symm.trans (congrArg (Option.map _) hv)
    have hb := (Entries.find?_mapValues (Blueprint.answered answer) key stored).trans
      (congrArg (Option.map _) hx)
    obtain ⟨v', m'', ⟨hget', hmm⟩, hsealed⟩ := h.shows_freeze _ (.refl (hm.freeze n)) key _ hb
    rw [hget] at hget'
    cases hget'
    exact ⟨_, hb, hsealed, hmm.sound⟩

namespace Loader

variable {l : Loader} {w w₁ w₂ : World} {n data : NodeId} {environment : Option String}

/-! ## Inverting a load -/

/-- What is given out has been frozen before, and nothing else has changed. -/
theorem memory_giveOut {environment : Value} {n' : NodeId}
    (h : l.giveOut environment n w = .ok n' w₂) :
    n' = n ∧ w₂.memory = { w.memory with forest := w.memory.forest.freeze n } := by
  let wf : World := { w with memory := { w.memory with forest := w.memory.forest.freeze n } }
  have hfreeze : onMemory (Node.freeze n) w = .ok () wf := rfl
  have hnamed : onMemory (truthyValue environment) wf
      = .ok (wf.memory.forest.truthy environment) wf := rfl
  rw [giveOut, bind_of_ok hfreeze, bind_of_ok hnamed] at h
  obtain ⟨p, w₃, hpath, hrest⟩ := bind_eq_ok.mp h
  have hmemory : w₃.memory = wf.memory := (scene_path.of_ok hpath).1
  cases hrest
  exact ⟨rfl, hmemory⟩

/-- Validation that succeeds has checked the rules without finding a violation. -/
theorem of_validate {environment : Value} (h : l.validate environment n w = .ok () w₂) :
    ∃ m, checkRules ⟨n, environment, []⟩ l.rules w.memory = .ok () m ∧
      w₂ = { w with memory := m } := by
  cases hcheck : onMemory (checkRules ⟨n, environment, []⟩ l.rules) w with
  | ok a w' =>
    have hvalid : l.validate environment n w = .ok a w' := tryCatch_of_ok hcheck
    rw [hvalid] at h
    cases h
    exact onMemory_eq_ok hcheck
  | error failure w' =>
    -- what is caught is noted in the log and thrown again
    have hcaught : l.validate environment n w = _ := tryCatch_of_error hcheck
    rw [hcaught] at h
    split at h
    · obtain ⟨_, w₃, _, h⟩ := bind_eq_ok.mp h
      obtain ⟨_, w₄, _, hthrow⟩ := bind_eq_ok.mp h
      cases hthrow
    · cases h

/-- In this world, but for some more nodes, the collaborator gives a version with this content. -/
def Gives (l : Loader) (w : World) (package : String) (version : Blueprint) : Prop :=
  ∃ m v w', Beyond w.memory m ∧
    l.version (.text package) { w with memory := m } = .ok v w' ∧
    (w'.memory.view v).content = version

/-- If versions are texts, then it tells the version. -/
theorem Telling.tells (hl : l.Telling) {package : String} {version : Blueprint}
    (h : l.Gives w package version) :
    ∃ s, version = .scalar (.text s) ∧ l.Tells w package s := by
  obtain ⟨m, v, w', hmm, hversion, rfl⟩ := h
  obtain ⟨⟨s, rfl⟩, -⟩ := hl _ _ v w' hmm.sound hversion
  exact ⟨s, rfl, m, w', hmm, hversion⟩

/-- Filling in the version succeeds only with what can be stored. -/
theorem of_deriveVersion (hl : l.Informs) {katello : Bool} {mode : Blueprint}
    {fields : Entries Blueprint} (h : ReadsAs w.memory w₁.memory n mode fields)
    (hrun : l.deriveVersion katello n w₁ = .ok () w₂) :
    ∃ v w', l.version (.text (packageName katello)) w₁ = .ok v w' ∧
      ReadsAs w.memory w₂.memory n mode
        (fields.put "katello_version" (w'.memory.view v).content) := by
  obtain ⟨v, w', hversion, hset⟩ := bind_eq_ok.mp hrun
  obtain ⟨hsettled, hbeyond⟩ := hl _ w₁ v w' h.beyond.sound hversion
  obtain ⟨m, hwritten, rfl⟩ := onMemory_eq_ok hset
  obtain ⟨m', hfilled, hreads⟩ := (h.later hbeyond).set_settled
    (by decide : "katello_version" ≠ "app_mode") (Node.wellKeyed_of_set hwritten) hsettled
  obtain ⟨-, rfl⟩ := EStateM.Result.ok.inj (hwritten.symm.trans hfilled)
  exact ⟨v, w', hversion, hreads⟩

/-- The stages of a load that succeeds, each of them successful. -/
theorem stages_of_load {environment : Value} (hdata : l.data w = .ok data w₁)
    (hload : l.load environment w = .ok n w₂) :
    ∃ c m w₃ w₄, mergeSections environment data w₁.memory = .ok c m ∧
      l.derive c { w₁ with memory := m } = .ok () w₃ ∧
      l.validate environment c w₃ = .ok () w₄ ∧ l.giveOut environment c w₄ = .ok n w₂ := by
  rw [load, bind_of_ok hdata] at hload
  obtain ⟨c, w', hmerge, hload⟩ := bind_eq_ok.mp hload
  obtain ⟨m, hmerged, rfl⟩ := onMemory_eq_ok (x := mergeSections environment data) hmerge
  obtain ⟨_, w₃, hderive, hload⟩ := bind_eq_ok.mp hload
  obtain ⟨_, w₄, hvalid, hgive⟩ := bind_eq_ok.mp hload
  exact ⟨c, m, w₃, w₄, hmerged, hderive, hvalid, hgive⟩

/-- **A load that succeeds** has merged the sections, and has found no violation if the rules are
over texts. What it gives out is a node that read as the merged contents with the derived values
filled in, and was then frozen. -/
theorem given_of_load (hl : l.Informs) (hdata : l.data w = .ok data w₁)
    (hm₁ : w₁.memory.Parsed data)
    (hload : l.load (environmentValue environment) w = .ok n w₂) :
    ∃ merged version fields m,
      (w₁.memory.view (.node data)).sections [] (sectionNames environment) = .ok merged ∧
      l.Gives w₁
        (packageName (Derived.inMode (Derived.found merged "app_mode") "katello")) version ∧
      fields = (Derived.values merged).put "katello_version" version ∧
      ((∀ rule ∈ l.rules, rule.OverTexts w₁.memory.Known) →
        firstViolation? (inspection w₁.memory environment fields) l.rules = none) ∧
      ReadsAs w₁.memory m n (Derived.found merged "app_mode") fields ∧
      w₂.memory = { m with forest := m.forest.freeze n } := by
  obtain ⟨c, m, w₃, w₄, hmerge, hderive, hvalid, hgive⟩ := stages_of_load hdata hload
  cases hsections : (w₁.memory.view (.node data)).sections [] (sectionNames environment) with
  | error e =>
    obtain ⟨m', herror, _⟩ := mergeSections_of_error environment hm₁ hsections
    rw [hmerge] at herror
    cases herror
  | ok merged =>
    obtain ⟨c', m', hmerged, hdraft⟩ := mergeSections_of_ok environment hm₁ hsections
    rw [hmerge] at hmerged
    cases hmerged
    obtain ⟨m₁, h₁, hversion⟩ := derive_eq (l := l) hdraft
      (Tree.settled_sections hm₁.settled (fun e he ↦ absurd he List.not_mem_nil) hsections)
    rw [hversion] at hderive
    obtain ⟨v, w', hgives, hreads⟩ := of_deriveVersion hl h₁ hderive
    obtain ⟨m₂, hcheck, rfl⟩ := of_validate hvalid
    have hdescribes := describes_inspection hm₁.sound hreads environment
    have hmm : Beyond w₃.memory m₂ := by
      have hharmless := harmless_checkRules ⟨c, environmentValue environment, []⟩ l.rules
        w₃.memory hdescribes.sound ⟨_, hdescribes.presents⟩
      rwa [after_of_ok hcheck] at hharmless
    obtain ⟨rfl, hmemory⟩ := memory_giveOut hgive
    refine ⟨merged, _, _, m₂, rfl, ⟨m₁, v, w', h₁.beyond, hgives, rfl⟩, rfl, fun hrules ↦ ?_,
      hreads.later hmm, hmemory⟩
    exact (hdescribes.finds_checkRules hrules).eq_none_of_ok hcheck

/-- If the version is a text, then what is given out is a frozen node, and it reads as before. -/
theorem of_load (hl : l.Telling) (hdata : l.data w = .ok data w₁) (hm₁ : w₁.memory.Parsed data)
    (hload : l.load (environmentValue environment) w = .ok n w₂) :
    ∃ merged version,
      (w₁.memory.view (.node data)).sections [] (sectionNames environment) = .ok merged ∧
      l.Tells w₁
        (packageName (Derived.inMode (Derived.found merged "app_mode") "katello")) version ∧
      ((∀ rule ∈ l.rules, rule.OverTexts w₁.memory.Known) →
        firstViolation? (inspection w₁.memory environment (Derived.all version merged)) l.rules
          = none) ∧
      Beyond w₁.memory w₂.memory ∧ w₂.memory.forest.frozen n = true ∧
      w₂.memory.Shows n (Derived.all version merged) := by
  obtain ⟨merged, b, fields, m, hsections, hgives, rfl, hviolation, hreads, hmemory⟩ :=
    given_of_load hl.informs hdata hm₁ hload
  obtain ⟨version, rfl, htells⟩ := hl.tells hgives
  obtain ⟨hbeyond, hfrozen, _⟩ := hreads.freeze
  obtain ⟨answer, stored, hpredicated, hfields⟩ := hreads
  have hshows := hpredicated.shows_freeze
  rw [hfields] at hshows
  rw [hmemory]
  exact ⟨merged, version, hsections, htells, hviolation, hbeyond, hfrozen, hshows⟩

end Loader

end LayeredConfig
