import LayeredConfig.Loader.Views
import LayeredConfig.Proofs.Node.Drafting

/-!
# Merging the sections of a file

The sections that an environment consists of, and their merge, as functions of the tree of the
file. The merge that a loader runs makes a draft with that content, and refuses a section for the
same reason and at the same point; the tree of the file stays what it is.
-/

namespace LayeredConfig

open Memory (Beyond)

/-- The content of a section; a blank one has none. -/
def Tree.section? (data : Tree) (key : String) : Except ConfigurationError (Entries Blueprint) :=
  match data.at? [key] with
  | none => .error (.notFound (.scalar (.text key)))
  | some (.scalar .null) => .ok []
  | some t =>
    match t.branches? with
    | some fields => .ok (fields.mapValues Tree.content)
    | none => .error (.invalidStructure (.notMapping t))

/-- The environment as a value. -/
def environmentValue : Option String → Value
  | none => .null
  | some name => .text name

/-- The sections that an environment consists of. An empty name is no environment. -/
def sectionNames (environment : Option String) : List String :=
  commonSection :: (environment.filter (!·.isEmpty)).toList

/-- The given sections merged over the fields in order, up to the first that is refused. -/
def Tree.sections (data : Tree) (fields : Entries Blueprint) :
    List String → Except ConfigurationError (Entries Blueprint)
  | [] => .ok fields
  | key :: rest =>
    match data.section? key with
    | .error e => .error e
    | .ok incoming => sections data (Blueprint.mergeFields fields incoming) rest

namespace Tree

variable {data : Tree} {incoming : Entries Blueprint} {key : String}

theorem settled_section (hdata : data.content.Settled) (h : data.section? key = .ok incoming) :
    ∀ e ∈ incoming, e.2.Settled := by
  unfold section? at h
  split at h
  · cases h
  · rw [← Except.ok.inj h]
    exact fun e he ↦ absurd he List.not_mem_nil
  · next t hat =>
    have ht := settled_at? hdata hat
    split at h
    · next branches hb =>
      rw [content_of_branches hb] at ht
      exact Except.ok.inj h ▸ ht.fields
    · cases h

/-- A section is a node, or it is blank. -/
theorem section_eq_ok_iff {fields : Entries Blueprint} (h : data.content = .node fields) :
    data.section? key = .ok incoming ↔
      fields.find? key = some (.node incoming) ∨
        fields.find? key = some (.scalar .null) ∧ incoming = [] := by
  obtain ⟨branches, hb, rfl⟩ := branches_of_content h
  rw [section?, at?_cons hb, Entries.find?_mapValues]
  cases branches.find? key with
  | none => simp
  | some t =>
    rw [Option.bind_some, at?_nil, Option.map_some]
    split
    · next heq => cases heq
    · next heq =>
      rw [Option.some.inj heq]
      simp [eq_comm]
    · next u hnull heq =>
      obtain rfl := Option.some.inj heq
      have hother : t.content ≠ .scalar .null := fun hc ↦
        hnull (eq_scalar_of_content hc)
      cases hbranches : t.branches? with
      | some sub =>
        rw [content_of_branches hbranches]
        simp
      | none =>
        have hnode : ∀ sub, t.content ≠ .node sub := by
          intro sub hc
          obtain ⟨_, hsub, -⟩ := branches_of_content hc
          rw [hbranches] at hsub
          cases hsub
        simp [hother, hnode]

theorem section_of_content {fields : Entries Blueprint} (h : data.content = .node fields)
    (hkey : fields.find? key = some (.node incoming)) : data.section? key = .ok incoming :=
  (section_eq_ok_iff h).mpr (.inl hkey)

/-- The sections of a file without computations hold none. -/
theorem settled_sections (hdata : data.content.Settled) {keys : List String}
    {fields : Entries Blueprint} (hfields : ∀ e ∈ fields, e.2.Settled)
    (h : data.sections fields keys = .ok incoming) : ∀ e ∈ incoming, e.2.Settled := by
  induction keys generalizing fields with
  | nil => exact Except.ok.inj h ▸ hfields
  | cons key rest ih =>
    rw [sections] at h
    split at h
    · cases h
    · next own hown => exact ih (.mergeFields hfields (settled_section hdata hown)) h

end Tree

/-! ## One section -/

/-- The node is there, and it holds no computation. -/
structure Memory.Parsed (m : Memory) (data : NodeId) : Prop where
  sound : m.forest.Sound
  mem : data ∈ m.forest
  settled : (m.view (.node data)).content.Settled

namespace Memory.Parsed

variable {m₀ m : Memory} {data : NodeId} {key : String} (hp : m₀.Parsed data)

include hp

theorem at?_cons (key : String) (rest : List String) :
    (m₀.view (.node data)).at? (key :: rest)
      = (m₀.forest.find? data key).bind fun v ↦ (m₀.view v).at? rest := by
  rw [Memory.view, hp.sound.view_eq_fields, Tree.at?_cons rfl, Forest.find?_fields]
  cases m₀.forest.find? data key <;> rfl

theorem at?_view : (m₀.view (.node data)).at? [key] = (m₀.forest.find? data key).map m₀.view := by
  rw [hp.at?_cons]
  cases m₀.forest.find? data key <;> rfl

theorem later (hmm : Beyond m₀ m) : m.Parsed data where
  sound := hmm.sound
  mem := hmm.grown.mem hp.mem
  settled := by
    rw [hmm.view_eq hp.sound (Memory.known_node hp.mem)]
    exact hp.settled

theorem find?_eq (hmm : Beyond m₀ m) : m.forest.find? data key = m₀.forest.find? data key := by
  rw [Forest.find?, Forest.entries, hmm.grown.cell_eq hp.mem, ← Forest.entries, ← Forest.find?]

/-- What stands under a key of the node holds no computation either. -/
theorem settled_of_find? {v : Value} (hv : m₀.forest.find? data key = some v) :
    (m₀.view v).content.Settled := by
  have hat : (m₀.view (.node data)).at? [key] = some (m₀.view v) := by
    rw [hp.at?_view, hv, Option.map_some]
  exact Tree.settled_at? hp.settled hat

/-- Reading a key runs no computation. -/
theorem get_eq (hmm : Beyond m₀ m) {v : Value} (hv : m₀.forest.find? data key = some v) :
    Node.get data (.text key) m = .ok v m := by
  rw [Node.get, Node.getWith_of_some ((hp.find?_eq hmm).trans hv),
    Memory.resolve_of_settled (hp.settled_of_find? hv)]
  rfl

theorem child {c : NodeId} (hc : m₀.forest.find? data key = some (.node c)) : m₀.Parsed c where
  sound := hp.sound
  mem := (hp.sound.younger (Forest.mem_children_of_find? hc List.mem_cons_self)).2
  settled := hp.settled_of_find? hc

/-- Asking whether something is set runs no computation. What is set at the end of a path is below
nothing but nodes that are set. -/
theorem present {path : List String} (hpath : path ≠ []) :
    Node.present data (path.map .text) m₀
      = .ok (((m₀.view (.node data)).at? path).any Tree.truthy) m₀ := by
  induction path generalizing data with
  | nil => exact absurd rfl hpath
  | cons key rest ih =>
    rw [List.map_cons, Node.present, Node.presentWith, hp.at?_cons,
      bind_of_ok (Node.hasKey_text data key m₀)]
    cases hv : m₀.forest.find? data key with
    | none => rfl
    | some v =>
      have hget : Node.getWith evaluate data (.text key) m₀ = .ok v m₀ :=
        hp.get_eq (.refl hp.sound) hv
      have htruthy : (m₀.view v).truthy = m₀.forest.truthy v := Memory.truthy_view hp.sound v
      rw [Option.isSome_some, Bool.not_true, if_neg Bool.false_ne_true, bind_of_ok hget, get_bind,
        ← htruthy, Option.bind_some]
      cases hset : (m₀.view v).truthy with
      | false =>
        cases rest with
        | nil =>
          rw [Tree.at?_nil, Option.any_some, hset]
          rfl
        | cons next rest =>
          rw [Tree.at?_cons_of_not_truthy hset]
          rfl
      | true =>
        cases rest with
        | nil =>
          rw [Tree.at?_nil, Option.any_some, hset]
          rfl
        | cons next rest =>
          by_cases hnode : ∃ c, v = .node c
          · obtain ⟨c, rfl⟩ := hnode
            exact ih (hp.child hv) (List.cons_ne_nil _ _)
          · -- a path goes on in a node only
            have huniform := hp.sound.uniform data (key, v) (Entries.mem_of_find? hv)
            have hother : ∀ c, v ≠ .node c := fun c hc ↦ hnode ⟨c, hc⟩
            have hbranches : (m₀.view v).branches? = none :=
              Forest.branches_view_of_uniform huniform hother
            rw [Tree.at?_cons_of_none hbranches]
            cases v with
            | node c => exact absurd rfl (hother c)
            | _ => rfl

end Memory.Parsed

namespace Draft

variable {m₀ m : Memory} {n data : NodeId} {fields incoming : Entries Blueprint}
  (h : Draft m₀ m n fields) (hp : m₀.Parsed data)

include h hp

/-- A section that is missing or has the wrong shape is refused. -/
theorem section_of_error {key : String} {e : ConfigurationError}
    (he : (m₀.view (.node data)).section? key = .error e) :
    (Node.get data (.text key) >>= Node.merge n) m = .error (.configuration e) m := by
  rw [Tree.section?, hp.at?_view] at he
  cases hv : m₀.forest.find? data key with
  | none =>
    rw [hv] at he
    rw [← Except.error.inj he]
    exact bind_of_error (Node.getWith_of_none ((hp.find?_eq h.beyond).trans hv))
  | some v =>
    have hview : m.view v = m₀.view v := h.beyond.view_eq hp.sound fun a ha ↦
      (hp.sound.younger (Forest.mem_children_of_find? hv ha)).2
    rw [bind_of_ok (hp.get_eq h.beyond hv)]
    rw [hv, Option.map_some] at he
    split at he
    · next heq => cases heq
    · cases he
    · next t hnull heq =>
      obtain rfl := Option.some.inj heq
      split at he
      · cases he
      · next hbranches =>
        rw [← Except.error.inj he, ← hview]
        rw [← hview] at hbranches
        refine h.merge_of_not_mapping (fun hv ↦ hnull ?_) hbranches
        rw [hv]
        rfl

/-- Otherwise its content is merged. -/
theorem section_of_ok {key : String}
    (hok : (m₀.view (.node data)).section? key = .ok incoming) :
    ∃ m', (Node.get data (.text key) >>= Node.merge n) m = .ok () m' ∧
      Draft m₀ m' n (Blueprint.mergeFields fields incoming) := by
  rw [Tree.section?, hp.at?_view] at hok
  cases hv : m₀.forest.find? data key with
  | none =>
    rw [hv] at hok
    cases hok
  | some v =>
    have hmem : ∀ a ∈ v.nodes, a ∈ m₀.forest := fun a ha ↦
      (hp.sound.younger (Forest.mem_children_of_find? hv ha)).2
    have huniform := hp.sound.uniform data (key, v) (Entries.mem_of_find? hv)
    rw [bind_of_ok (hp.get_eq h.beyond hv)]
    rw [hv, Option.map_some] at hok
    split at hok
    · next heq => cases heq
    · next heq =>
      have hnull : v = .null := hp.sound.eq_scalar_of_view (Option.some.inj heq)
      rw [hnull, ← Except.ok.inj hok]
      exact ⟨m, h.merge_null, h⟩
    · next t _ heq =>
      obtain rfl := Option.some.inj heq
      split at hok
      · next branches hbranches =>
        rw [← Except.ok.inj hok]
        exact h.merge hp.sound hmem (hp.sound.wellKeyed_view huniform) hbranches
      · cases hok

/-! ## All sections -/

theorem sections_of_error {keys : List String} {e : ConfigurationError}
    (he : (m₀.view (.node data)).sections fields keys = .error e) :
    ∃ m', (keys.forM fun key ↦ Node.get data (.text key) >>= Node.merge n) m
      = .error (.configuration e) m' ∧ Beyond m₀ m' := by
  -- the sections in front of the one that is refused have been merged by then
  induction keys generalizing m fields with
  | nil => cases he
  | cons key rest ih =>
    rw [Tree.sections] at he
    split at he
    · next e' hsection =>
      rw [← Except.error.inj he]
      exact ⟨m, bind_of_error (h.section_of_error hp hsection), h.beyond⟩
    · next incoming hsection =>
      obtain ⟨m₁, hok, h₁⟩ := h.section_of_ok hp hsection
      obtain ⟨m₂, herror, h₂⟩ := ih h₁ he
      exact ⟨m₂, (bind_of_ok hok).trans herror, h₂⟩

theorem sections_of_ok {keys : List String}
    (hok : (m₀.view (.node data)).sections fields keys = .ok incoming) :
    ∃ m', (keys.forM fun key ↦ Node.get data (.text key) >>= Node.merge n) m = .ok () m' ∧
      Draft m₀ m' n incoming := by
  induction keys generalizing m fields with
  | nil => exact ⟨m, rfl, Except.ok.inj hok ▸ h⟩
  | cons key rest ih =>
    rw [Tree.sections] at hok
    split at hok
    · cases hok
    · next own hsection =>
      obtain ⟨m₁, hfirst, h₁⟩ := h.section_of_ok hp hsection
      obtain ⟨m₂, hrest, h₂⟩ := ih h₁ hok
      exact ⟨m₂, (bind_of_ok hfirst).trans hrest, h₂⟩

end Draft

namespace Loader

variable {m : Memory} {data : NodeId} (environment : Option String)

/-- The sections are merged into a new node one after the other. -/
private theorem mergeSections_eq :
    mergeSections (environmentValue environment) data = (do
      let n ← Node.create .null
      (sectionNames environment).forM fun key ↦ Node.get data (.text key) >>= Node.merge n
      return n) := by
  -- an environment counts as set exactly if its name is not empty
  have htruthy : truthyValue (environmentValue environment)
      = pure (environment.filter (!·.isEmpty)).isSome := by
    cases environment with
    | none => rfl
    | some name =>
      rw [Option.filter]
      cases h : name.isEmpty with
      | true => exact congrArg (fun b : Bool ↦ (pure !b : Eval Bool)) h
      | false => exact congrArg (fun b : Bool ↦ (pure !b : Eval Bool)) h
  rw [mergeSections, htruthy, sectionNames]
  cases hname : environment.filter (!·.isEmpty) with
  | none => simp [List.forM_cons]
  | some name =>
    have henvironment : environmentValue environment = .text name := by
      rw [(Option.filter_eq_some_iff.mp hname).1, environmentValue]
    simp [List.forM_cons, henvironment]

/-- **A section that is refused** fails the merge. -/
theorem mergeSections_of_error (hp : m.Parsed data) {e : ConfigurationError}
    (he : (m.view (.node data)).sections [] (sectionNames environment) = .error e) :
    ∃ m', mergeSections (environmentValue environment) data m = .error (.configuration e) m' ∧
      Beyond m m' := by
  obtain ⟨n, m₁, hcreate, h₁⟩ := draft_create hp.sound
  obtain ⟨m₂, herror, h₂⟩ := h₁.sections_of_error hp he
  refine ⟨m₂, ?_, h₂⟩
  rw [mergeSections_eq, bind_of_ok hcreate, bind_of_error herror]

/-- **Merging the sections** makes a draft of their merged contents. -/
theorem mergeSections_of_ok (hp : m.Parsed data) {fields : Entries Blueprint}
    (hok : (m.view (.node data)).sections [] (sectionNames environment) = .ok fields) :
    ∃ n m', mergeSections (environmentValue environment) data m = .ok n m' ∧
      Draft m m' n fields := by
  obtain ⟨n, m₁, hcreate, h₁⟩ := draft_create hp.sound
  obtain ⟨m₂, hsections, h₂⟩ := h₁.sections_of_ok hp hok
  refine ⟨n, m₂, ?_, h₂⟩
  rw [mergeSections_eq, bind_of_ok hcreate, bind_of_ok hsections]
  rfl

end Loader

end LayeredConfig
