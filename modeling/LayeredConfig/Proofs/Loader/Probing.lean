import LayeredConfig.Proofs.Loader.Databases
import LayeredConfig.Proofs.Node.Running
import LayeredConfig.Proofs.Rule.Interpreting

/-!
# Looking before reading

Whether a path is present is asked before it is read. `Node.Walks` is the reading: key after key,
each in the node that the last one led to, where everything that is read counts as set. Asking comes
to the same as reading in every memory and however computations run (`presentWith_iff_walks`). If
the computations that are met always answer the same, nothing is raised either, and what was found
out stays true while computations run and nodes are made (`Sees.present`). So a loader that has
asked may read, and it does not come to a missing key.
-/

namespace LayeredConfig

open Memory (Aside Gives Looks Parsed)

/-! ## Walking a path -/

/-- Reading the keys one after the other, each in the node that was read before it. Every value
counts as set when it has been read. -/
inductive Node.Walks (call : DeferredId → Eval Value) :
    NodeId → List String → Memory → Memory → Prop where
  | last {n : NodeId} {key : String} {v : Value} {m m' : Memory}
      (read : getWith call n (.text key) m = .ok v m') (set : m'.forest.truthy v = true) :
      Walks call n [key] m m'
  | next {n c : NodeId} {key : String} {rest : List String} {m m₁ m' : Memory}
      (read : getWith call n (.text key) m = .ok (.node c) m₁)
      (set : m₁.forest.truthy (.node c) = true) (walk : Walks call c rest m₁ m') :
      Walks call n (key :: rest) m m'

namespace Node

variable {call : DeferredId → Eval Value} {n : NodeId} {path rest : List String} {key : String}
  {m m₁ m' : Memory} {v : Value}

/-- **A path is present exactly if it can be walked**, whatever the computations on it do. -/
theorem presentWith_iff_walks :
    presentWith call n (path.map .text) m = .ok true m' ↔ Walks call n path m m' := by
  constructor
  · intro h
    induction path generalizing n m with
    | nil => cases h
    | cons key rest ih =>
      cases hv : m.forest.find? n key with
      | none =>
        rw [List.map_cons, presentWith_of_missing hv] at h
        cases h
      | some stored =>
        cases hread : getWith call n (.text key) m with
        | error f m₁ =>
          rw [List.map_cons, presentWith_of_error hv hread] at h
          cases h
        | ok v m₁ =>
          cases hset : m₁.forest.truthy v with
          | false =>
            rw [List.map_cons, presentWith_of_unset hread hset] at h
            cases h
          | true =>
            rw [List.map_cons, presentWith_of_read hread hset] at h
            cases rest with
            | nil =>
              cases h
              exact .last hread hset
            | cons next rest =>
              cases v with
              | node c => exact .next hread hset (ih h)
              | _ => cases h
  · intro h
    induction h with
    | last read set => exact presentWith_of_read read set []
    | @next n c key rest m m₁ m' read set walk ih =>
      have hrest : (rest.map Value.text).isEmpty = false := by cases walk <;> rfl
      rw [List.map_cons, presentWith_of_read read set, hrest, if_neg Bool.false_ne_true]
      exact ih

end Node

/-! ## Computations that always answer the same -/

/-- Whether a path through what is seen of a node leads to something that counts as set, through
nodes that do. -/
def Sight.leads (s : Sight) : List String → Bool
  | [] => true
  | key :: rest => (s.found key).truthy &&
      (rest.isEmpty || ((s.found key).isNode && (s.inside key).leads rest))

/-- **Asking for a path raises nothing**, and says whether the path leads through what is seen. -/
theorem Sees.present {m₀ m : Memory} {n : NodeId} {environment : Value} {s : Sight}
    (h : Sees m₀ m n environment s) {path : List String} (hpath : path ≠ []) :
    ∃ m', Node.present n (path.map .text) m = .ok (s.leads path) m' ∧ Aside m m' := by
  induction path generalizing m n s with
  | nil => exact absurd rfl hpath
  | cons key rest ih =>
    cases hkey : s.fields.find? key with
    | none =>
      have hmissing : m.forest.find? n key = none := by
        have hhas := h.hasKey key
        rw [Node.hasKey_text, hkey] at hhas
        exact Option.not_isSome_iff_eq_none.mp (Bool.eq_false_iff.mp (EStateM.Result.ok.inj hhas).1)
      have hfound : s.found key = .scalar .null := by
        rw [Sight.found, hkey]
        rfl
      refine ⟨m, ?_, .refl h.sound'⟩
      rw [Node.present, List.map_cons, Node.presentWith_of_missing hmissing, Sight.leads, hfound]
      rfl
    | some t =>
      obtain ⟨v, m₁, hvalue, haside, hlooks⟩ := h.valueOf key
      have hread : Node.get n (.text key) m = .ok v m₁ := by
        have hhas := h.hasKey key
        rw [hkey] at hhas
        rw [Node.valueOf, bind_of_ok hhas] at hvalue
        exact hvalue
      have hm₁ := haside.beyond.sound
      have htruthy := hlooks.truthy_eq hm₁
      rw [Sight.leads, ← htruthy]
      cases hset : m₁.forest.truthy v with
      | false => exact ⟨m₁, Node.presentWith_of_unset hread hset _, haside⟩
      | true =>
        rw [Node.present, List.map_cons, Node.presentWith_of_read hread hset, Bool.true_and]
        cases rest with
        | nil => exact ⟨m₁, rfl, haside⟩
        | cons next rest =>
          by_cases hnode : ∃ c, v = .node c
          · obtain ⟨c, rfl⟩ := hnode
            obtain ⟨m₂, hpresent, haside'⟩ :=
              ih ((h.later haside).inside hlooks) (List.cons_ne_nil _ _)
            rw [(hlooks.eq_node_iff hm₁).mpr ⟨c, rfl⟩]
            exact ⟨m₂, hpresent, haside.trans haside'⟩
          · have hother : (s.found key).isNode = false := by
              cases hfound : (s.found key).isNode with
              | false => rfl
              | true => exact absurd ((hlooks.eq_node_iff hm₁).mp hfound) hnode
            rw [hother]
            refine ⟨m₁, ?_, haside⟩
            cases v with
            | node c => exact absurd ⟨c, rfl⟩ hnode
            | _ => rfl

/-! ## Keys that a loader reads -/

/-- The error of a key that is missing. -/
def Failure.missing (key : Tree) : Failure := .configuration (.notFound key)

/-- Setting a value comes to no missing key. -/
theorem Node.set_ne_missing {n : NodeId} {name : String} {v : Value} {m m' : Memory} {key : Tree} :
    Node.set n (.text name) v m ≠ .error (.missing key) m' := by
  intro h
  obtain ⟨e, g, herror, he, _⟩ := onForest_eq_error (x := Forest.assign n name v) h
  obtain rfl := Failure.configuration.inj he
  cases hn : m.forest.frozen n with
  | true =>
    rw [Forest.assign_of_frozen hn] at herror
    cases herror
  | false =>
    rw [Forest.assign_of_writable hn, Forest.write] at herror
    rcases bind_eq_error.mp herror with hconvert | ⟨_, _, _, hstore⟩
    · rw [Forest.convert, get_bind] at hconvert
      cases hb : (m.forest.view v).blueprint with
      | error fault =>
        rw [hb] at hconvert
        cases hconvert
      | ok plan =>
        rw [hb] at hconvert
        cases hconvert
    · cases hstore

/-- Making a node comes to no missing key. -/
theorem Node.create_ne_missing {v : Value} {m m' : Memory} {key : Tree} (hm : m.forest.Sound) :
    Node.create v m ≠ .error (.missing key) m' := by
  intro h
  obtain ⟨e, g, herror, he, _⟩ := onForest_eq_error (x := Forest.create v) h
  obtain rfl := Failure.configuration.inj he
  cases hb : (m.forest.view v).nodeBlueprint with
  | error fault =>
    rw [Forest.create, get_bind, hb] at herror
    cases herror
  | ok plan =>
    obtain ⟨_, _, hok, _⟩ := Forest.create_of_nodeBlueprint hb hm
    cases hok.symm.trans herror

namespace Loader

variable {l : Loader} {w w₁ w' : World} {m m₀ m' : Memory} {n data : NodeId} {key : Tree}

/-- Somewhere the collaborator that reveals passwords fails with the missing key. -/
def PasswordMisses (l : Loader) (key : Tree) (w' : World) : Prop :=
  ∃ v w, l.password v w = .error (.missing key) w'

/-- Revealing the password of a section comes to no missing key of its own. -/
theorem missing_of_revealPassword {title : String} {content : Value}
    (hparsed : ∀ a, content = .node a → w.memory.Parsed a)
    (h : l.revealPassword title content w = .error (.missing key) w') :
    l.PasswordMisses key w' := by
  rw [revealPassword_eq hparsed] at h
  cases hs : w.memory.secret? title content with
  | none =>
    rw [hs] at h
    cases h
  | some s =>
    rw [hs, Option.elim_some, reveal] at h
    rcases bind_eq_error.mp h with h | ⟨p, w₁, _, h⟩
    · exact ⟨s.stored, w, h⟩
    rcases bind_eq_error.mp h with h | ⟨_, _, _, h⟩
    · obtain ⟨m, hset⟩ := onMemory_eq_error h
      exact absurd hset Node.set_ne_missing
    · cases h

/-- Revealing all passwords comes to no missing key of its own. -/
theorem missing_of_revealPasswords (hl : l.Reveals) {sections : Entries Value}
    (hn : Drafted m₀ w.memory n)
    (hsections : ∀ e ∈ sections, w.memory.forest.find? n e.1 = some e.2)
    (h : (sections.forM fun e ↦ l.revealPassword e.1 e.2 : Action Unit) w
      = .error (.missing key) w') : l.PasswordMisses key w' := by
  induction sections generalizing w with
  | nil => cases h
  | cons e rest ih =>
    obtain ⟨hfirst, hrest⟩ := List.forall_mem_cons.mp hsections
    have hboth : (do
        l.revealPassword e.1 e.2
        rest.forM fun e ↦ l.revealPassword e.1 e.2 : Action Unit) w = .error (.missing key) w' := h
    rcases bind_eq_error.mp hboth with h | ⟨_, w₂, hreveal, h⟩
    · exact missing_of_revealPassword (fun a ha ↦ hn.parsed.child (ha ▸ hfirst)) h
    · obtain ⟨hentries, h₂⟩ := drafted_revealPassword hl hn hfirst hreveal
      refine ih h₂ (fun e he ↦ ?_) h
      rw [Forest.find?, hentries, ← Forest.find?]
      exact hrest e he

/-- **Reading a file comes to no missing key** of its own. -/
theorem missing_of_readFrom (hl : l.Reveals) {path : String} (hw : w.memory.forest.Sound)
    (hfiles : ∀ v, w.files.find? path = some (.document v) → v.Plain)
    (h : l.readFrom path w = .error (.missing key) w') :
    l.readDocument path w = .error (.missing key) w' ∨ l.PasswordMisses key w' := by
  rw [readFrom] at h
  rcases bind_eq_error.mp h with h | ⟨v, w₂, hread, h⟩
  · exact .inl h
  have hplain := plain_readDocument hfiles hread
  have hsound := (((composite_discreet.readDocument path).keeps.of_ok hread).follows hw).sound
  rcases bind_eq_error.mp h with h | ⟨c, w₃, hcreate, h⟩
  · obtain ⟨m, hfails⟩ := onMemory_eq_error (x := Node.create v) h
    exact absurd hfails (Node.create_ne_missing hsound)
  have hdrafted : Drafted w₂.memory w₃.memory c := by
    obtain ⟨m, hrun, rfl⟩ := onMemory_eq_ok (x := Node.create v) hcreate
    exact drafted_create hsound hplain hrun
  rw [bind_of_ok (onMemory_of_ok hdrafted.parsed.items)] at h
  rcases bind_eq_error.mp h with h | ⟨_, _, _, h⟩
  · exact .inr (missing_of_revealPasswords hl hdrafted (fun e he ↦
      Entries.find?_of_mem (hdrafted.parsed.sound.distinct c) he) h)
  · cases h

/-- Reading the database settings of a section comes to no missing key. -/
theorem databaseBlock_ne_missing (hp : m.Parsed data) (title : String) :
    databaseBlock data (.text title) m ≠ .error (.missing key) m' := by
  intro h
  have hblock := hp.databaseBlock_eq title
  cases hfields : (m.view (.node data)).databaseFields? title with
  | some fields =>
    rw [hfields] at hblock
    cases hblock.symm.trans h
  | none =>
    rw [hfields] at hblock
    obtain ⟨t, _, hrefused⟩ := hblock
    cases hrefused.symm.trans h

theorem collectDatabases_ne_missing (hp : m.Parsed data) (common : Entries Blueprint)
    {environments : List Value} {all : DatabaseSettings} :
    collectDatabases data (Blueprint.plainEntries common) all environments m
      ≠ .error (.missing key) m' := by
  induction environments generalizing all with
  | nil => exact nofun
  | cons environment rest ih =>
    obtain ⟨r, hturn, hcollect⟩ := collectDatabases_cons hp environment
    rw [hcollect]
    cases hturn with
    | unset => exact ih
    | settings => exact ih
    | refused => exact nofun
    | unnamed => exact ih
    | unhashable => exact nofun

/-- **Reading the database settings comes to no missing key** of its own. -/
theorem missing_of_readDatabases (hl : l.Reveals) (hw : l.Readable w)
    (h : l.readDatabases w = .error (.missing key) w') : l.data w = .error (.missing key) w' := by
  rw [readDatabases] at h
  rcases bind_eq_error.mp h with h | ⟨data, w₁, hdata, h⟩
  · exact h
  have hp := parsed_of_data hl hw hdata
  rcases bind_eq_error.mp h with h | ⟨common, w₂, hcommon, h⟩
  · obtain ⟨m, hfails⟩ := onMemory_eq_error (x := databaseBlock data (.text commonSection)) h
    exact absurd hfails (databaseBlock_ne_missing hp commonSection)
  · obtain ⟨m, hread, rfl⟩ :=
      onMemory_eq_ok (x := databaseBlock data (.text commonSection)) hcommon
    obtain ⟨m', hfails⟩ := onMemory_eq_error h
    have hblock := hp.databaseBlock_eq commonSection
    cases hfields : (w₁.memory.view (.node data)).databaseFields? commonSection with
    | some fields =>
      rw [hfields] at hblock
      cases hblock.symm.trans hread
      exact absurd hfails (collectDatabases_ne_missing hp fields)
    | none =>
      rw [hfields] at hblock
      obtain ⟨t, _, hrefused⟩ := hblock
      cases hrefused.symm.trans hread

end Loader

/-! ## Looking before reading -/

/-- **Presence agrees with walking the path.**

In every memory, asking for a path says yes exactly if reading its keys one after the other succeeds
with values that count as set, each but the last a node. If the computations that are met always
answer the same, asking raises nothing, and its answer says whether the path can be walked, then and
while computations run and nodes are made. Hence a loader does not come to a missing key where it
asked before it reads: reading a file does so only if having its document does or revealing a
password, and reporting the database settings only if having the contents of the file does. -/
theorem present_agrees_with_walking :
    (∀ (call : DeferredId → Eval Value) (n : NodeId) (path : List String) (m m' : Memory),
      Node.presentWith call n (path.map .text) m = .ok true m' ↔ Node.Walks call n path m m') ∧
    (∀ (m : Memory) (n : NodeId) (answers : DeferredId → Tree), m.Reachable → n ∈ m.forest →
      (∀ d, (m.view (.node n)).Reads answers d → m.Gives d (answers d)) → ∀ path ≠ [],
      ∃ b, ∀ m₁, Aside m m₁ →
        (∃ m₂, Node.present n (path.map .text) m₁ = .ok b m₂ ∧ Aside m₁ m₂) ∧
        (b = true ↔ ∃ m₂, Node.Walks evaluate n path m₁ m₂)) ∧
    ∀ (l : Loader) (w : World), l.Reveals → l.Readable w → ∀ key w',
      (∀ path, l.readFrom path w = .error (.missing key) w' →
        l.readDocument path w = .error (.missing key) w' ∨ l.PasswordMisses key w') ∧
      (l.readDatabases w = .error (.missing key) w' → l.data w = .error (.missing key) w') := by
  refine ⟨fun call n path m m' ↦ Node.presentWith_iff_walks,
    fun m n answers hm hn hanswers path hpath ↦ ?_, fun l w hl hw key w' ↦ ⟨fun path h ↦ ?_, ?_⟩⟩
  · have hsees := Sees.of_mem hm.sound hn (m.known_scalar .null) hanswers
    refine ⟨(m.sight answers n .null).leads path, fun m₁ hm₁ ↦ ?_⟩
    obtain ⟨m₂, hpresent, haside⟩ := (hsees.later hm₁).present hpath
    refine ⟨⟨m₂, hpresent, haside⟩, fun hb ↦ ⟨m₂, ?_⟩, ?_⟩
    · rw [hb] at hpresent
      exact Node.presentWith_iff_walks.mp hpresent
    · rintro ⟨m₃, hwalks⟩
      have hsame := hpresent.symm.trans (Node.presentWith_iff_walks.mpr hwalks)
      exact (EStateM.Result.ok.inj hsame).1
  · refine Loader.missing_of_readFrom hl hw.sound (fun v hv ↦ ?_) h
    obtain ⟨place, hplace⟩ := FileSystem.mem_of_find? hv
    exact hw.plain place v hplace
  · exact Loader.missing_of_readDatabases hl hw

/-- The text of a key that is missing. -/
def Failure.missingText? : Failure → Option String
  | .configuration (.notFound (.scalar (.text name))) => some name
  | _ => none

theorem Failure.eq_missing {f : Failure} {name : String} (h : f.missingText? = some name) :
    f = .missing (.scalar (.text name)) := by
  unfold missingText? at h
  split at h
  · rw [Option.some.inj h]
    rfl
  · cases h

/-- A node with a computation under a key, which always gives the same text. -/
def computedNode : Memory :=
  let make := Operation.create (.mapping [(.text "mode", .deferred ⟨0⟩)])
  after (make.performWith (evaluateWithin 0))
    (Memory.define default (.constant "mode" (.text "katello"))).2

/-- A loader whose passwords cannot be revealed, because a key is missing where they come from. -/
def keylessLoader : Loader :=
  { Katello.sampleLoader with password := fun _ ↦ throw (.missing (.scalar (.text "vault"))) }

set_option maxRecDepth 20000 in
theorem present_agrees_with_walking_sample : computedNode.Reachable ∧
    (∃ m', Node.Walks evaluate ⟨0⟩ ["mode"] computedNode m') ∧
    ∃ w', keylessLoader.readFrom "katello.yml" (Katello.worldOf Katello.sampleDocument)
      = .error (.missing (.scalar (.text "vault"))) w' ∧
      keylessLoader.PasswordMisses (.scalar (.text "vault")) w' := by
  have hm : computedNode.Reachable := by
    unfold computedNode
    exact .tail (.single (.define default _)) (.operation _ _ 0)
  have hmode : computedNode.Gives ⟨0⟩ (.scalar (.text "katello")) :=
    Memory.gives_constant (by decide +kernel) (rfl : _ = (Computation.constant "mode" _).body)
  have hview : computedNode.view (.node ⟨0⟩) = .node ⟨0⟩ false [("mode", .deferred ⟨0⟩)] := rfl
  have hanswers : ∀ d, (computedNode.view (.node ⟨0⟩)).Reads (fun _ ↦ .scalar (.text "katello")) d →
      computedNode.Gives d (.scalar (.text "katello")) := by
    intro d hd
    rw [hview] at hd
    cases hd with
    | field hkey hd =>
      have hentry := Entries.mem_of_find? hkey
      obtain ⟨-, rfl⟩ := Prod.mk.inj (List.mem_singleton.mp hentry)
      cases hd with
      | self => exact hmode
      | answer hd => cases hd
  obtain ⟨b, hb⟩ := present_agrees_with_walking.2.1 computedNode ⟨0⟩ _ hm (by decide +kernel)
    hanswers ["mode"] (List.cons_ne_nil _ _)
  obtain ⟨⟨m₂, hpresent, _⟩, hwalks⟩ := hb computedNode (.refl hm.sound)
  have htrue : result? (Node.present ⟨0⟩ [.text "mode"]) computedNode = some true := by
    decide +kernel
  obtain ⟨m₃, hpresent'⟩ := exists_ok_of_result? htrue
  have hset : b = true := (EStateM.Result.ok.inj (hpresent.symm.trans hpresent')).1
  refine ⟨hm, hwalks.mp hset, ?_⟩
  have hreveals : keylessLoader.Reveals := fun v w p w' h ↦ by cases h
  have hreadable : keylessLoader.Readable (Katello.worldOf Katello.sampleDocument) :=
    ⟨Forest.sound_empty, Katello.plain_of_worldOf Katello.plain_sampleDocument,
      fun data hdata ↦ by cases hdata⟩
  have hvault : (failure? (keylessLoader.readFrom "katello.yml")
      (Katello.worldOf Katello.sampleDocument)).bind Failure.missingText? = some "vault" := by
    decide +kernel
  obtain ⟨f, hf, hmissing⟩ := Option.bind_eq_some_iff.mp hvault
  obtain ⟨w', hfails⟩ := exists_error_of_failure? hf
  rw [Failure.eq_missing hmissing] at hfails
  refine ⟨w', hfails, ?_⟩
  rcases (present_agrees_with_walking.2.2 _ _ hreveals hreadable _ w').1 _ hfails with h | h
  · cases h
  · exact h

end LayeredConfig
