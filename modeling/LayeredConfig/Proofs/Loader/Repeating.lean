import LayeredConfig.Proofs.Loader.Parsing
import LayeredConfig.Proofs.Node.Likeness

/-!
# Reading the file again

In a world that does not change, a file that could not be read is not readable later, and one that
was read gives the same contents again. The nodes are others each time, and what has been read or
loaded in between has left more of them in the memory. `World.Steady` says how a world may change
that does not change otherwise, and `Loader.Functional` that the collaborators of a loader take no
notice of it.

Two readings are compared step by step. The invariant of the loop over the sections is that both
trees, which are still being written to, hold the same (`SameDrafts`).
-/

namespace LayeredConfig

open Memory (Beyond Stored Likened)

/-! ## A world that does not change -/

namespace World

variable {w w' w'' : World}

/-- Nodes may have been added, and all else that a loader reads is as it was. -/
structure Steady (w w' : World) : Prop where
  beyond : Beyond w.memory w'.memory
  files_eq : w'.files = w.files
  environment_eq : w'.environment = w.environment
  host_eq : w'.host = w.host

/-- Nor has anything been remembered. -/
structure Still (w w' : World) : Prop extends Steady w w' where
  memos_eq : w'.memos = w.memos

theorem Steady.refl (hw : w.memory.forest.Sound) : Steady w w := ⟨.refl hw, rfl, rfl, rfl⟩

theorem Steady.sound (h : Steady w w') : w'.memory.forest.Sound := h.beyond.sound

theorem Still.refl (hw : w.memory.forest.Sound) : Still w w := ⟨.refl hw, rfl⟩

instance : IsTrans World Steady where
  trans _ _ _ h h' := ⟨h.beyond.trans h'.beyond, h'.files_eq.trans h.files_eq,
    h'.environment_eq.trans h.environment_eq, h'.host_eq.trans h.host_eq⟩

instance : IsTrans World Still where
  trans _ _ _ h h' := ⟨IsTrans.trans _ _ _ h.toSteady h'.toSteady, h'.memos_eq.trans h.memos_eq⟩

theorem Still.memo_eq (h : Still w w') (number : ℕ) : w'.memo number = w.memo number := by
  rw [memo, memo, h.memos_eq]

/-- Writing the log is no change. -/
theorem Still.logged (h : Still w w') (log : Array LogEntry) : Still w { w' with log } :=
  ⟨⟨h.beyond, h.files_eq, h.environment_eq, h.host_eq⟩, h.memos_eq⟩

theorem Still.withMemory (h : Still w w') {m : Memory} (hm : Beyond w.memory m) :
    Still w { w' with memory := m } :=
  ⟨⟨hm, h.files_eq, h.environment_eq, h.host_eq⟩, h.memos_eq⟩

end World

open World (Steady Still)

namespace Concur

variable {α β : Type} {s s' u u' : World} {Q : α → Memory → β → Memory → Prop} {x : Eval α}
  {x' : Eval β}

/-- Two evaluations that go on alike do so as actions. -/
theorem lift (hu : Still s u) (hu' : Still s' u')
    (h : Concur Beyond s.memory s'.memory Q (x u.memory) (x' u'.memory)) :
    Concur Still s s' (fun a t b t' ↦ Q a t.memory b t'.memory) (onMemory x u)
      (onMemory x' u') := by
  rcases h.outcome with ⟨a, m, b, m', hx, hx', hm, hm', hab⟩ | ⟨e, m, e', m', hx, hx', hm, hm', he⟩
  · rw [onMemory_of_ok hx, onMemory_of_ok hx']
    exact ⟨hu.withMemory hm, hu'.withMemory hm', hab⟩
  · rw [onMemory_of_error hx, onMemory_of_error hx']
    exact ⟨hu.withMemory hm, hu'.withMemory hm', he⟩

/-- What is noted in the log makes no difference. -/
theorem record {P : Unit → World → Unit → World → Prop} (hu : Still s u) (hu' : Still s' u')
    (level level' : LogLevel) (event event' : String) (details details' : Entries Value)
    (hP : ∀ log log', P () { u with log } () { u' with log := log' }) :
    Concur Still s s' P (LayeredConfig.record level event details u)
      (LayeredConfig.record level' event' details' u') :=
  ⟨hu.logged _, hu'.logged _, hP _ _⟩

end Concur

/-- In a world that does not change, beginning with `w₀`, the collaborators of the loader are
functions: asked alike they answer alike, or they fail alike, and they change no node. What the
names in a template stand for is the same each time. -/
structure Loader.Functional (l : Loader) (w₀ : World) : Prop where
  rendering : ∀ {w w' : World}, Steady w₀ w → Steady w₀ w' → ∀ path text,
    Concur Still w w' (fun s _ s' _ ↦ s = s') (l.expand path text w) (l.expand path text w')
  environment : ∀ ask, l.environment = some ask → ∀ {w w' : World}, Steady w₀ w → Steady w₀ w' →
    Concur Still w w' (fun v _ v' _ ↦ ∃ e, v = environmentValue e ∧ v' = environmentValue e)
      (ask w) (ask w')
  password : ∀ {w w' : World}, Steady w₀ w → Steady w₀ w' → ∀ {v v' : Value}, w.memory.Known v →
    w'.memory.Known v' → Likened w.memory v w'.memory v' →
    Concur Still w w' (fun p t p' t' ↦ Likened t.memory p t'.memory p') (l.password v w)
      (l.password v' w')
  version : ∀ {w w' : World}, Steady w₀ w → Steady w₀ w' → ∀ package : String,
    Concur Still w w' (fun v t v' t' ↦ Likened t.memory v t'.memory v')
      (l.version (.text package) w) (l.version (.text package) w')

/-! ## Drafts with the same contents -/

/-- Two drafts hold the same, and no computation. -/
def SameDrafts (m₀ m : Memory) (n : NodeId) (m₀' m' : Memory) (n' : NodeId) : Prop :=
  ∃ fields, Draft m₀ m n fields ∧ Draft m₀' m' n' fields ∧ ∀ e ∈ fields, e.2.Settled

/-- The two nodes are the frozen tops of trees that hold the same, and no computation. -/
structure Memory.Counterparts (m : Memory) (n : NodeId) (m' : Memory) (n' : NodeId) : Prop where
  parsed : m.Parsed n
  parsed' : m'.Parsed n'
  frozen : m.forest.frozen n = true
  frozen' : m'.forest.frozen n' = true
  content_eq : (m.view (.node n)).content = (m'.view (.node n')).content

namespace Memory.Counterparts

variable {m m' m'' t t' : Memory} {n n' n'' : NodeId} (h : Counterparts m n m' n')

include h

theorem symm : Counterparts m' n' m n :=
  ⟨h.parsed', h.parsed, h.frozen', h.frozen, h.content_eq.symm⟩

theorem trans (h' : Counterparts m' n' m'' n'') : Counterparts m n m'' n'' :=
  ⟨h.parsed, h'.parsed', h.frozen, h'.frozen', h.content_eq.trans h'.content_eq⟩

theorem later (ht : Beyond m t) : Counterparts t n m' n' := by
  have hview : t.view (.node n) = m.view (.node n) :=
    ht.view_eq h.parsed.sound (Memory.known_node h.parsed.mem)
  refine ⟨h.parsed.later ht, h.parsed', ?_, h.frozen', ?_⟩
  · rw [Forest.frozen, ht.grown.cell_eq h.parsed.mem, ← Forest.frozen]
    exact h.frozen
  · rw [hview, h.content_eq]

/-- The two trees differ in nothing but the identities of their nodes. -/
theorem anonymous_eq : (m.view (.node n)).anonymous = (m'.view (.node n')).anonymous :=
  (h.parsed.sound.standing_of_frozen h.frozen).anonymous_congr
    (h.parsed'.sound.standing_of_frozen h.frozen') h.content_eq

end Memory.Counterparts

/-- Drafts with the same contents are counterparts once they are frozen. -/
theorem SameDrafts.counterparts {m₀ m m₀' m' : Memory} {n n' : NodeId}
    (h : SameDrafts m₀ m n m₀' m' n') :
    Memory.Counterparts { m with forest := m.forest.freeze n } n
      { m' with forest := m'.forest.freeze n' } n' := by
  obtain ⟨fields, h, h', hfields⟩ := h
  have hcontent : ∀ {m₀ m : Memory} {n : NodeId}, Draft m₀ m n fields →
      ((m.forest.freeze n).view (.node n)).content = .node fields := fun h ↦
    (h.sound.content_freeze _ _).trans h.content_view
  have hparsed : ∀ {m₀ m : Memory} {n : NodeId}, Draft m₀ m n fields →
      Memory.Parsed { m with forest := m.forest.freeze n } n := fun h ↦
    ⟨h.sound.freeze _, Forest.mem_freeze.mpr h.mem, (hcontent h).symm ▸ .node hfields⟩
  exact ⟨hparsed h, hparsed h', h.sound.frozen_freeze_of_reaches (.refl _ n),
    h'.sound.frozen_freeze_of_reaches (.refl _ n'), (hcontent h).trans (hcontent h').symm⟩

/-- Making a node of a value that looks the same comes to the same. -/
theorem concur_create {m m' : Memory} {v : Value} (hm : m.forest.Sound) (hm' : m'.forest.Sound)
    (hview : m'.view v = m.view v) :
    Concur Beyond m m' (fun n t n' t' ↦
        Draft m t n (m.view v).fields ∧ Draft m' t' n' (m.view v).fields)
      (Node.create v m) (Node.create v m') := by
  cases hplan : (m.view v).nodeBlueprint with
  | ok plan =>
    obtain ⟨n, g, hcreate, hmade⟩ := Forest.create_of_nodeBlueprint hplan hm
    obtain ⟨n', t', hcreate', hdraft'⟩ := draft_of_view hm' hview (onForest_of_ok hcreate)
    have hdraft := draft_of_made hmade
    rw [hcreate', show Node.create v m = _ from onForest_of_ok hcreate]
    exact ⟨hdraft.beyond, hdraft'.beyond, hdraft, hdraft'⟩
  | error fault =>
    have hfailed : ∀ {m : Memory}, (m.view v).nodeBlueprint = .error fault →
        Node.create v m = .error (.configuration (.invalidStructure fault)) m := by
      intro m hplan
      have hcreate : Forest.create v m.forest = .error (.invalidStructure fault) m.forest := by
        rw [Forest.create, get_bind, show (m.forest.view v).nodeBlueprint = _ from hplan]
        rfl
      exact onForest_of_error hcreate
    rw [hfailed hplan, hfailed (hview ▸ hplan)]
    exact ⟨.refl hm, .refl hm', rfl⟩

namespace Loader

variable {l : Loader} {w₀ s s' w w' : World} {n n' : NodeId}

/-! ## The document -/

theorem concur_readDocument (hl : l.Functional w₀) (hw : Steady w₀ w) (hw' : Steady w₀ w')
    (path : String) : Concur Still w w' (fun v _ v' _ ↦ v = v') (l.readDocument path w)
      (l.readDocument path w') := by
  have hstill : Still w w := .refl hw.sound
  have hstill' : Still w' w' := .refl hw'.sound
  rw [readDocument, get_bind, get_bind, hw.files_eq, hw'.files_eq]
  cases w₀.files.find? path with
  | none => exact ⟨hstill, hstill', rfl⟩
  | some contents =>
    cases contents with
    | directory => exact ⟨hstill, hstill', rfl⟩
    | document v => exact ⟨hstill, hstill', rfl⟩
    | bytes content =>
      dsimp only
      cases FileSystem.decodeText? content with
      | none => exact ⟨hstill, hstill', rfl⟩
      | some text =>
        refine (hl.rendering hw hw' path text).bind ?_
        rintro filled t _ t' ht ht' rfl
        -- what is left is a function of the text
        rw [parse]
        cases Yaml.load filled with
        | ok v => exact ⟨ht, ht', rfl⟩
        | error fault =>
          cases fault with
          | document fault => cases fault <;> exact ⟨ht, ht', rfl⟩
          | endless => exact ⟨ht, ht', rfl⟩

end Loader

/-! ## Secrets of a draft -/

namespace Draft

variable {m₀ m t : Memory} {n : NodeId} {fields : Entries Blueprint} {title : String}
  {content : Value} {x : Secret} (h : Draft m₀ m n fields)

include h

/-- What stands under a key is not noticed to be elsewhere. -/
theorem find?_later (ht : Beyond m t) (key : String) :
    t.forest.find? n key = m.forest.find? n key := by
  rw [Forest.find?, Forest.entries, ht.grown.cell_eq h.mem, ← Forest.entries, ← Forest.find?]

variable (hcontent : m.forest.find? n title = some content)

include hcontent

theorem known_of_find? : m.Known content := fun _ ha ↦
  (h.sound.younger (Forest.mem_children_of_find? hcontent ha)).2

theorem secret_later (ht : Beyond m t) : t.secret? title content = m.secret? title content :=
  Memory.secret_congr fun _ ha _ hc ↦
    ht.grown.cell_eq (h.sound.mem_of_reaches (h.known_of_find? hcontent _ ha) hc)

variable (hx : m.secret? title content = some x)

include hx

/-- The block that a secret stands in is a draft. -/
theorem holder : Draft m₀ m x.holder ((m.forest.fields x.holder).mapValues Tree.content) := by
  obtain ⟨a, rfl, -, hdatabase, -⟩ := Memory.eq_of_secret hx
  exact (h.child hcontent).child hdatabase

theorem stored_secret (hfields : ∀ e ∈ fields, e.2.Settled) :
    Stored m x.stored (m.view x.stored).content := by
  have hparsed : m.Parsed n := Drafted.parsed ⟨fields, h, hfields⟩
  have hblock := h.holder hcontent hx
  obtain ⟨a, rfl, -, hdatabase, hstored, -⟩ := Memory.eq_of_secret hx
  have hsettled := ((hparsed.child hcontent).child hdatabase).settled_of_find? hstored
  exact hblock.stored_of_find? hstored rfl hsettled

/-- Writing the password behind a secret replaces it in its section. -/
theorem set_password {p : Value} (hp : (m.view p).WellKeyed) :
    ∃ g, Node.set x.holder (.text "password") p m = .ok () { m with forest := g } ∧
      g.entries n = m.forest.entries n ∧ Draft m₀ { m with forest := g } n
        (fields.put title ((m.view content).content.withPassword (m.view p).content)) := by
  obtain ⟨a, rfl, -, hdatabase, -⟩ := Memory.eq_of_secret hx
  obtain ⟨g, hset, hentries, hdraft⟩ := h.edited_inside hcontent hdatabase hp "password"
  have hblock := Memory.find?_of_content h.sound (Memory.content_node_eq h.sound a) "database"
  rw [hdatabase, Option.map_some, Memory.content_node_eq h.sound] at hblock
  refine ⟨g, hset, hentries, ?_⟩
  rw [Memory.content_node_eq h.sound, Blueprint.withPassword_node hblock.symm]
  exact hdraft

end Draft

theorem Blueprint.Settled.withPassword {b p : Blueprint} (hb : b.Settled) (hp : p.Settled) :
    (b.withPassword p).Settled := by
  cases hb with
  | @node fields hall =>
    rw [Blueprint.withPassword]
    split
    · next block hblock =>
      have hinner : (Blueprint.node block).Settled := hall _ (Entries.mem_of_find? hblock)
      exact .node (.put hall (.node (.put hinner.fields hp _)) _)
    · exact .node hall
  | scalar s => exact .scalar s
  | set items => exact .set items
  | list hall => exact .list hall

namespace Loader

variable {l : Loader} {w₀ s s' w w' : World} {n n' : NodeId} {fields : Entries Blueprint}
  {title : String} {content content' : Value}

/-- Revealing secrets in sections of two drafts that hold the same leaves them holding the same. -/
theorem concur_reveal (hl : l.Functional w₀) (hs : Steady w₀ s) (hs' : Steady w₀ s')
    (hw : Still s w) (hw' : Still s' w') (h : Draft s.memory w.memory n fields)
    (h' : Draft s'.memory w'.memory n' fields) (hfields : ∀ e ∈ fields, e.2.Settled)
    (hcontent : w.memory.forest.find? n title = some content)
    (hcontent' : w'.memory.forest.find? n' title = some content')
    (hsame : (w'.memory.view content').content = (w.memory.view content).content)
    {x x' : Secret} (hx : w.memory.secret? title content = some x)
    (hx' : w'.memory.secret? title content' = some x')
    (hstored : (w'.memory.view x'.stored).content = (w.memory.view x.stored).content) :
    Concur Still s s' (fun _ t _ t' ↦ SameDrafts s.memory t.memory n s'.memory t'.memory n' ∧
        t.memory.forest.entries n = w.memory.forest.entries n ∧
        t'.memory.forest.entries n' = w'.memory.forest.entries n')
      (l.reveal x w) (l.reveal x' w') := by
  rw [reveal, reveal]
  have hold := h.stored_secret hcontent hx hfields
  have hold' := h'.stored_secret hcontent' hx' hfields
  rw [hstored] at hold'
  have hasked := hl.password (IsTrans.trans _ _ _ hs hw.toSteady)
    (IsTrans.trans _ _ _ hs' hw'.toSteady) hold.mem hold'.mem (hold.likened hold')
  have hboth := hasked.mono fun _ _ _ _ ht ht' hp ↦ And.intro hp (And.intro ht ht')
  refine (hboth.since hw hw').bind ?_
  rintro p t p' t' hst hst' ⟨hp, ht, ht'⟩
  -- the drafts are what they were, and so is what stands in them
  have hd := h.later ht.beyond
  have hd' := h'.later ht'.beyond
  have hview := ht.beyond.view_eq h.sound (h.known_of_find? hcontent)
  have hview' := ht'.beyond.view_eq h'.sound (h'.known_of_find? hcontent')
  have hfind := h.find?_later ht.beyond title
  have hfind' := h'.find?_later ht'.beyond title
  have hsecret := (h.secret_later hcontent ht.beyond).trans hx
  have hsecret' := (h'.secret_later hcontent' ht'.beyond).trans hx'
  have hentries : t.memory.forest.entries n = w.memory.forest.entries n := by
    rw [Forest.entries, ht.beyond.grown.cell_eq h.mem, ← Forest.entries]
  have hentries' : t'.memory.forest.entries n' = w'.memory.forest.entries n' := by
    rw [Forest.entries, ht'.beyond.grown.cell_eq h'.mem, ← Forest.entries]
  rw [hcontent] at hfind
  rw [hcontent'] at hfind'
  have hset : Concur Beyond s.memory s'.memory
      (fun _ u _ u' ↦ SameDrafts s.memory u n s'.memory u' n' ∧
        u.forest.entries n = w.memory.forest.entries n ∧
        u'.forest.entries n' = w'.memory.forest.entries n')
      (Node.set x.holder (.text "password") p t.memory)
      (Node.set x'.holder (.text "password") p' t'.memory) := by
    refine hp.set hd.beyond hd'.beyond (hd.holder hfind hsecret).frozen
      (hd'.holder hfind' hsecret').frozen fun hv hv' ↦ ?_
    obtain ⟨g, hok, hg, hdraft⟩ := hd.set_password hfind hsecret hv
    obtain ⟨g', hok', hg', hdraft'⟩ := hd'.set_password hfind' hsecret' hv'
    rw [hview', hsame, ← hview, ← hp.content_eq] at hdraft'
    refine ⟨_, _, hok, hok', hdraft.beyond, hdraft'.beyond, ⟨_, hdraft, hdraft', ?_⟩,
      hg.trans hentries, hg'.trans hentries'⟩
    refine .put hfields (.withPassword ?_ hp.settled) title
    have hparsed : w.memory.Parsed n := Drafted.parsed ⟨fields, h, hfields⟩
    rw [hview]
    exact hparsed.settled_of_find? hcontent
  refine (Concur.lift hst hst' hset).bind fun _ u _ u' hu hu' hdrafts ↦ ?_
  exact .record hu hu' _ _ _ _ _ _ fun _ _ ↦ hdrafts

/-- **Revealing the password of a section** of two drafts that hold the same leaves them holding the
same. -/
theorem concur_revealPassword (hl : l.Functional w₀) (hs : Steady w₀ s) (hs' : Steady w₀ s')
    (hw : Still s w) (hw' : Still s' w') (h : Draft s.memory w.memory n fields)
    (h' : Draft s'.memory w'.memory n' fields) (hfields : ∀ e ∈ fields, e.2.Settled)
    (hcontent : w.memory.forest.find? n title = some content)
    (hcontent' : w'.memory.forest.find? n' title = some content') :
    Concur Still s s' (fun _ t _ t' ↦ SameDrafts s.memory t.memory n s'.memory t'.memory n' ∧
        t.memory.forest.entries n = w.memory.forest.entries n ∧
        t'.memory.forest.entries n' = w'.memory.forest.entries n')
      (l.revealPassword title content w) (l.revealPassword title content' w') := by
  have hn : w.memory.Parsed n := Drafted.parsed ⟨fields, h, hfields⟩
  have hn' : w'.memory.Parsed n' := Drafted.parsed ⟨fields, h', hfields⟩
  rw [revealPassword_eq fun a ha ↦ hn.child (ha ▸ hcontent),
    revealPassword_eq fun a ha ↦ hn'.child (ha ▸ hcontent')]
  -- the sections have the same content, so both have a secret or neither has
  have hsame : (w'.memory.view content').content = (w.memory.view content).content := by
    have hfind := Memory.find?_of_content h.sound h.content_view title
    have hfind' := Memory.find?_of_content h'.sound h'.content_view title
    rw [hcontent, Option.map_some] at hfind
    rw [hcontent', Option.map_some, ← hfind] at hfind'
    exact Option.some.inj hfind'
  have hsecret := Memory.password_content h.sound
    (h.sound.uniform n (title, content) (Entries.mem_of_find? hcontent)) title
  rw [← hsame, Memory.password_content h'.sound
    (h'.sound.uniform n' (title, content') (Entries.mem_of_find? hcontent')) title] at hsecret
  cases hx : w.memory.secret? title content with
  | none =>
    rw [hx, Option.map_none, Option.map_eq_none_iff] at hsecret
    rw [hsecret]
    exact ⟨hw, hw', ⟨fields, h, h', hfields⟩, rfl, rfl⟩
  | some x =>
    rw [hx, Option.map_some] at hsecret
    obtain ⟨x', hx', hstored⟩ := Option.map_eq_some_iff.mp hsecret
    rw [hx', Option.elim_some, Option.elim_some]
    exact concur_reveal hl hs hs' hw hw' h h' hfields hcontent hcontent' hsame hx hx' hstored

/-- Revealing the passwords of all sections, which stand under the same keys. -/
theorem concur_revealPasswords (hl : l.Functional w₀) (hs : Steady w₀ s) (hs' : Steady w₀ s')
    {rest rest' : Entries Value} (hkeys : rest.keys = rest'.keys) (hw : Still s w)
    (hw' : Still s' w') (hsame : SameDrafts s.memory w.memory n s'.memory w'.memory n')
    (hrest : ∀ e ∈ rest, w.memory.forest.find? n e.1 = some e.2)
    (hrest' : ∀ e ∈ rest', w'.memory.forest.find? n' e.1 = some e.2) :
    Concur Still s s' (fun _ t _ t' ↦ SameDrafts s.memory t.memory n s'.memory t'.memory n')
      ((rest.forM fun e ↦ l.revealPassword e.1 e.2 : Action Unit) w)
      ((rest'.forM fun e ↦ l.revealPassword e.1 e.2 : Action Unit) w') := by
  induction rest generalizing rest' w w' with
  | nil =>
    obtain rfl : rest' = [] := List.map_eq_nil_iff.mp hkeys.symm
    exact ⟨hw, hw', hsame⟩
  | cons e rest ih =>
    cases rest' with
    | nil => cases hkeys
    | cons e' rest' =>
      obtain ⟨title, content⟩ := e
      obtain ⟨title', content'⟩ := e'
      obtain ⟨rfl, htail⟩ : title = title' ∧ Entries.keys rest = Entries.keys rest' :=
        List.cons.inj hkeys
      obtain ⟨hcontent, hrest⟩ := List.forall_mem_cons.mp hrest
      obtain ⟨hcontent', hrest'⟩ := List.forall_mem_cons.mp hrest'
      obtain ⟨fields, h, h', hfields⟩ := hsame
      refine (concur_revealPassword hl hs hs' hw hw' h h' hfields hcontent hcontent').bind
        fun _ t _ t' ht ht' ⟨hdrafts, hentries, hentries'⟩ ↦ ?_
      -- the sections to come still stand under their keys
      refine ih htail ht ht' hdrafts (fun e he ↦ ?_) fun e he ↦ ?_
      · rw [Forest.find?, hentries, ← Forest.find?]
        exact hrest e he
      · rw [Forest.find?, hentries', ← Forest.find?]
        exact hrest' e he

/-- **Reading a file again** gives a tree that holds the same, or it fails in the same way. -/
theorem concur_readFrom (hl : l.Functional w₀) (hw : Steady w₀ w) (hw' : Steady w₀ w')
    {path : String} (hplain : ∀ v, w₀.files.find? path = some (.document v) → v.Plain) :
    Concur Still w w' (fun d t d' t' ↦ Memory.Counterparts t.memory d t'.memory d')
      (l.readFrom path w) (l.readFrom path w') := by
  have hfiles : ∀ v, w.files.find? path = some (.document v) → v.Plain := by
    rw [hw.files_eq]
    exact hplain
  rw [readFrom]
  refine ((concur_readDocument hl hw hw' path).and fun v t hread ↦
    plain_readDocument hfiles hread).bind ?_
  rintro v t _ t' ht ht' ⟨rfl, hv⟩
  have hst : Steady w₀ t := IsTrans.trans _ _ _ hw ht.toSteady
  have hst' : Steady w₀ t' := IsTrans.trans _ _ _ hw' ht'.toSteady
  refine Concur.since ?_ ht ht'
  have hview : t'.memory.view v = t.memory.view v := hv.graft_eq _ _
  have hcreate := Concur.lift (.refl hst.sound) (.refl hst'.sound)
    (concur_create hst.sound hst'.sound hview)
  refine hcreate.bind ?_
  rintro n u n' u' hu hu' ⟨h, h'⟩
  have hfields := hv.settled_fields t.memory
  have hp : u.memory.Parsed n := Drafted.parsed ⟨_, h, hfields⟩
  have hp' : u'.memory.Parsed n' := Drafted.parsed ⟨_, h', hfields⟩
  have hkeys : (u.memory.forest.entries n).keys = (u'.memory.forest.entries n').keys := by
    have hcontent := congrArg Entries.keys (h.content.trans h'.content.symm)
    rwa [Entries.keys_mapValues, Entries.keys_mapValues, Forest.fields, Forest.fields,
      Entries.keys_mapValues, Entries.keys_mapValues] at hcontent
  refine .of_read (onMemory_of_ok hp.items) (onMemory_of_ok hp'.items) ?_
  refine (concur_revealPasswords hl hst hst' hkeys hu hu' ⟨_, h, h', hfields⟩ (fun e he ↦ ?_)
    fun e he ↦ ?_).bind fun _ x _ x' hx hx' hsame ↦ ?_
  · exact Entries.find?_of_mem (h.sound.distinct n) he
  · exact Entries.find?_of_mem (h'.sound.distinct n') he
  · have hcounterparts := hsame.counterparts
    obtain ⟨_, hd, hd', _⟩ := hsame
    exact ⟨hx.withMemory hd.freeze, hx'.withMemory hd'.freeze, hcounterparts⟩

end Loader

end LayeredConfig
