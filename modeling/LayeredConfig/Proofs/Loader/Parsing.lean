import LayeredConfig.Proofs.Loader.Discretion
import LayeredConfig.Proofs.Loader.Secrets
import LayeredConfig.Proofs.Node.Exporting
import LayeredConfig.Proofs.Yaml.Plain
import LayeredConfig.Secret.Password

/-!
# Reading a file gives a parsed tree

Whatever bytes a file holds, if reading it succeeds then the tree of the file holds no computation.
The template may do to older nodes whatever a run of operations may do, but all that is taken from
it is a text, and the document behind a text is plain. Revealing passwords then edits the new tree
one password at a time, and each of them is a scalar or what stood there before.

The invariant of that loop is `Drafted`: the tree was made since, it holds no computation, and the
sections that are still to come stand where they stood.
-/

namespace LayeredConfig

open Memory (Beyond Reruns)

/-- A password is a scalar or what was asked about, and revealing it changes no node. -/
def Loader.Reveals (l : Loader) : Prop := ∀ v w p w', l.password v w = .ok p w' →
  Reruns w.memory w'.memory ∧ (p = v ∨ ∃ s, p = .scalar s)

/-- Decrypting gives a text or what was asked about. -/
theorem PasswordCipher.eq_or_scalar_of_decrypt {c : PasswordCipher} {v p : Value}
    (h : c.decrypt v = .ok p) : p = v ∨ ∃ s, p = .scalar s := by
  unfold decrypt at h
  split at h
  · next s =>
    split at h
    · cases hplain : c.decryptText s with
      | error e =>
        rw [hplain] at h
        cases h
      | ok plain =>
        rw [hplain] at h
        cases h
        exact .inr ⟨.text plain, rfl⟩
    · cases h
      exact .inl rfl
  · cases h
    exact .inl rfl

theorem Loader.reveals_of_decrypt {l : Loader} {c : PasswordCipher}
    (hpassword : l.password = fun v ↦ ofOutcome (c.decrypt v)) : l.Reveals := by
  intro v w p w' h
  rw [hpassword] at h
  obtain ⟨hdecrypt, rfl⟩ := of_ofOutcome h
  exact ⟨Std.Refl.refl w'.memory, PasswordCipher.eq_or_scalar_of_decrypt hdecrypt⟩

/-- A document that a path leads to stands among the files. -/
theorem FileSystem.mem_of_find? {fs : FileSystem} {path : String} {v : Value}
    (h : fs.find? path = some (.document v)) : ∃ place, (place, .document v) ∈ fs.files := by
  obtain ⟨place, _, hat⟩ := Option.bind_eq_some_iff.mp h
  unfold at? at hat
  split at hat
  · next found contents hfound =>
    obtain rfl := Option.some.inj hat
    exact ⟨found, List.mem_of_find?_eq_some hfound⟩
  · split at hat
    · cases hat
    · cases hat

/-- The node was made since the memory `m₀`, and it holds no computation. -/
def Drafted (m₀ m : Memory) (n : NodeId) : Prop :=
  ∃ fields, Draft m₀ m n fields ∧ ∀ e ∈ fields, e.2.Settled

theorem Drafted.parsed {m₀ m : Memory} {n : NodeId} (h : Drafted m₀ m n) : m.Parsed n := by
  obtain ⟨fields, h, hfields⟩ := h
  refine ⟨h.sound, h.mem, ?_⟩
  rw [h.content_view]
  exact .node hfields

/-! ## Storing a plain value -/

/-- The fields of a plain value hold no computation. -/
theorem Value.Plain.settled_fields {v : Value} (hv : v.Plain) (m : Memory) :
    ∀ e ∈ (m.view v).fields, e.2.Settled := by
  -- only a mapping has fields, and those are part of its content
  cases hv with
  | @mapping entries keys values =>
    have hsettled : (m.view (.mapping entries)).content.Settled :=
      (Value.Plain.mapping keys values).settled_content _
    rw [Memory.view, Forest.view_mapping] at hsettled ⊢
    rw [Tree.content_mapping] at hsettled
    exact hsettled.fields
  | scalar s => exact fun e he ↦ absurd he List.not_mem_nil
  | set items => exact fun e he ↦ absurd he List.not_mem_nil
  | seq kind _ =>
    rw [Memory.view, Forest.view_seq]
    exact fun e he ↦ absurd he List.not_mem_nil

/-- A node that is made of a plain value holds no computation. -/
theorem drafted_create {m m' : Memory} {n : NodeId} {v : Value} (hm : m.forest.Sound)
    (hv : v.Plain) (h : Node.create v m = .ok n m') : Drafted m m' n :=
  ⟨_, draft_of_create hm h, hv.settled_fields m⟩

/-- Writing to a node two levels below a draft. -/
theorem Drafted.set_inside {m₀ m : Memory} {n a b : NodeId} {title block key : String} {v : Value}
    (h : Drafted m₀ m n) (ha : m.forest.find? n title = some (.node a))
    (hb : m.forest.find? a block = some (.node b)) (hkeyed : (m.view v).WellKeyed)
    (hsettled : (m.view v).content.Settled) :
    ∃ g, Node.set b (.text key) v m = .ok () { m with forest := g } ∧
      g.entries n = m.forest.entries n ∧ Drafted m₀ { m with forest := g } n := by
  have hn := h.parsed
  obtain ⟨fields, h, hfields⟩ := h
  obtain ⟨g, heq, hentries, hdraft⟩ := h.edited_inside ha hb hkeyed key
  have hold : ∀ {c}, m.Parsed c →
      ∀ e ∈ (m.forest.fields c).mapValues Tree.content, e.2.Settled := by
    intro c hc
    have hcontent := hc.settled
    rw [Memory.view, hc.sound.view_eq_fields, Tree.content_node] at hcontent
    exact hcontent.fields
  have hdatabase := Blueprint.Settled.put (hold ((hn.child ha).child hb)) hsettled key
  have hsection := Blueprint.Settled.put (hold (hn.child ha)) (.node hdatabase) block
  exact ⟨g, heq, hentries, _, hdraft, .put hfields (.node hsection) title⟩

namespace Memory.Parsed

variable {m : Memory} {data : NodeId} (hp : m.Parsed data)

include hp

/-- The entries of the node are read as they stand. -/
theorem items : Node.items data m = .ok (m.forest.entries data) m := by
  let use : String → Value → Eval (String × Value) := fun key v ↦ return (key, v)
  have hstep : ∀ e ∈ m.forest.entries data, ∀ m', m = m' → ∃ m'',
      (Node.resolve evaluate e.2 >>= use e.1) m' = .ok e m'' ∧ m' = m'' := by
    rintro ⟨key, v⟩ he _ rfl
    have hfind := Entries.find?_of_mem (hp.sound.distinct data) he
    rw [Memory.resolve_of_settled (hp.settled_of_find? hfind)]
    exact ⟨m, rfl, rfl⟩
  obtain ⟨m', hfold, rfl⟩ := Node.foldEntries_of_ok use id hstep
  rw [List.map_id] at hfold
  rw [Node.items, Node.itemsWith, get_bind]
  exact hfold

end Memory.Parsed

namespace Loader

variable {l : Loader} {w w' w₁ : World} {m₀ : Memory} {n : NodeId} {title : String}
  {content : Value}

/-! ## Revealing passwords -/

/-- **Revealing one password** edits the section that it stands in, if there is one. -/
theorem drafted_revealPassword (hl : l.Reveals) (h : Drafted m₀ w.memory n)
    (hcontent : w.memory.forest.find? n title = some content)
    (hrun : l.revealPassword title content w = .ok () w') :
    w'.memory.forest.entries n = w.memory.forest.entries n ∧ Drafted m₀ w'.memory n := by
  rw [revealPassword_eq fun a ha ↦ h.parsed.child (ha ▸ hcontent)] at hrun
  cases hs : w.memory.secret? title content with
  | none =>
    rw [hs] at hrun
    cases hrun
    exact ⟨rfl, h⟩
  | some s =>
  rw [hs, Option.elim_some, reveal] at hrun
  obtain ⟨a, rfl, -, hv, hstored, -⟩ := Memory.eq_of_secret hs
  obtain ⟨p, w₂, hpassword, hrest⟩ := bind_eq_ok.mp hrun
  -- the collaborator sees the world as it was, and leaves the nodes as they were
  have hb := (h.parsed.child hcontent).child hv
  obtain ⟨hreruns, hp⟩ := hl _ _ _ _ hpassword
  have hforest : w₂.memory.forest = w.memory.forest := hreruns.forest_eq
  have h₂ : Drafted m₀ w₂.memory n := by
    obtain ⟨fields, h, hfields⟩ := h
    exact ⟨fields, h.later (hreruns.beyond h.sound), hfields⟩
  have hview : (w₂.memory.view p).WellKeyed ∧ (w₂.memory.view p).content.Settled := by
    rcases hp with rfl | ⟨s, rfl⟩
    · have huniform := hb.sound.uniform s.holder ("password", s.stored)
        (Entries.mem_of_find? hstored)
      rw [hreruns.view_eq]
      exact ⟨hb.sound.wellKeyed_view huniform, hb.settled_of_find? hstored⟩
    · exact ⟨.scalar s, .scalar s⟩
  rw [← hforest] at hcontent hv
  obtain ⟨g, hset, hentries, hdrafted⟩ := h₂.set_inside hcontent hv hview.1 hview.2
  rw [bind_of_ok (onMemory_of_ok hset)] at hrest
  cases hrest
  refine ⟨?_, hdrafted⟩
  rw [← hforest]
  exact hentries

/-- Revealing the passwords of all sections. -/
theorem drafted_revealPasswords (hl : l.Reveals) {sections : Entries Value}
    (h : Drafted m₀ w.memory n)
    (hsections : ∀ e ∈ sections, w.memory.forest.find? n e.1 = some e.2)
    (hrun : (sections.forM fun e ↦ l.revealPassword e.1 e.2 : Action Unit) w = .ok () w') :
    Drafted m₀ w'.memory n := by
  induction sections generalizing w with
  | nil =>
    cases hrun
    exact h
  | cons e rest ih =>
    obtain ⟨hfirst, hrest⟩ := List.forall_mem_cons.mp hsections
    have hboth : (do
        l.revealPassword e.1 e.2
        rest.forM fun e ↦ l.revealPassword e.1 e.2 : Action Unit) w = .ok () w' := hrun
    obtain ⟨_, w₂, hreveal, hrun⟩ := bind_eq_ok.mp hboth
    obtain ⟨hentries, h₂⟩ := drafted_revealPassword hl h hfirst hreveal
    refine ih h₂ (fun e he ↦ ?_) hrun
    rw [Forest.find?, hentries, ← Forest.find?]
    exact hrest e he

/-! ## Reading -/

/-- The value of a file is plain. -/
theorem plain_readDocument {path : String} {v : Value}
    (hfiles : ∀ v, w.files.find? path = some (.document v) → v.Plain)
    (h : l.readDocument path w = .ok v w') : v.Plain := by
  rw [readDocument, get_bind] at h
  cases hfile : w.files.find? path with
  | none =>
    rw [hfile] at h
    cases h
  | some contents =>
    rw [hfile] at h
    cases contents with
    | directory => cases h
    | document v' =>
      cases h
      exact hfiles v hfile
    | bytes content =>
      dsimp only at h
      cases hdecode : FileSystem.decodeText? content with
      | none =>
        rw [hdecode] at h
        cases h
      | some text =>
        rw [hdecode] at h
        obtain ⟨filled, w₂, _, hparse⟩ := bind_eq_ok.mp h
        cases hload : Yaml.load filled with
        | ok v' =>
          rw [parse, hload] at hparse
          cases hparse
          exact Yaml.plain_load filled v hload
        | error fault =>
          rw [parse, hload] at hparse
          cases fault with
          | document fault => cases fault <;> cases hparse
          | endless => cases hparse

/-- **Reading a file** gives a tree without computations, and leaves the nodes that were there. -/
theorem parsed_readFrom (hl : l.Reveals) {path : String} (hw : w.memory.forest.Sound)
    (hfiles : ∀ v, w.files.find? path = some (.document v) → v.Plain)
    (h : l.readFrom path w = .ok n w') :
    w'.memory.Parsed n ∧ ∀ c ∈ w.memory.forest, c ∈ w'.memory.forest := by
  rw [readFrom] at h
  obtain ⟨v, w₂, hread, h⟩ := bind_eq_ok.mp h
  have hplain := plain_readDocument hfiles hread
  have hlater := ((composite_discreet.readDocument path).keeps.of_ok hread).follows hw
  obtain ⟨c, w₃, hcreate, h⟩ := bind_eq_ok.mp h
  have hdrafted : Drafted w₂.memory w₃.memory c := by
    obtain ⟨m, hrun, rfl⟩ := onMemory_eq_ok (x := Node.create v) hcreate
    exact drafted_create hlater.sound hplain hrun
  rw [bind_of_ok (onMemory_of_ok hdrafted.parsed.items)] at h
  obtain ⟨_, w₄, hreveal, h⟩ := bind_eq_ok.mp h
  have hrevealed := drafted_revealPasswords hl hdrafted (fun e he ↦
    Entries.find?_of_mem (hdrafted.parsed.sound.distinct c) he) hreveal
  obtain ⟨hm, hmem, hsettled⟩ := hrevealed.parsed
  obtain ⟨_, hdraft, _⟩ := hrevealed
  cases h
  refine ⟨⟨hm.freeze n, Forest.mem_freeze.mpr hmem, ?_⟩, fun a ha ↦ ?_⟩
  · have hcontent := hm.content_freeze n n
    exact hcontent ▸ hsettled
  · exact Forest.mem_freeze.mpr (hdraft.beyond.grown.mem (hlater.mem ha))

/-- What reading the file relies on: nodes are owned, a file whose document is known has a plain
one, and what the loader remembers of its file was read. -/
structure Readable (l : Loader) (w : World) : Prop where
  sound : w.memory.forest.Sound
  plain : ∀ place v, (place, .document v) ∈ w.files.files → v.Plain
  known : ∀ data, (w.memo l.number).data = some data → w.memory.Parsed data

/-- Finding the file leaves what reading it relies on. -/
theorem Readable.of_path (hw : l.Readable w) {path : String} (h : l.path w = .ok path w₁) :
    w₁.memory.forest.Sound ∧ ∀ v, w₁.files.find? path = some (.document v) → v.Plain := by
  obtain ⟨hmemory, hfiles⟩ := scene_path.of_ok h
  rw [hmemory, hfiles]
  refine ⟨hw.sound, fun v hv ↦ ?_⟩
  obtain ⟨place, hplace⟩ := FileSystem.mem_of_find? hv
  exact hw.plain place v hplace

/-- **The contents of the file** are a parsed tree, whatever the file holds, and asking for them
leaves the nodes that were there. -/
theorem parsed_and_mem_of_data (hl : l.Reveals) (hw : l.Readable w) (h : l.data w = .ok n w₁) :
    w₁.memory.Parsed n ∧ ∀ c ∈ w.memory.forest, c ∈ w₁.memory.forest := by
  cases hknown : (w.memo l.number).data with
  | some d =>
    rw [data, remembered_of_known hknown] at h
    cases h
    exact ⟨hw.known n hknown, fun _ hc ↦ hc⟩
  | none =>
    rw [data, remembered_of_unknown hknown] at h
    obtain ⟨d, w₃, hread, hkeep⟩ := bind_eq_ok.mp h
    obtain ⟨p, w₂, hpath, hread⟩ := bind_eq_ok.mp hread
    obtain ⟨hsound, hplain⟩ := hw.of_path hpath
    have hparsed := parsed_readFrom hl hsound hplain hread
    rw [(scene_path.of_ok hpath).1] at hparsed
    cases hkeep
    exact hparsed

theorem parsed_of_data (hl : l.Reveals) (hw : l.Readable w) (h : l.data w = .ok n w₁) :
    w₁.memory.Parsed n := (parsed_and_mem_of_data hl hw h).1

end Loader

end LayeredConfig
