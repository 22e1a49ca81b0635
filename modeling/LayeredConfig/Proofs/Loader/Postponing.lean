import LayeredConfig.Proofs.Loader.Revealing
import LayeredConfig.Proofs.Tree.Opening

/-!
# Decrypting before the merge or after it

A loader decrypts the passwords of all sections when it reads its file, and merges sections later.
A loader that merged what the file says and then decrypted the one password that is left would hold
the same database settings (`Loader.lateBlock`), as long as decrypting is a function that turns
scalars into texts. On contents this is `Blueprint.mergeable_openBlock`; here it is carried over to
the tree of the file, and from there through a load.
-/

namespace LayeredConfig

open Blueprint (Holds Within Openable openBlock openSection)
open Memory (Beyond)

namespace Blueprint

/-- Whether a content is a text. -/
def isText : Blueprint → Bool
  | .scalar (.text _) => true
  | _ => false

theorem eq_text_of_isText {b : Blueprint} (h : b.isText = true) : ∃ s, b = .scalar (.text s) := by
  unfold isText at h
  split at h
  · exact ⟨_, rfl⟩
  · cases h

end Blueprint

/-! ## Sections -/

namespace Tree

variable {data data' : Tree} {fields acc incoming : Entries Blueprint} {key : String}
  {answer : Blueprint → Blueprint}

/-- **Merging opened sections** opens the merged sections. -/
theorem sections_opened (hdata : data.content = .node fields)
    (hdata' : data'.content = .node (fields.mapValues (openSection answer)))
    (hfields : ∀ e ∈ fields, Within "database" (Within "password" (Openable answer)) e.2)
    (hacc : Holds "database" (Within "password" (Openable answer)) acc) {keys : List String}
    (h : data'.sections (acc.adjust "database" (openBlock answer)) keys = .ok incoming) :
    ∃ merged, data.sections acc keys = .ok merged ∧
      Holds "database" (Within "password" (Openable answer)) merged ∧
      incoming = merged.adjust "database" (openBlock answer) := by
  induction keys generalizing acc with
  | nil => exact ⟨acc, rfl, hacc, (Except.ok.inj h).symm⟩
  | cons key rest ih =>
    rw [sections] at h
    split at h
    · cases h
    next own' hown' =>
    obtain ⟨own, hown, hholds, rfl⟩ : ∃ own, data.section? key = .ok own ∧
        Holds "database" (Within "password" (Openable answer)) own ∧
        own' = own.adjust "database" (openBlock answer) := by
      rcases (section_eq_ok_iff hdata').mp hown' with hnode | ⟨hnull, rfl⟩
      · rw [Entries.find?_mapValues] at hnode
        obtain ⟨b, hb, hopen⟩ := Option.map_eq_some_iff.mp hnode
        cases b with
        | node own =>
          refine ⟨own, (section_eq_ok_iff hdata).mpr (.inl hb), ?_, ?_⟩
          · exact hfields _ (Entries.mem_of_find? hb) own rfl
          · exact (Blueprint.node.inj hopen).symm
        | _ => cases hopen
      · rw [Entries.find?_mapValues] at hnull
        obtain ⟨b, hb, hopen⟩ := Option.map_eq_some_iff.mp hnull
        refine ⟨[], (section_eq_ok_iff hdata).mpr (.inr ⟨?_, rfl⟩),
          fun e he ↦ absurd he List.not_mem_nil, rfl⟩
        cases b with
        | node own => cases hopen
        | _ => rw [hb]; exact congrArg some hopen
    obtain ⟨hmerged, heq⟩ := (Blueprint.mergeable_openBlock answer).mergeFields_adjust hacc hholds
    rw [heq] at h
    obtain ⟨merged, hsections, hrest⟩ := ih hmerged h
    refine ⟨merged, ?_, hrest⟩
    rw [sections, hown]
    exact hsections

end Tree

/-! ## Reading -/

/-- If what is answered is a function of the secret, then so are the answers. -/
theorem Interview.answers_eq {l : Loader} {m : Memory} {secrets : List Secret} {w w' : World}
    {answers : List Blueprint} {g : Secret → Blueprint}
    (h : Interview l m secrets w answers (.ok () w'))
    (hg : ∀ s ∈ secrets, ∀ w p w₁, l.password s.stored w = .ok p w₁ →
      (w₁.memory.view p).content = g s) : answers = secrets.map g := by
  generalize hr : EStateM.Result.ok () w' = r at h
  induction h with
  | done => rfl
  | failed => cases hr
  | refused => cases hr
  | answered _ hasked _ _ _ ih =>
    rw [List.map_cons, ih (fun s hs ↦ hg s (List.mem_cons_of_mem _ hs)) hr,
      hg _ List.mem_cons_self _ _ _ hasked]

namespace Loader

variable {l : Loader} {w w₀ w₁ w₂ : World} {path : String} {v : Value} {data n c : NodeId}

/-- What a stored password is decrypted to; nothing if that fails. -/
def decrypted (decrypt : Value → Except Failure Value) : Blueprint → Blueprint
  | .scalar s =>
    match decrypt (.scalar s) with
    | .ok (.scalar t) => .scalar t
    | _ => .scalar .null
  | p => p

/-- Each password in the contents of a file is a scalar that is decrypted to a text. -/
def Decryptable (decrypt : Value → Except Failure Value) (fields : Entries Blueprint) : Prop :=
  ∀ e ∈ Blueprint.passwords fields, ∃ s t, e.2 = .scalar s ∧ decrypt (.scalar s) = .ok (.text t)

variable {decrypt : Value → Except Failure Value}

theorem settled_decrypted {p : Blueprint} (hp : p.Settled) : (decrypted decrypt p).Settled := by
  cases hp with
  | scalar s =>
    rw [decrypted]
    split <;> exact .scalar _
  | set items => exact .set items
  | list hall => exact .list hall
  | node hall => exact .node hall

theorem Decryptable.openable {fields : Entries Blueprint} (h : Decryptable decrypt fields)
    (hfields : (Blueprint.node fields).Distinct) :
    ∀ e ∈ fields, Within "database" (Within "password" (Openable (decrypted decrypt))) e.2 := by
  refine Blueprint.within_of_passwords hfields fun e he ↦ ?_
  obtain ⟨s, t, hs, ht⟩ := h e he
  exact ⟨s, t, hs, by rw [hs, decrypted, ht]⟩

/-- What is answered about secrets that can be decrypted. -/
theorem answers_decrypted {m : Memory} {secrets : List Secret} {w w' : World}
    {answers : List Blueprint} (h : Interview l m secrets w answers (.ok () w'))
    (hpassword : l.password = fun v ↦ ofOutcome (decrypt v)) (hm : m.forest.Sound)
    (hsecrets : ∀ s ∈ secrets, ∃ a t, (m.view s.stored).content = .scalar a ∧
      decrypt (.scalar a) = .ok (.text t)) :
    answers = secrets.map fun s ↦ decrypted decrypt (m.view s.stored).content := by
  refine h.answers_eq fun s hs u p u₁ hasked ↦ ?_
  obtain ⟨a, t, ha, ht⟩ := hsecrets s hs
  -- a scalar is asked about as it stands in the document
  have hstored : s.stored = .scalar a := hm.eq_scalar_of_view (Tree.eq_scalar_of_content ha)
  rw [hpassword, hstored] at hasked
  have hasked : ofOutcome (decrypt (.scalar a)) u = .ok p u₁ := hasked
  rw [ht] at hasked
  cases hasked
  rw [ha, decrypted, ht]
  rfl

/-- A file that can be read holds a document of which a tree can be made. -/
theorem create_of_readFrom (hdocument : l.readDocument path w = .ok v w₁)
    (hread : l.readFrom path w = .ok n w₂) : ∃ c m, Node.create v w₁.memory = .ok c m := by
  rw [readFrom, bind_of_ok hdocument] at hread
  obtain ⟨c, _, hmake, -⟩ := bind_eq_ok.mp hread
  obtain ⟨m, hcreate, -⟩ := onMemory_eq_ok (x := Node.create v) hmake
  exact ⟨c, m, hcreate⟩

/-- **Reading a file** whose passwords can be decrypted opens its sections. -/
theorem content_of_data (hw : w.memory.forest.Sound) (hfresh : (w.memo l.number).data = none)
    (hpath : l.path w = .ok path w₀) (hdocument : l.readDocument path w₀ = .ok v w₁)
    (hplain : v.Plain) (hpassword : l.password = fun v ↦ ofOutcome (decrypt v))
    (hpasswords : Decryptable decrypt (w₁.memory.view v).fields)
    (hdata : l.data w = .ok data w₂) :
    (∃ m, Node.create v w₁.memory = .ok data m) ∧ w₁.memory.forest.Sound ∧
      w₂.memory.Parsed data ∧ w₂.memory.forest.frozen data = true ∧
      (w₂.memory.view (.node data)).content
        = .node ((w₁.memory.view v).fields.mapValues (openSection (decrypted decrypt))) := by
  rw [data_eq_readAnew hfresh hpath] at hdata
  obtain ⟨n, w₃, hread, hkeep⟩ := bind_eq_ok.mp hdata
  cases hkeep
  have hw₀ : w₀.memory.forest.Sound := by rwa [(scene_path.of_ok hpath).1]
  have hw₁ := (((composite_discreet.readDocument path).keeps.of_ok hdocument).follows hw₀).sound
  obtain ⟨c, m, hcreate⟩ := create_of_readFrom hdocument hread
  obtain ⟨answers, r, hinterview, hfailed, hend⟩ :=
    readFrom_eq_interview hw₀ hdocument hplain hcreate (respects_of_decrypt c hpassword)
  cases r with
  | error failure w' =>
    rw [hfailed failure w' rfl] at hread
    cases hread
  | ok _ w' =>
    obtain ⟨hread', hsound, hmem, -, hcontent⟩ := hend w' rfl
    rw [hread'] at hread
    cases hread
    have hdraft := draft_of_create hw₁ hcreate
    have hsecrets := Memory.passwords_content hdraft.sound data
    rw [hdraft.content] at hsecrets
    have hanswers : answers = (Blueprint.passwords (w₁.memory.view v).fields).map
        fun e ↦ decrypted decrypt e.2 := by
      rw [answers_decrypted hinterview hpassword hdraft.sound fun s hs ↦ ?_, hsecrets, List.map_map]
      · rfl
      · refine hpasswords (s.title, (m.view s.stored).content) ?_
        rw [hsecrets]
        exact List.mem_map.mpr ⟨s, hs, rfl⟩
    have hdistinct : (Blueprint.node (w₁.memory.view v).fields).Distinct :=
      (hw₁.distinct_view v).fields
    rw [hanswers, Blueprint.revealed_eq_openSection hdistinct] at hcontent
    have hsettled := (drafted_create hw₁ hplain hcreate).parsed.settled
    rw [hdraft.content_view] at hsettled
    have hopened := (hsound.content_freeze data data).trans hcontent
    refine ⟨⟨m, hcreate⟩, hw₁, ⟨hsound.freeze data, Forest.mem_freeze.mpr hmem, ?_⟩,
      hsound.frozen_freeze_of_reaches (.refl _ data), hopened⟩
    refine (congrArg Blueprint.Settled hopened).mpr (.node fun e he ↦ ?_)
    obtain ⟨a, ha, rfl⟩ := List.mem_map.mp he
    exact (hsettled.fields a ha).openSection fun p ↦ settled_decrypted

/-! ## Merging first -/

/-- Decrypts the password of a block, if it counts as set. -/
def decryptPassword (l : Loader) (block : NodeId) : Action Unit := do
  if ← onMemory (Node.present block [.text "password"]) then
    let password ← l.password (← onMemory (Node.get block (.text "password")))
    onMemory (Node.set block (.text "password") password)

/-- The database settings for an environment, where the sections are merged as the document has
them, and then the password of the merged block is decrypted. -/
def lateBlock (l : Loader) (environment document : Value) : Action Value := do
  let data ← (Node.create document : Eval NodeId)
  let n ← (mergeSections environment data : Eval NodeId)
  match ← onMemory (Node.get n (.text "database")) with
  | .node block =>
    l.decryptPassword block
    onMemory (Node.toMapping block)
  | v => return v

/-- What counts as set and is decrypted to a text is a scalar. -/
theorem exists_text_of_openable {p : Blueprint} (h : Openable (decrypted decrypt) p)
    (hset : p.tree.truthy = true) :
    ∃ s t, p = .scalar s ∧ decrypt (.scalar s) = .ok (.text t) := by
  rcases h with hunset | ⟨s, t, rfl, ht⟩
  · rw [hset] at hunset
    cases hunset
  · refine ⟨s, t, rfl, ?_⟩
    rw [decrypted] at ht
    split at ht
    · next heq => rw [heq, Blueprint.scalar.inj ht]
    · cases ht

/-- Decrypting the password of a block opens the block. -/
theorem decryptPassword_of_draft {m₀ : Memory} {block : Entries Blueprint}
    (hpassword : l.password = fun v ↦ ofOutcome (decrypt v)) (hdraft : Draft m₀ w.memory c block)
    (hp : w.memory.Parsed c)
    (hopenable : Holds "password" (Openable (decrypted decrypt)) block) :
    ∃ m', l.decryptPassword c w = .ok () { w with memory := m' } ∧ m'.Parsed c ∧
      (m'.view (.node c)).content = openBlock (decrypted decrypt) (.node block) := by
  have hkeys : block.keys.Nodup := by
    have hdistinct := (hdraft.sound.distinct_view (.node c)).content
    rw [← Memory.view, hdraft.content_view] at hdistinct
    cases hdistinct with
    | node hkeys _ => exact hkeys
  have hpresent : onMemory (Node.present c [.text "password"]) w = .ok _ w :=
    onMemory_of_ok (hp.present_key "password")
  have hfind := Memory.find?_of_content hdraft.sound hdraft.content_view "password"
  rw [decryptPassword, bind_of_ok hpresent]
  cases hx : w.memory.forest.find? c "password" with
  | none =>
    rw [hx] at hfind
    rw [Blueprint.openBlock_of_none hkeys (by rw [← hfind]; rfl)]
    exact ⟨w.memory, rfl, hp, hdraft.content_view⟩
  | some x =>
    rw [hx, Option.map_some] at hfind
    have htruthy : (w.memory.view x).content.tree.truthy = w.memory.forest.truthy x := by
      rw [Tree.truthy_content, Memory.truthy_view hdraft.sound]
    rw [Option.any_some, ← htruthy]
    cases hset : (w.memory.view x).content.tree.truthy with
    | false =>
      rw [Blueprint.openBlock_of_none hkeys (by rw [← hfind, Option.filter_some, hset]; rfl)]
      exact ⟨w.memory, rfl, hp, hdraft.content_view⟩
    | true =>
      have hmem := Entries.mem_of_find? hfind.symm
      obtain ⟨s, t, hcontent, ht⟩ := exists_text_of_openable (hopenable _ hmem rfl) hset
      obtain rfl : x = .scalar s :=
        hdraft.sound.eq_scalar_of_view (Tree.eq_scalar_of_content hcontent)
      have hget : onMemory (Node.get c (.text "password")) w = .ok (.scalar s) w :=
        onMemory_of_ok (hp.get_eq (.refl hp.sound) hx)
      have hasked : l.password (.scalar s) w = .ok (.text t) w := by
        rw [hpassword]
        exact congrArg (ofOutcome · w) ht
      obtain ⟨m', hwritten, -, hdraft'⟩ : ∃ m',
          Node.set c (.text "password") (.text t) w.memory = .ok () m' ∧
            m'.computations = w.memory.computations ∧
            Draft m₀ m' c (block.put "password" (.scalar (.text t))) :=
        hdraft.set (.scalar (.text t))
      refine ⟨m', ?_, ⟨hdraft'.sound, hdraft'.mem, ?_⟩, ?_⟩
      · rw [if_pos rfl, bind_of_ok hget, bind_of_ok hasked]
        exact onMemory_of_ok hwritten
      · have hfields := hp.settled
        rw [hdraft.content_view] at hfields
        rw [hdraft'.content_view]
        exact .node (.put hfields.fields (.scalar (.text t)) "password")
      · rw [hdraft'.content_view, Blueprint.openBlock_of_some hkeys hfind.symm hset]
        have hopened : decrypted decrypt (.scalar s) = .scalar (.text t) := by rw [decrypted, ht]
        exact congrArg (fun p ↦ Blueprint.node (block.put "password" p)) hopened.symm

/-- **Merging first** opens the block of the merged sections. -/
theorem lateBlock_of_sections {environment : Option String} {m : Memory}
    {merged block : Entries Blueprint} (hpassword : l.password = fun v ↦ ofOutcome (decrypt v))
    (hcreate : Node.create v w.memory = .ok data m) (hp : m.Parsed data)
    (hsections : (m.view (.node data)).sections [] (sectionNames environment) = .ok merged)
    (hdatabase : merged.find? "database" = some (.node block))
    (hopenable : Holds "password" (Openable (decrypted decrypt)) block) :
    ∃ w', l.lateBlock (environmentValue environment) v w
      = .ok (openBlock (decrypted decrypt) (.node block)).plain w' := by
  obtain ⟨n, m₁, hmerge, hdraft⟩ := mergeSections_of_ok environment hp hsections
  have hsettled :=
    Tree.settled_sections hp.settled (fun e he ↦ absurd he List.not_mem_nil) hsections
  have hparsed : m₁.Parsed n := ⟨hdraft.sound, hdraft.mem, hdraft.content_view ▸ .node hsettled⟩
  have hfind := Memory.find?_of_content hdraft.sound hdraft.content_view "database"
  rw [hdatabase] at hfind
  obtain ⟨x, hx, hcontent⟩ := Option.map_eq_some_iff.mp hfind
  obtain ⟨c, rfl⟩ := Memory.eq_node_of_content
    (hdraft.sound.uniform n _ (Entries.mem_of_find? hx)) hcontent
  have hblock : Draft m m₁ c block := by
    have hchild := hdraft.child hx
    rwa [Blueprint.node.inj (hchild.content_view.symm.trans hcontent)] at hchild
  let w₁ : World := { w with memory := m₁ }
  obtain ⟨m₂, hdecrypt, hp₂, hopened⟩ : ∃ m₂, l.decryptPassword c w₁
        = .ok () { w₁ with memory := m₂ } ∧ m₂.Parsed c ∧
      (m₂.view (.node c)).content = openBlock (decrypted decrypt) (.node block) :=
    decryptPassword_of_draft hpassword hblock (hparsed.child hx) hopenable
  have hmapping := Node.toMapping_of_settled hp₂.sound hp₂.mem hp₂.settled
  rw [hopened] at hmapping
  have hmade : onMemory (Node.create v) w = .ok data { w with memory := m } :=
    onMemory_of_ok hcreate
  have hmerged : onMemory (mergeSections (environmentValue environment) data) { w with memory := m }
      = .ok n w₁ := onMemory_of_ok hmerge
  have hget : onMemory (Node.get n (.text "database")) w₁ = .ok (.node c) w₁ :=
    onMemory_of_ok (hparsed.get_eq (.refl hparsed.sound) hx)
  have hwritten : onMemory (Node.toMapping c) { w with memory := m₂ }
      = .ok _ { w with memory := m₂ } := onMemory_of_ok hmapping
  refine ⟨{ w with memory := m₂ },
    (bind_of_ok hmade).trans ((bind_of_ok hmerged).trans ((bind_of_ok hget).trans ?_))⟩
  exact (bind_of_ok hdecrypt).trans hwritten

/-- **Decrypting before the merge is decrypting after it.** Say the passwords that the document has
are scalars that are decrypted to texts. If a configuration could be loaded for an environment, and
its database settings are a node, then they are written out as what comes of merging the sections
as the document has them and decrypting the one password that is left. -/
theorem load_decrypts_late {u u₁ u₂ : World} {m : Memory} {environment : Option String}
    (hw : w.memory.forest.Sound) (hfresh : (w.memo l.number).data = none)
    (hpath : l.path w = .ok path w₀) (hdocument : l.readDocument path w₀ = .ok v w₁)
    (hplain : v.Plain) (hpassword : l.password = fun v ↦ ofOutcome (decrypt v))
    (hpasswords : Decryptable decrypt (w₁.memory.view v).fields) (hversion : l.Informs)
    (hdata : l.data w = .ok data w₂) (hknown : l.data u = .ok data u₁)
    (hlater : Forest.Later w₂.memory.forest u₁.memory.forest)
    (hload : l.load (environmentValue environment) u = .ok n u₂)
    (hblock : Node.get n (.text "database") u₂.memory = .ok (.node c) m) :
    ∃ x m', Node.toMapping c m = .ok x m' ∧ ∀ z : World, z.memory.forest.Sound →
      ∃ z', l.lateBlock (environmentValue environment) v z = .ok x z' := by
  obtain ⟨⟨_, hcreate⟩, hw₁, hparsed, hfrozen, hcontent⟩ :=
    content_of_data hw hfresh hpath hdocument hplain hpassword hpasswords hdata
  have hview : u₁.memory.view (.node data) = w₂.memory.view (.node data) :=
    hlater.view_of_frozen hparsed.sound hparsed.mem hfrozen
  have hp : u₁.memory.Parsed data :=
    ⟨hlater.sound, hlater.mem hparsed.mem, hview ▸ hparsed.settled⟩
  obtain ⟨merged', version, fields, m₁, hsections', -, rfl, -, hreads, hmemory⟩ :=
    given_of_load hversion hknown hp hload
  rw [hmemory] at hblock
  obtain ⟨b, hb, hsealed, hm⟩ := hreads.find?_of_get hblock
  rw [Entries.find?_put_of_ne (by decide), Derived.find?_values_of_not_mem (by decide)] at hb
  have hsettled : b.Settled := Tree.settled_sections hp.settled
    (fun e he ↦ absurd he List.not_mem_nil) hsections' _ (Entries.mem_of_find? hb)
  have hnode : (m.view (.node c)).content = .node _ := Memory.content_node_eq hm c
  rw [hsealed.content] at hnode
  subst hnode
  have hanswers : ∀ e ∈ (m.forest.fields c).mapValues Tree.content,
      e.2.Settled ∨ ∃ d, e.2 = .deferred d ∧ m.Answers d .null :=
    fun e he ↦ .inl (hsettled.fields e he)
  obtain ⟨m', hmapping, -⟩ := Node.toMapping_of_content hm hsealed.content hanswers
  rw [Entries.mapValues_eq_self fun e he ↦ (hsettled.fields e he).answered_eq _] at hmapping
  refine ⟨_, m', hmapping, fun z hz ↦ ?_⟩
  have hsame : z.memory.view v = w₁.memory.view v := hplain.graft_eq _ _
  obtain ⟨d, z₁, hmade, hdraft⟩ := draft_of_view hz hsame hcreate
  have hdistinct : (Blueprint.node (w₁.memory.view v).fields).Distinct :=
    (hw₁.distinct_view v).fields
  have hopened : (u₁.memory.view (.node data)).content = _ := hview ▸ hcontent
  obtain ⟨merged, hsections, hholds, rfl⟩ := Tree.sections_opened hdraft.content_view hopened
    (hpasswords.openable hdistinct) (fun e he ↦ absurd he List.not_mem_nil) hsections'
  rw [Entries.find?_adjust] at hb
  obtain ⟨old, hold, hopen⟩ := Option.map_eq_some_iff.mp hb
  rw [if_pos rfl] at hopen
  obtain ⟨block, rfl⟩ : ∃ block, old = .node block := by
    cases old with
    | node block => exact ⟨block, rfl⟩
    | _ => cases hopen
  rw [← hopen]
  exact lateBlock_of_sections hpassword hmade (drafted_create hz hplain hmade).parsed hsections hold
    (hholds _ (Entries.mem_of_find? hold) rfl block rfl)

open Katello in
set_option maxRecDepth 20000 in
/-- The settings for production of a file whose one password is decrypted. -/
theorem load_decrypts_late_sample : ∃ (document : Value) (n c : NodeId) (u : World) (m : Memory),
    capitalLoader.load (environmentValue (some "production")) (worldOf sampleDocument) = .ok n u ∧
    Node.get n (.text "database") u.memory = .ok (.node c) m ∧
    ∃ x m', Node.toMapping c m = .ok x m' ∧ ∀ z : World, z.memory.forest.Sound →
      ∃ z', capitalLoader.lateBlock (environmentValue (some "production")) document z = .ok x z' := by
  let passwords : Action Bool := do
    let path ← capitalLoader.path
    let document ← capitalLoader.readDocument path
    let fields := ((← get).memory.view document).fields
    return (Blueprint.passwords fields).all fun e ↦ e.2.isText
  obtain ⟨w', hpasswords⟩ := exists_ok_of_result?
    (by decide +kernel : result? passwords (worldOf sampleDocument) = some true)
  obtain ⟨path, w₀, hpath, hrest⟩ := bind_eq_ok.mp hpasswords
  obtain ⟨v, w₁, hdocument, hrest⟩ := bind_eq_ok.mp hrest
  obtain ⟨hall, -⟩ := EStateM.Result.ok.inj hrest
  have hdecryptable : Decryptable Value.upper (w₁.memory.view v).fields := by
    intro e he
    obtain ⟨s, hs⟩ := Blueprint.eq_text_of_isText (List.all_eq_true.mp hall e he)
    exact ⟨.text s, _, hs, rfl⟩
  have hplain : v.Plain := by
    refine plain_readDocument (fun v hv ↦ ?_) hdocument
    rw [(scene_path.of_ok hpath).2] at hv
    obtain ⟨place, hplace⟩ := FileSystem.mem_of_find? hv
    exact plain_of_worldOf plain_sampleDocument place v hplace
  have hsupplied : capitalLoader.Supplied :=
    supplied_of_decrypt rfl rfl VersionResolver.textual_default
  let held : Action Bool := do
    let n ← capitalLoader.load (environmentValue (some "production"))
    match ← onMemory (Node.get n (.text "database")) with
    | .node _ => return true
    | _ => return false
  obtain ⟨w', hheld⟩ := exists_ok_of_result?
    (by decide +kernel : result? held (worldOf sampleDocument) = some true)
  obtain ⟨n, u, hload, hrest⟩ := bind_eq_ok.mp hheld
  obtain ⟨x, u', hread, hrest⟩ := bind_eq_ok.mp hrest
  obtain ⟨m, hget, rfl⟩ := onMemory_eq_ok hread
  obtain ⟨c, rfl⟩ : ∃ c, x = .node c := by
    cases x with
    | node c => exact ⟨c, rfl⟩
    | _ => cases hrest
  obtain ⟨data, w₂, hdata, -⟩ := bind_eq_ok.mp hload
  obtain ⟨-, -, hparsed, -⟩ := content_of_data Forest.sound_empty rfl hpath hdocument hplain rfl
    hdecryptable hdata
  exact ⟨v, n, c, u, m, hload, hget, load_decrypts_late Forest.sound_empty rfl hpath hdocument hplain
    rfl hdecryptable hsupplied.telling.informs hdata hdata (.refl hparsed.sound) hload hget⟩

end Loader

end LayeredConfig
