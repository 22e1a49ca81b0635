import LayeredConfig.Proofs.Loader.Promises
import LayeredConfig.Proofs.Loader.Supply
import LayeredConfig.Proofs.Loader.Twins

/-!
# Revealing touches the passwords and nothing else

Reading a file asks for the password behind every secret, in the order of the sections, and writes
each answer where the password was. `Interview` says how the asking goes: one question for each
secret, about what the file says, and none after one that failed. A collaborator may answer
anything, and may even write to what it was asked about; it only has to leave the rest of the tree
alone, which is `Loader.Respects`.

The invariant of the loop is `Memory.Halfway`: the sections that are done hold the answers, and what
stands below those that are still to come has not been touched. It holds on because the sections are
trees that share nothing.
-/

namespace LayeredConfig

open Memory (Follows Reruns)

/-- What the loader of the given number remembers is the same. -/
def World.SameMemo (number : ℕ) (w w' : World) : Prop := w'.memo number = w.memo number

instance (number : ℕ) : IsPreorder World (World.SameMemo number) where
  refl _ := rfl
  trans _ _ _ h h' := Eq.trans h' h

/-- Of the tree below the node, the collaborator that is asked for passwords changes nothing but
what it is asked about. It uses nodes through their operations only, and it leaves alone what the
loader remembers. -/
structure Loader.Respects (l : Loader) (n : NodeId) : Prop where
  follows : ∀ v, Keeps (fun w w' : World ↦ w.memory.Follows w'.memory) (l.password v)
  memo_eq : ∀ v, Keeps (World.SameMemo l.number) (l.password v)
  cell_eq : ∀ v w c, w.memory.forest.Reaches n c →
    (∀ a ∈ v.nodes, ¬w.memory.forest.Reaches a c) →
      (after (l.password v) w).memory.forest.cell c = w.memory.forest.cell c

/-- What is composed of actions that write no memo writes none. -/
theorem composite_sameMemo (R : Memory → Memory → Prop) (number : ℕ) :
    Composite R fun _ x ↦ Keeps (World.SameMemo number) x :=
  .keeps (fun _ _ _ ↦ rfl) (fun _ _ _ ↦ rfl) fun _ _ ↦ rfl

namespace Loader

variable {l : Loader}

/-- A collaborator that changes no node respects every tree. -/
theorem respects_of_reruns (n : NodeId)
    (hreruns : ∀ v, Keeps (fun w w' : World ↦ Reruns w.memory w'.memory) (l.password v))
    (hmemo : ∀ v, Keeps (World.SameMemo l.number) (l.password v)) : l.Respects n where
  follows v w := .of_forest_eq (hreruns v w).forest_eq
  memo_eq := hmemo
  cell_eq v w c _ _ := by rw [(hreruns v w).forest_eq]

/-- A collaborator that only computes, or fails, respects every tree. -/
theorem respects_of_decrypt (n : NodeId) {decrypt : Value → Except Failure Value}
    (hpassword : l.password = fun v ↦ ofOutcome (decrypt v)) : l.Respects n := by
  apply respects_of_reruns n <;> intro v <;> rw [hpassword]
  · have hquiet : Keeps (World.Quiet l.number) (ofOutcome (decrypt v)) :=
      composite_quiet.ofOutcome _
    exact fun w ↦ (hquiet w).reruns
  · exact (composite_sameMemo Reruns l.number).ofOutcome (decrypt v)

/-- **The collaborators that come with the loader** respect every tree, however they reply. -/
theorem respects_of_ask (n : NodeId) {r : Reply} (hpassword : l.password = askPassword r) :
    l.Respects n := by
  have hask : ∀ {P : (α : Type) → Action α → Prop}, Composite Reruns P → ∀ v,
      P Value (l.password v) := by
    intro P hP v
    rw [hpassword]
    exact hP.bind (hP.emit Memory.reruns_event _) fun _ ↦ hP.reply Memory.reruns_event r v
  apply respects_of_reruns n <;> intro v
  · have hquiet : Keeps (World.Quiet l.number) (l.password v) := hask composite_quiet v
    exact fun w ↦ (hquiet w).reruns
  · exact hask (composite_sameMemo Reruns l.number) v

end Loader

/-- How asking about the given secrets goes: every question is about what stands in the memory `m`,
the answers are written as they come, and the first failure is the last that happens. -/
inductive Interview (l : Loader) (m : Memory) :
    List Secret → World → List Blueprint → EStateM.Result Failure World Unit → Prop
  /-- Nobody is asked about anything else. -/
  | done (w : World) : Interview l m [] w [] (.ok () w)
  /-- There is no answer. -/
  | failed {s : Secret} {rest : List Secret} {w w' : World} {failure : Failure}
      (same : w.memory.view s.stored = m.view s.stored)
      (asked : l.password s.stored w = .error failure w') :
      Interview l m (s :: rest) w [] (.error failure w')
  /-- The answer cannot be stored. -/
  | refused {s : Secret} {rest : List Secret} {w w₁ w' : World} {p : Value} {failure : Failure}
      (same : w.memory.view s.stored = m.view s.stored)
      (asked : l.password s.stored w = .ok p w₁)
      (written : onMemory (Node.set s.holder (.text "password") p) w₁ = .error failure w') :
      Interview l m (s :: rest) w [] (.error failure w')
  /-- The answer takes the place of the password. -/
  | answered {s : Secret} {rest : List Secret} {w w₁ w₂ w₃ : World} {p : Value}
      {answers : List Blueprint} {r : EStateM.Result Failure World Unit}
      (same : w.memory.view s.stored = m.view s.stored)
      (asked : l.password s.stored w = .ok p w₁)
      (written : onMemory (Node.set s.holder (.text "password") p) w₁ = .ok () w₂)
      (noted : record .debug "database_password_decrypted" [("section", .text s.title)] w₂
        = .ok () w₃)
      (next : Interview l m rest w₃ answers r) :
      Interview l m (s :: rest) w ((w₁.memory.view p).content :: answers) r

namespace Memory

variable {m m' m₁ m₂ : Memory} {n : NodeId} {title : String} {content : Value}
  {done : Entries Blueprint} {rest : Entries Value}

/-- A section whose block got another password, and nothing else, holds what it held with that
password. -/
theorem content_of_password (hm : m.forest.Sound) (hm' : m'.forest.Sound) {a : NodeId} {s : Secret}
    (hs : m.secret? title (.node a) = some s)
    (hframe : ∀ c, m.forest.Reaches a c → ¬m.forest.Reaches s.holder c →
      m'.forest.cell c = m.forest.cell c)
    {t : Tree} (hpassword : m'.forest.fields s.holder
      = (m.forest.fields s.holder).put "password" t) :
    (m'.view (.node a)).content = (m.view (.node a)).content.withPassword t.content := by
  obtain ⟨_, ⟨⟩, -, hdatabase, -, -⟩ := eq_of_secret hs
  have hblock : ((m.forest.fields a).mapValues Tree.content).find? "database"
      = some (.node ((m.forest.fields s.holder).mapValues Tree.content)) := by
    rw [← content_node_eq hm s.holder, ← find?_of_content hm (content_node_eq hm a), hdatabase,
      Option.map_some]
  have hsection := hm.fields_eq_put hm' hdatabase fun c hc hbc ↦
    hframe c hc (hbc _ List.mem_cons_self)
  rw [content_node_eq hm, Blueprint.withPassword_node hblock, content_node_eq hm', hsection,
    Entries.mapValues_put, hm'.view_eq_fields, Tree.content_node, hpassword, Entries.mapValues_put]

/-- The loop over the sections of the tree that stood in the memory `m` has come to the given ones:
those before hold what is said, and below those to come nothing was touched. -/
structure Halfway (m : Memory) (n : NodeId) (m' : Memory) (done : Entries Blueprint)
    (rest : Entries Value) : Prop where
  sound : m'.forest.Sound
  mem : n ∈ m'.forest
  entries_eq : m'.forest.entries n = m.forest.entries n
  listed : ∀ e ∈ rest, e ∈ m.forest.entries n
  apart : ∀ e ∈ rest, ∀ a ∈ e.2.nodes, ∀ c, m.forest.Reaches a c →
    m'.forest.cell c = m.forest.cell c
  content : (m'.forest.fields n).mapValues Tree.content
    = done ++ rest.mapValues fun v ↦ (m.view v).content

namespace Halfway

/-- At the start nothing was touched. -/
theorem start (hm : m.Parsed n) : Halfway m n m [] (m.forest.entries n) where
  sound := hm.sound
  mem := hm.mem
  entries_eq := rfl
  listed _ he := he
  apart _ _ _ _ _ _ := rfl
  content := by rw [Forest.fields, Entries.mapValues_mapValues]; rfl

theorem mem_entries (h : Halfway m n m' done rest) {e : String × Value} (he : e ∈ rest) :
    e ∈ m'.forest.entries n := h.entries_eq ▸ h.listed e he

theorem nodup_keys (h : Halfway m n m' done rest) : (done.keys ++ rest.keys).Nodup := by
  have hkeys : (m'.forest.fields n).keys.Nodup := by
    rw [Forest.fields, Entries.keys_mapValues]
    exact h.sound.distinct n
  rw [← Entries.keys_mapValues Tree.content, h.content, Entries.keys, List.map_append] at hkeys
  rwa [← Entries.keys_mapValues (fun v ↦ (m.view v).content) rest]

variable (h : Halfway m n m' done ((title, content) :: rest))

include h

theorem view_eq (hm : m.forest.Sound) {e : String × Value} (he : e ∈ (title, content) :: rest) :
    m'.view e.2 = m.view e.2 :=
  hm.view_congr h.sound fun a ha c hc ↦ h.apart e he a ha c hc

/-- A section without a secret is passed over. -/
theorem skip : Halfway m n m' (done ++ [(title, (m.view content).content)]) rest where
  sound := h.sound
  mem := h.mem
  entries_eq := h.entries_eq
  listed e he := h.listed e (List.mem_cons_of_mem _ he)
  apart e he := h.apart e (List.mem_cons_of_mem _ he)
  content := by
    rw [h.content, Entries.mapValues_cons, List.append_assoc]
    rfl

/-- What other sections to come reach is reached by none of the first one. -/
theorem not_reaches {e : String × Value} (he : e ∈ rest) {a c d : NodeId} (ha : a ∈ e.2.nodes)
    (hd : d ∈ content.nodes) (hac : m'.forest.Reaches a c) : ¬m'.forest.Reaches d c := by
  have hfirst := h.mem_entries List.mem_cons_self
  have hother := h.mem_entries (List.mem_cons_of_mem _ he)
  have hne : a ≠ d := by
    rintro rfl
    -- the same node stands under the same key only, and no key comes twice
    have hkey : e.1 = title := congrArg Prod.fst (h.sound.entry_eq hother hfirst ha hd)
    obtain ⟨htitle, -⟩ := List.nodup_cons.mp (List.nodup_append.mp h.nodup_keys).2.1
    exact htitle (hkey ▸ List.mem_map.mpr ⟨e, he, rfl⟩)
  exact h.sound.not_reaches_of_ne (List.mem_flatMap.mpr ⟨e, hother, ha⟩)
    (List.mem_flatMap.mpr ⟨_, hfirst, hd⟩) hne hac

/-- The secret of the next section is the one that it had at the start. -/
theorem secret_eq {s : Secret} (hs : m.secret? title content = some s) :
    m'.secret? title content = some s := (secret_congr (h.apart _ List.mem_cons_self)).trans hs

/-- The block that a secret stands in can still be written. -/
theorem holder_open (hopen : m.forest.Open n) {s : Secret}
    (hs : m.secret? title content = some s) : m'.forest.frozen s.holder = false := by
  obtain ⟨a, rfl, -, hdatabase, -, -⟩ := eq_of_secret hs
  have hholder : m.forest.Reaches a s.holder :=
    .head (Forest.mem_children_of_find? hdatabase List.mem_cons_self) (.refl _ _)
  have hchild : a ∈ m.forest.children n :=
    List.mem_flatMap.mpr ⟨_, h.listed _ List.mem_cons_self, List.mem_cons_self⟩
  rw [Forest.frozen, h.apart _ List.mem_cons_self a List.mem_cons_self _ hholder]
  exact hopen _ (.head hchild hholder)

/-- The tree reaches the section, and the section the block that its secret stands in. -/
theorem reaches_holder {s : Secret} (hs : m.secret? title content = some s) :
    ∃ a, content = .node a ∧ a ∈ m'.forest.children n ∧ m'.forest.Reaches a s.holder := by
  obtain ⟨a, rfl, -, hdatabase, -, -⟩ := eq_of_secret (h.secret_eq hs)
  exact ⟨a, rfl, List.mem_flatMap.mpr ⟨_, h.mem_entries List.mem_cons_self, List.mem_cons_self⟩,
    .head (Forest.mem_children_of_find? hdatabase List.mem_cons_self) (.refl _ _)⟩

/-- Once the block of its secret holds another password, and nothing else that the tree reaches
has changed, the section is done with. -/
theorem advance (hm : m.forest.Sound) {s : Secret} (hs : m.secret? title content = some s)
    (hsound : m₂.forest.Sound) (hmem : n ∈ m₂.forest)
    (hframe : ∀ c, m'.forest.Reaches n c → ¬m'.forest.Reaches s.holder c →
      m₂.forest.cell c = m'.forest.cell c)
    {t : Tree} (hpassword : m₂.forest.fields s.holder
      = (m'.forest.fields s.holder).put "password" t) :
    Halfway m n m₂ (done ++ [(title, (m.view content).content.withPassword t.content)]) rest := by
  have hview := h.view_eq hm List.mem_cons_self
  have hfind := Entries.find?_of_mem (h.sound.distinct n) (h.mem_entries List.mem_cons_self)
  obtain ⟨a, rfl, hchild, hab⟩ := h.reaches_holder hs
  refine ⟨hsound, hmem, ?_, fun e he ↦ h.listed e (List.mem_cons_of_mem _ he), ?_, ?_⟩
  · have hcell := hframe n (.refl _ n) fun hr ↦
      h.sound.not_reaches_of_mem_children hchild (hab.trans hr)
    rw [← h.entries_eq, Forest.entries, hcell]
    rfl
  · intro e he x hx c hc
    have hkept := h.apart e (List.mem_cons_of_mem _ he) x hx
    have hxc : m'.forest.Reaches x c := hc.of_cell_eq hkept
    have hnx : x ∈ m'.forest.children n :=
      List.mem_flatMap.mpr ⟨e, h.mem_entries (List.mem_cons_of_mem _ he), hx⟩
    rw [hframe c (.head hnx hxc) fun hbc ↦
      h.not_reaches he hx List.mem_cons_self hxc (hab.trans hbc), hkept c hc]
  · have htree := h.sound.fields_eq_put hsound hfind fun c hc hac ↦
      hframe c hc fun hbc ↦ hac a List.mem_cons_self (hab.trans hbc)
    have hcontent : (m₂.forest.view (.node a)).content
        = (m.view (.node a)).content.withPassword t.content := by
      rw [← hview]
      exact content_of_password h.sound hsound (h.secret_eq hs)
        (fun c hc ↦ hframe c (.head hchild hc)) hpassword
    have htitle : title ∉ done.keys := fun htitle ↦
      (List.nodup_append.mp h.nodup_keys).2.2 title htitle title List.mem_cons_self rfl
    rw [htree, Entries.mapValues_put, h.content, Entries.mapValues_cons,
      Entries.put_append_cons htitle, hcontent, List.append_assoc]
    rfl

/-- **Writing an answer** changes the section that the secret stands in, and there only the
password. What happens before may change what the secret is, and nothing else below the tree. -/
theorem write (hm : m.forest.Sound) (hopen : m.forest.Open n) {s : Secret}
    (hs : m.secret? title content = some s) (hlater : Forest.Later m'.forest m₁.forest)
    (hframe : ∀ c, m'.forest.Reaches n c → (∀ x ∈ s.stored.nodes, ¬m'.forest.Reaches x c) →
      m₁.forest.cell c = m'.forest.cell c)
    {p : Value} (hp : (m₁.view p).WellKeyed) :
    ∃ g, Node.set s.holder (.text "password") p m₁ = .ok () { m₁ with forest := g } ∧
      Halfway m n { m₁ with forest := g }
        (done ++ [(title, (m.view content).content.withPassword (m₁.view p).content)]) rest := by
  obtain ⟨a, rfl, hchild, hab⟩ := h.reaches_holder hs
  obtain ⟨_, -, -, -, hstored, -⟩ := eq_of_secret (h.secret_eq hs)
  have hnb : m'.forest.Reaches n s.holder := .head hchild hab
  have hblock : m₁.forest.cell s.holder = m'.forest.cell s.holder := hframe _ hnb fun x hx ↦
    h.sound.not_reaches_of_mem_children (Forest.mem_children_of_find? hstored hx)
  have hwritable : m₁.forest.frozen s.holder = false := by
    rw [Forest.frozen, hblock, ← Forest.frozen]
    exact h.holder_open hopen hs
  obtain ⟨g, t, hwrite, hfields, hcopy⟩ := hlater.sound.write_fields hwritable hp "password"
  have hedited := hlater.sound.edited_write hwritable "password" p
  rw [after_of_ok hwrite] at hedited
  -- all that is not below the block is what it was
  have hrest : ∀ c, m'.forest.Reaches n c → ¬m'.forest.Reaches s.holder c →
      g.cell c = m'.forest.cell c := by
    intro c hc hbc
    have hmem := h.sound.mem_of_reaches h.mem hc
    rw [hedited.frame (hlater.mem hmem) fun hr ↦ hbc (hlater.reaches hmem hr)]
    exact hframe c hc fun x hx hxc ↦ hbc (.head (Forest.mem_children_of_find? hstored hx) hxc)
  have hpassword : g.fields s.holder = (m'.forest.fields s.holder).put "password" t := by
    rw [hfields, h.sound.fields_eq_put hlater.sound hstored fun c hc ↦ hframe c (hnb.trans hc),
      Entries.put_put]
  refine ⟨g, ?_, ?_⟩
  · rw [← Forest.assign_of_writable hwritable] at hwrite
    exact onForest_of_ok hwrite
  · have hcontent : t.content = (m₁.view p).content := hcopy.content
    rw [← hcontent]
    exact h.advance hm hs hedited.sound (hedited.mem (hlater.mem h.mem)) hrest hpassword

/-- What is asked about next is what the file says. -/
theorem view_stored (hm : m.forest.Sound) {s : Secret} (hs : m.secret? title content = some s) :
    m'.view s.stored = m.view s.stored := by
  obtain ⟨a, rfl, -, hdatabase, hstored, -⟩ := eq_of_secret hs
  refine hm.view_congr h.sound fun x hx c hc ↦ ?_
  have hxc : m.forest.Reaches s.holder c := .head (Forest.mem_children_of_find? hstored hx) hc
  exact h.apart _ List.mem_cons_self a List.mem_cons_self c
    (.head (Forest.mem_children_of_find? hdatabase List.mem_cons_self) hxc)

/-- The section to come holds no computation. -/
theorem parsed (hm : m.Parsed n) {a : NodeId} (ha : content = .node a) : m'.Parsed a := by
  subst ha
  have hchild : m.forest.find? n title = some (.node a) :=
    Entries.find?_of_mem (hm.sound.distinct n) (h.listed _ List.mem_cons_self)
  have hmem : a ∈ m'.forest.children n :=
    List.mem_flatMap.mpr ⟨_, h.mem_entries List.mem_cons_self, List.mem_cons_self⟩
  refine ⟨h.sound, (h.sound.younger hmem).2, ?_⟩
  rw [h.view_eq hm.sound List.mem_cons_self]
  exact hm.settled_of_find? hchild

end Halfway

end Memory

namespace Loader

variable {l : Loader} {w : World} {m : Memory} {n : NodeId}

/-- **Revealing one secret** is the first question of an interview. Either it is the last one, too,
or the section holds the answer and the interview goes on. -/
theorem interview_reveal (hl : l.Respects n) (hm : m.forest.Sound) (hopen : m.forest.Open n)
    {title : String} {content : Value} {done : Entries Blueprint} {rest : Entries Value}
    (h : m.Halfway n w.memory done ((title, content) :: rest)) {s : Secret}
    (hs : m.secret? title content = some s) :
    (∃ failure w', l.reveal s w = .error failure w' ∧
      ∀ secrets, Interview l m (s :: secrets) w [] (.error failure w')) ∨
    ∃ answer w', l.reveal s w = .ok () w' ∧
      m.Halfway n w'.memory (done ++ [(title, (m.view content).content.withPassword answer)]) rest ∧
      ∀ secrets answers r, Interview l m secrets w' answers r →
        Interview l m (s :: secrets) w (answer :: answers) r := by
  have hsame := h.view_stored hm hs
  cases hasked : l.password s.stored w with
  | error failure w' =>
    exact .inl ⟨failure, w', bind_of_error hasked, fun _ ↦ .failed hsame hasked⟩
  | ok p w₁ =>
    cases hwritten : onMemory (Node.set s.holder (.text "password") p) w₁ with
    | error failure w' =>
      exact .inl ⟨failure, w', (bind_of_ok hasked).trans (bind_of_error hwritten),
        fun _ ↦ .refused hsame hasked hwritten⟩
    | ok u w₂ =>
      obtain ⟨m₂, hset, rfl⟩ := onMemory_eq_ok hwritten
      have hlater := (hl.follows s.stored).of_ok hasked h.sound
      obtain ⟨g, hset', hhalfway⟩ := h.write hm hopen hs hlater (fun c hc hx ↦ by
        rw [← hl.cell_eq s.stored w c hc hx, after_of_ok hasked]) (Node.wellKeyed_of_set hset)
      obtain ⟨-, rfl⟩ := EStateM.Result.ok.inj (hset.symm.trans hset')
      obtain ⟨w₃, hnoted, hmemory⟩ : ∃ w₃,
          record .debug "database_password_decrypted" [("section", .text s.title)]
            { w₁ with memory := { w₁.memory with forest := g } } = .ok () w₃ ∧
          w₃.memory = { w₁.memory with forest := g } := ⟨_, rfl, rfl⟩
      rw [← hmemory] at hhalfway
      exact .inr ⟨_, w₃, (bind_of_ok hasked).trans ((bind_of_ok hwritten).trans hnoted), hhalfway,
        fun _ _ _ ↦ .answered hsame hasked hwritten hnoted⟩

/-- **The loop over the sections is an interview** about the secrets that they have. If it comes to
an end, then every section with a secret holds the answer. -/
theorem interview_sections (hl : l.Respects n) (hm : m.Parsed n) (hopen : m.forest.Open n)
    {done : Entries Blueprint} {rest : Entries Value} (h : m.Halfway n w.memory done rest) :
    ∃ answers,
      Interview l m (rest.filterMap fun e ↦ m.secret? e.1 e.2) w answers
        ((rest.forM fun e ↦ l.revealPassword e.1 e.2 : Action Unit) w) ∧
      ∀ w', (rest.forM fun e ↦ l.revealPassword e.1 e.2 : Action Unit) w = .ok () w' →
        answers.length = (rest.filterMap fun e ↦ m.secret? e.1 e.2).length ∧
        m.Halfway n w'.memory
          (done ++ Blueprint.revealed (rest.mapValues fun v ↦ (m.view v).content) answers) [] := by
  induction rest generalizing w done with
  | nil =>
    refine ⟨[], .done w, fun w' hw' ↦ ?_⟩
    cases hw'
    refine ⟨rfl, ?_⟩
    rw [Entries.mapValues, List.map_nil, Blueprint.revealed, List.append_nil]
    exact h
  | cons e rest ih =>
    obtain ⟨title, content⟩ := e
    have hloop : (((title, content) :: rest).forM fun e ↦ l.revealPassword e.1 e.2 : Action Unit) w
        = (do
          l.revealPassword title content
          rest.forM fun e ↦ l.revealPassword e.1 e.2 : Action Unit) w := rfl
    have hreveal : l.revealPassword title content w = _ :=
      revealPassword_eq fun a ha ↦ h.parsed hm ha
    rw [Memory.secret_congr (h.apart _ List.mem_cons_self)] at hreveal
    have huniform := hm.sound.uniform n _ (h.listed _ List.mem_cons_self)
    have hpassword := Memory.password_content hm.sound huniform title
    rw [hloop, List.filterMap_cons, Entries.mapValues_cons]
    dsimp only
    cases hs : m.secret? title content with
    | none =>
      rw [hs] at hreveal hpassword
      obtain ⟨answers, hinterview, hend⟩ := ih h.skip
      rw [bind_of_ok hreveal]
      refine ⟨answers, hinterview, fun w' hw' ↦ ?_⟩
      obtain ⟨hlength, hhalfway⟩ := hend w' hw'
      rw [List.append_assoc] at hhalfway
      rw [Blueprint.revealed_of_none hpassword]
      exact ⟨hlength, hhalfway⟩
    | some s =>
      rw [hs] at hreveal hpassword
      have hsteps : l.revealPassword title content w = l.reveal s w := hreveal
      rcases interview_reveal hl hm.sound hopen h hs with
        ⟨failure, w', hfailed, hlast⟩ | ⟨answer, w₁, hanswered, hhalfway, hnext⟩
      · rw [bind_of_error (hsteps.trans hfailed)]
        exact ⟨[], hlast _, fun _ hw' ↦ by cases hw'⟩
      · obtain ⟨answers, hinterview, hend⟩ := ih hhalfway
        rw [bind_of_ok (hsteps.trans hanswered)]
        refine ⟨_, hnext _ _ _ hinterview, fun w' hw' ↦ ?_⟩
        obtain ⟨hlength, hhalfway⟩ := hend w' hw'
        rw [List.append_assoc] at hhalfway
        rw [Blueprint.revealed_of_some hpassword]
        exact ⟨congrArg Nat.succ hlength, hhalfway⟩

/-- **Reading a file is an interview** between making the tree of the document and freezing it. -/
theorem readFrom_eq_interview {w₁ : World} {path : String} {v : Value}
    (hw : w.memory.forest.Sound) (hdocument : l.readDocument path w = .ok v w₁) (hplain : v.Plain)
    (hcreate : Node.create v w₁.memory = .ok n m) (hl : l.Respects n) :
    ∃ answers r, Interview l m (m.secrets n) { w₁ with memory := m } answers r ∧
      (∀ failure w₂, r = .error failure w₂ → l.readFrom path w = .error failure w₂) ∧
      ∀ w₂, r = .ok () w₂ →
        l.readFrom path w = .ok n
          { w₂ with memory := { w₂.memory with forest := w₂.memory.forest.freeze n } } ∧
        w₂.memory.forest.Sound ∧ n ∈ w₂.memory.forest ∧
        answers.length = (m.secrets n).length ∧
        (w₂.memory.view (.node n)).content
          = .node (Blueprint.revealed (w₁.memory.view v).fields answers) := by
  have hsound := (((composite_discreet.readDocument path).keeps.of_ok hdocument).follows hw).sound
  have hdraft := draft_of_create hsound hcreate
  have hparsed := (drafted_create hsound hplain hcreate).parsed
  obtain ⟨answers, hinterview, hend⟩ :=
    interview_sections hl hparsed hdraft.writable (w := { w₁ with memory := m }) (.start hparsed)
  have hrun : l.readFrom path w = (do
      (m.forest.entries n).forM fun e ↦ l.revealPassword e.1 e.2
      onMemory (Node.freeze n)
      return n : Action NodeId) { w₁ with memory := m } := by
    have hmade : onMemory (Node.create v) w₁ = .ok n { w₁ with memory := m } :=
      onMemory_of_ok hcreate
    have hitems : onMemory (Node.items n) { w₁ with memory := m }
        = .ok (m.forest.entries n) { w₁ with memory := m } := onMemory_of_ok hparsed.items
    rw [readFrom, bind_of_ok hdocument]
    exact (bind_of_ok hmade).trans (bind_of_ok hitems)
  refine ⟨answers, _, hinterview, fun failure w₂ hr ↦ ?_, fun w₂ hr ↦ ?_⟩
  · rw [hrun, bind_of_error hr]
  · obtain ⟨hlength, hhalfway⟩ := hend w₂ hr
    refine ⟨?_, hhalfway.sound, hhalfway.mem, hlength, ?_⟩
    · rw [hrun, bind_of_ok hr]
      rfl
    · rw [Memory.content_node_eq hhalfway.sound, hhalfway.content, ← hdraft.content, Forest.fields,
        Entries.mapValues_mapValues, List.nil_append]
      exact congrArg Blueprint.node (List.append_nil _)

/-- Reads the file at a path and remembers what it holds. -/
def readAnew (l : Loader) (path : String) : Action NodeId := do
  let n ← l.readFrom path
  modify fun w ↦ { w with memos := w.memos.modify l.number (View.data.keep n) }
  return n

/-- Finding the file changes nothing that is remembered but the path. -/
theorem memo_of_path {w₀ : World} {path : String} (hmade : l.number < w.memos.size)
    (hpath : l.path w = .ok path w₀) :
    w₀.memo l.number = { w.memo l.number with path := some path } := by
  cases hs : l.sought w with
  | none =>
    rw [path_of_not_sought hs] at hpath
    cases hpath
  | some p =>
    obtain ⟨v, hv, -, -, hmemo⟩ := path_of_sought hmade hs
    rw [hv] at hpath
    cases hpath
    exact hmemo

/-- As long as its contents are not remembered, the file is read anew. -/
theorem data_eq_readAnew {w₀ : World} {path : String} (hfresh : (w.memo l.number).data = none)
    (hpath : l.path w = .ok path w₀) : l.data w = l.readAnew path w₀ := by
  have hrun : l.data w = _ := remembered_of_unknown hfresh
  rw [readData, bind_assoc, bind_of_ok hpath] at hrun
  exact hrun

open Blueprint (surface) in
/-- **The secrets of the file are revealed, and nothing else is touched.** Say the file at the path
holds a document, and `n` is the tree that is made of it. Asking for the contents of the file asks
about each secret of that tree once, in the order of the sections and with what the document says,
and about nothing else. If that fails, then the call fails with the same failure; the contents are
not remembered, and the next call reads the file anew. Otherwise the tree is given out frozen. Under
every path that does not lead to or through a secret there is the same as in the frozen tree of the
document, with the keys in their order, and each secret has been replaced by its answer. -/
theorem data_reveals {w₀ w₁ : World} {path : String} {v : Value} (hw : w.memory.forest.Sound)
    (hmade : l.number < w.memos.size) (hfresh : (w.memo l.number).data = none)
    (hpath : l.path w = .ok path w₀) (hdocument : l.readDocument path w₀ = .ok v w₁)
    (hplain : v.Plain) (hcreate : Node.create v w₁.memory = .ok n m) (hl : l.Respects n) :
    (m.secrets n).map (fun s ↦ (s.title, (m.view s.stored).content))
      = Blueprint.passwords (w₁.memory.view v).fields ∧
    ∃ answers r, Interview l m (m.secrets n) { w₁ with memory := m } answers r ∧
      (∀ failure w₂, r = .error failure w₂ →
        l.data w = .error failure w₂ ∧ (w₂.memo l.number).data = none ∧
        l.data w₂ = l.readAnew path w₂) ∧
      ∀ w₂, r = .ok () w₂ → ∃ w',
        l.data w = .ok n w' ∧
        w'.memory = { w₂.memory with forest := w₂.memory.forest.freeze n } ∧
        w'.memory.forest.Sound ∧ w'.memory.forest.frozen n = true ∧
        answers.length = (m.secrets n).length ∧
        (∀ p, (∀ s ∈ m.secrets n, ¬s.path <+: p) →
          ((w'.memory.view (.node n)).content.at? p).map surface
            = (((m.forest.freeze n).view (.node n)).content.at? p).map surface) ∧
        ∀ x ∈ (m.secrets n).zip answers,
          (w'.memory.view (.node n)).content.at? x.1.path = some x.2 := by
  obtain ⟨hmemory, -⟩ := scene_path.of_ok hpath
  rw [← hmemory] at hw
  have hmemo := memo_of_path hmade hpath
  have hrun := data_eq_readAnew hfresh hpath
  have hsound := (((composite_discreet.readDocument path).keeps.of_ok hdocument).follows hw).sound
  have hdraft := draft_of_create hsound hcreate
  have hpasswords := Memory.passwords_content hdraft.sound n
  have hkeys : (w₁.memory.view v).fields.keys.Nodup := by
    rw [← hdraft.content, Entries.keys_mapValues, Forest.fields, Entries.keys_mapValues]
    exact hdraft.sound.distinct n
  rw [hdraft.content] at hpasswords
  obtain ⟨answers, r, hinterview, hfailed, hend⟩ :=
    readFrom_eq_interview hw hdocument hplain hcreate hl
  refine ⟨hpasswords.symm, answers, r, hinterview, fun failure w₂ hr ↦ ?_, fun w₂ hr ↦ ?_⟩
  · have hread := hfailed failure w₂ hr
    have hkept : w₂.memo l.number = w₀.memo l.number :=
      ((composite_sameMemo Follows l.number).readFrom hl.memo_eq path).of_error hread
    have hunknown : (w₂.memo l.number).data = none := by rw [hkept, hmemo, hfresh]
    have hfound : l.path w₂ = .ok path w₂ := by
      refine remembered_of_known ?_
      rw [hkept, hmemo]
      rfl
    exact ⟨hrun.trans (bind_of_error hread), hunknown, data_eq_readAnew hunknown hfound⟩
  · obtain ⟨hread, hsound₂, hmem, hlength, hcontent⟩ := hend w₂ hr
    have hgiven : ((w₂.memory.forest.freeze n).view (.node n)).content
        = .node (Blueprint.revealed (w₁.memory.view v).fields answers) :=
      (hsound₂.content_freeze n n).trans hcontent
    have hdocument : ((m.forest.freeze n).view (.node n)).content
        = .node (w₁.memory.view v).fields :=
      (hdraft.sound.content_freeze n n).trans hdraft.content_view
    refine ⟨_, hrun.trans (bind_of_ok hread), rfl, hsound₂.freeze n,
      hsound₂.frozen_freeze_of_reaches (.refl _ n), hlength, fun p hp ↦ ?_, fun x hx ↦ ?_⟩
    · rw [hdocument]
      refine (congrArg (fun b : Blueprint ↦ (b.at? p).map surface) hgiven).trans ?_
      refine Blueprint.surface_at?_revealed hkeys ?_ fun e he ↦ ?_
      · rw [hpasswords, List.length_map, hlength]
      · rw [hpasswords] at he
        obtain ⟨s, hs, rfl⟩ := List.mem_map.mp he
        exact hp s hs
    · refine (congrArg (fun b : Blueprint ↦ b.at? x.1.path) hgiven).trans ?_
      have hzip : ((x.1.title, (m.view x.1.stored).content), x.2)
          ∈ (Blueprint.passwords (w₁.memory.view v).fields).zip answers := by
        rw [hpasswords, List.zip_map_left]
        exact List.mem_map.mpr ⟨x, hx, rfl⟩
      exact Blueprint.at?_revealed hkeys hzip

/-- A loader whose passwords are stored in lower case. -/
def capitalLoader : Loader :=
  { Katello.sampleLoader with password := fun v ↦ ofOutcome v.upper }

open Katello in
set_option maxRecDepth 20000 in
/-- The password of a file with one secret is the answer about it. -/
theorem data_reveals_sample : ∃ (m : Memory) (n : NodeId) (answers : List Blueprint) (w' : World),
    capitalLoader.data (worldOf sampleDocument) = .ok n w' ∧
    (m.secrets n).map Secret.title = ["production"] ∧ answers.length = (m.secrets n).length ∧
    w'.memory.forest.frozen n = true ∧
    ∀ x ∈ (m.secrets n).zip answers,
      (w'.memory.view (.node n)).content.at? x.1.path = some x.2 := by
  let titles : Action (List String) := do
    let path ← capitalLoader.path
    let document ← capitalLoader.readDocument path
    let n ← onMemory (Node.create document)
    return ((← get).memory.secrets n).map Secret.title
  obtain ⟨w₂, htitles⟩ := exists_ok_of_result?
    (by decide +kernel : result? titles (worldOf sampleDocument) = some ["production"])
  obtain ⟨path, w₀, hpath, hrest⟩ := bind_eq_ok.mp htitles
  obtain ⟨v, w₁, hdocument, hrest⟩ := bind_eq_ok.mp hrest
  obtain ⟨n, _, hmake, hrest⟩ := bind_eq_ok.mp hrest
  obtain ⟨m, hcreate, rfl⟩ := onMemory_eq_ok hmake
  obtain ⟨htitles, -⟩ := EStateM.Result.ok.inj hrest
  have hplain : v.Plain := by
    refine plain_readDocument (fun v hv ↦ ?_) hdocument
    rw [(scene_path.of_ok hpath).2] at hv
    obtain ⟨place, hplace⟩ := FileSystem.mem_of_find? hv
    exact plain_of_worldOf plain_sampleDocument place v hplace
  obtain ⟨_, answers, r, _, hfailed, hend⟩ :=
    data_reveals Forest.sound_empty (by decide) rfl hpath hdocument hplain hcreate
      (respects_of_decrypt n rfl)
  obtain ⟨d, w', hdata⟩ := exists_ok_of_succeeds
    (by decide +kernel : succeeds capitalLoader.data (worldOf sampleDocument) = true)
  cases r with
  | error failure w₂ =>
    rw [(hfailed failure w₂ rfl).1] at hdata
    cases hdata
  | ok u w₂ =>
    obtain ⟨w'', hgiven, _, _, hfrozen, hlength, _, hanswers⟩ := hend w₂ rfl
    exact ⟨m, n, answers, w'', hgiven, htitles, hlength, hfrozen, hanswers⟩

end Loader

end LayeredConfig
