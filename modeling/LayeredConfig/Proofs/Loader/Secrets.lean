import LayeredConfig.Proofs.Loader.Calm
import LayeredConfig.Proofs.Loader.Sections
import LayeredConfig.Proofs.Tree.Secrets

/-!
# The secrets of a file

A secret is a password that counts as set, in the database block of a section. Which secrets a tree
has can be read off its nodes, and looking for one runs no computation: revealing the password of a
section does nothing if there is no secret, and otherwise it asks for the password once and writes
what it is told.
-/

namespace LayeredConfig

/-- A password that stands in a section. -/
structure Secret where
  title : String
  /-- The database block that it stands in. -/
  holder : NodeId
  stored : Value

/-- Where the password stands in the file. -/
def Secret.path (s : Secret) : List String := [s.title, "database", "password"]

namespace Memory

/-- The secret of a section. -/
def secret? (m : Memory) (title : String) : Value → Option Secret
  | .node a =>
    match m.forest.find? a "database" with
    | some (.node b) => ((m.forest.find? b "password").filter m.forest.truthy).map (⟨title, b, ·⟩)
    | _ => none
  | _ => none

/-- The secrets of a file, in the order of the sections. -/
def secrets (m : Memory) (n : NodeId) : List Secret :=
  (m.forest.entries n).filterMap fun e ↦ m.secret? e.1 e.2

variable {m m' : Memory} {n : NodeId} {title : String} {v : Value} {s : Secret}

/-- A section with a secret has a database block that the password stands in. -/
theorem eq_of_secret (h : m.secret? title v = some s) :
    ∃ a, v = .node a ∧ s.title = title ∧
      m.forest.find? a "database" = some (.node s.holder) ∧
      m.forest.find? s.holder "password" = some s.stored ∧ m.forest.truthy s.stored = true := by
  unfold secret? at h
  split at h
  · next a =>
    split at h
    · next b hb =>
      obtain ⟨stored, hstored, rfl⟩ := Option.map_eq_some_iff.mp h
      obtain ⟨hfind, htruthy⟩ := Option.filter_eq_some_iff.mp hstored
      exact ⟨a, rfl, rfl, hb, hfind, htruthy⟩
    · cases h
  · cases h

/-- Whether there is a secret depends only on the nodes below the section. -/
theorem secret_congr
    (h : ∀ a ∈ v.nodes, ∀ c, m.forest.Reaches a c → m'.forest.cell c = m.forest.cell c) :
    m'.secret? title v = m.secret? title v := by
  cases v with
  | node a =>
    have hfind : ∀ {c}, m.forest.Reaches a c → ∀ key,
        m'.forest.find? c key = m.forest.find? c key := by
      intro c hc key
      rw [Forest.find?, Forest.entries, h a List.mem_cons_self c hc]
      rfl
    rw [secret?, secret?, hfind (.refl _ a)]
    cases hdatabase : m.forest.find? a "database" with
    | none => rfl
    | some d =>
      cases d with
      | node b =>
        have hb : m.forest.Reaches a b :=
          .head (Forest.mem_children_of_find? hdatabase List.mem_cons_self) (.refl _ b)
        dsimp only
        rw [hfind hb]
        cases hpassword : m.forest.find? b "password" with
        | none => rfl
        | some p =>
          have htruthy : m'.forest.truthy p = m.forest.truthy p := by
            cases p with
            | node c =>
              have hc : m.forest.Reaches a c :=
                hb.tail (Forest.mem_children_of_find? hpassword List.mem_cons_self)
              rw [Forest.truthy, Forest.truthy, Forest.entries, h a List.mem_cons_self c hc]
              rfl
            | _ => rfl
          rw [Option.filter_some, Option.filter_some, htruthy]
      | _ => rfl
  | _ => rfl

/-- What is stored has fields only if it is a node. -/
theorem eq_node_of_content {kind : SeqKind} (hv : v.Uniform kind)
    {fields : Entries Blueprint} (h : (m.view v).content = .node fields) : ∃ c, v = .node c := by
  by_contra hnode
  obtain ⟨branches, hb, -⟩ := Tree.branches_of_content h
  have hother : ∀ c, v ≠ .node c := fun c hc ↦ hnode ⟨c, hc⟩
  rw [Memory.view, Forest.branches_view_of_uniform hv hother] at hb
  cases hb

/-- The secret of a section is the password in its content. -/
theorem password_content (hm : m.forest.Sound) {kind : SeqKind} (hv : v.Uniform kind)
    (title : String) :
    (m.view v).content.password? = (m.secret? title v).map fun s ↦ (m.view s.stored).content := by
  by_cases hnode : ∃ a, v = .node a
  · obtain ⟨a, rfl⟩ := hnode
    have hcontent := content_node_eq hm
    rw [hcontent, Blueprint.password?, ← find?_of_content hm (hcontent a), secret?]
    cases hdatabase : m.forest.find? a "database" with
    | none => rfl
    | some d =>
      have hd := hm.uniform a ("database", d) (Entries.mem_of_find? hdatabase)
      rw [Option.map_some]
      cases hblock : (m.view d).content with
      | node block =>
        obtain ⟨b, rfl⟩ := eq_node_of_content hd hblock
        dsimp only
        rw [← find?_of_content hm hblock]
        cases m.forest.find? b "password" with
        | none => rfl
        | some p =>
          rw [Option.map_some, Option.filter_some, Option.filter_some, Tree.truthy_content,
            truthy_view hm]
          cases m.forest.truthy p <;> rfl
      | _ =>
        cases d with
        | node b => rw [hcontent] at hblock; cases hblock
        | _ => rfl
  · -- what is no node has neither a secret nor fields
    have hsecret : m.secret? title v = none := by
      cases v with
      | node a => exact absurd ⟨a, rfl⟩ hnode
      | _ => rfl
    rw [hsecret, Option.map_none]
    unfold Blueprint.password?
    split
    · next fields heq => exact absurd (eq_node_of_content hv heq) hnode
    · rfl

/-- **The secrets of a tree are the passwords in its content**, in the same order. -/
theorem passwords_content (hm : m.forest.Sound) (n : NodeId) :
    Blueprint.passwords ((m.forest.fields n).mapValues Tree.content)
      = (m.secrets n).map fun s ↦ (s.title, (m.view s.stored).content) := by
  rw [Blueprint.passwords, secrets, Forest.fields, Entries.mapValues_mapValues, Entries.mapValues,
    List.filterMap_map, List.map_filterMap]
  refine List.filterMap_congr fun e he ↦ ?_
  change Option.map _ (m.view e.2).content.password? = _
  rw [password_content hm (hm.uniform n e he) e.1, Option.map_map]
  cases hs : m.secret? e.1 e.2 with
  | none => rfl
  | some s =>
    obtain ⟨_, _, htitle, _⟩ := eq_of_secret hs
    rw [Option.map_some, Option.map_some, Function.comp_apply, htitle]

end Memory

/-! ## Revealing one -/

namespace Memory.Parsed

variable {m : Memory} {data : NodeId} (hp : m.Parsed data)

include hp

theorem present_key (key : String) :
    Node.present data [.text key] m
      = .ok ((m.forest.find? data key).any m.forest.truthy) m := by
  refine (hp.present (List.cons_ne_nil key [])).trans ?_
  rw [hp.at?_view]
  cases hv : m.forest.find? data key with
  | none => rfl
  | some v => rw [Option.map_some, Option.any_some, Option.any_some, Memory.truthy_view hp.sound]

end Memory.Parsed

namespace Loader

variable {l : Loader} {w : World} {title : String} {content : Value}

/-- Asks for the password behind a secret and writes what it is told. -/
def reveal (l : Loader) (s : Secret) : Action Unit := do
  let password ← l.password s.stored
  onMemory (Node.set s.holder (.text "password") password)
  record .debug "database_password_decrypted" [("section", .text s.title)]

/-- **Revealing the password of a section** reveals the secret that it has, and does nothing if it
has none. -/
theorem revealPassword_eq (hparsed : ∀ a, content = .node a → w.memory.Parsed a) :
    l.revealPassword title content w
      = (w.memory.secret? title content).elim (pure ()) l.reveal w := by
  cases content with
  | node a =>
    have ha := hparsed a rfl
    have hpresent := onMemory_of_ok (ha.present_key "database")
    rw [revealPassword, bind_of_ok hpresent, Memory.secret?]
    cases hv : w.memory.forest.find? a "database" with
    | none => rfl
    | some v =>
      have hget := onMemory_of_ok (ha.get_eq (.refl ha.sound) hv)
      rw [Option.any_some]
      cases v with
      | node b =>
        have hb := ha.child hv
        have hpresent := onMemory_of_ok (hb.present_key "password")
        cases hset : w.memory.forest.truthy (.node b) with
        | false =>
          -- a block without keys has no password either
          have hempty : w.memory.forest.entries b = [] := by
            simpa [Forest.truthy] using hset
          have hnone : w.memory.forest.find? b "password" = none := by
            rw [Forest.find?, hempty]
            rfl
          dsimp only
          rw [hnone]
          rfl
        | true =>
          rw [if_pos rfl, bind_of_ok hget]
          dsimp only
          rw [bind_of_ok hpresent]
          cases hstored : w.memory.forest.find? b "password" with
          | none => rfl
          | some stored =>
            rw [Option.any_some, Option.filter_some]
            cases w.memory.forest.truthy stored with
            | false => rfl
            | true =>
              rw [if_pos rfl, bind_of_ok (onMemory_of_ok (hb.get_eq (.refl hb.sound) hstored))]
              rfl
      | _ =>
        split
        · rw [bind_of_ok hget]
          rfl
        · rfl
  | _ => rfl

end Loader

end LayeredConfig
