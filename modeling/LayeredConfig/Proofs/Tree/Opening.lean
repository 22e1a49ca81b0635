import LayeredConfig.Proofs.Tree.Overlay
import LayeredConfig.Proofs.Tree.Secrets

/-!
# Opening passwords before or after a merge

A merge looks at a value only to see whether it is a node and whether it is nothing. A change of
values that keeps both apart can be made before the merge or after it (`Blueprint.Mergeable`), and
then so can the change of what stands under one key of a node (`Mergeable.within`).

Opening the passwords of the sections is such a change two levels down. It commutes with merging as
long as only scalars are opened and texts come out: a password that were a node, or that opened to
nothing, could take part in a merge differently before it is opened and after.
-/

namespace LayeredConfig

/-! ## What stands under one key -/

namespace Entries

variable {α : Type} {entries : Entries α} {key : String} {value : α}

/-- The entries with a change made to what stands under one key. -/
def adjust (key : String) (f : α → α) (entries : Entries α) : Entries α :=
  entries.map fun e ↦ (e.1, if e.1 = key then f e.2 else e.2)

@[simp] theorem adjust_cons (key : String) (f : α → α) (e : String × α) (rest : Entries α) :
    adjust key f (e :: rest) = (e.1, if e.1 = key then f e.2 else e.2) :: adjust key f rest := rfl

@[simp] theorem find?_adjust (key : String) (f : α → α) (k : String) (entries : Entries α) :
    (adjust key f entries).find? k
      = (entries.find? k).map fun v ↦ if k = key then f v else v := by
  induction entries with
  | nil => rfl
  | cons e rest ih =>
    obtain ⟨j, v⟩ := e
    rw [adjust_cons, find?, find?]
    by_cases hj : j = k
    · subst hj
      simp
    · rw [if_neg hj, if_neg hj, ih]

/-- A write is changed as what is written. -/
theorem adjust_put (key : String) (f : α → α) (k : String) (value : α) (entries : Entries α) :
    adjust key f (put k value entries)
      = put k (if k = key then f value else value) (adjust key f entries) := by
  induction entries with
  | nil => rfl
  | cons e rest ih =>
    obtain ⟨j, v⟩ := e
    rw [put, adjust_cons, put]
    by_cases hj : j = k
    · subst hj
      simp
    · rw [if_neg hj, if_neg hj, adjust_cons, ih]

theorem adjust_eq_self {f : α → α} (h : ∀ e ∈ entries, e.1 = key → f e.2 = e.2) :
    adjust key f entries = entries := by
  refine (List.map_congr_left fun e he ↦ ?_).trans (List.map_id entries)
  by_cases hkey : e.1 = key
  · rw [if_pos hkey, h e he hkey, id]
  · rw [if_neg hkey, id]

/-- Where no key stands twice, the change is a write. -/
theorem adjust_eq_put (hkeys : entries.keys.Nodup) (h : entries.find? key = some value)
    (f : α → α) : adjust key f entries = put key (f value) entries := by
  induction entries with
  | nil => cases h
  | cons e rest ih =>
    obtain ⟨j, v⟩ := e
    rw [keys, List.map_cons, List.nodup_cons] at hkeys
    rw [find?] at h
    rw [adjust_cons, put]
    by_cases hj : j = key
    · subst hj
      rw [if_pos rfl] at h
      have hrest : adjust j f rest = rest := adjust_eq_self fun e he hkey ↦
        absurd (List.mem_map.mpr ⟨e, he, hkey⟩) hkeys.1
      rw [if_pos rfl, if_pos rfl, hrest, Option.some.inj h]
    · rw [if_neg hj] at h
      rw [if_neg hj, if_neg hj, ih hkeys.2 h]

end Entries

namespace Blueprint

variable {P : Blueprint → Prop} {f : Blueprint → Blueprint}
  {old incoming fields : Entries Blueprint} {o : Option Blueprint} {b : Blueprint} {key : String}

/-! ## Changes that commute with merging -/

/-- Merged values of this kind are of this kind, and the change may be made to them before the merge
as well as after it. -/
structure Mergeable (P : Blueprint → Prop) (f : Blueprint → Blueprint) : Prop where
  closed : ∀ {o b}, (∀ c, o = some c → P c) → P b → P (merge o b)
  merge_eq : ∀ {o b}, (∀ c, o = some c → P c) → P b → merge (o.map f) (f b) = f (merge o b)

/-- Two nodes are merged, nothing leaves a node as it is, and otherwise the new value counts. -/
theorem merge_cases (o : Option Blueprint) (b : Blueprint) :
    (∃ old fields, o = some (.node old) ∧ b = .node fields) ∨
    (∃ old, o = some (.node old) ∧ b = .scalar .null) ∨
    ((∀ old, o ≠ some (.node old)) ∨ b ≠ .scalar .null ∧ ∀ fields, b ≠ .node fields) := by
  by_cases ho : ∃ old, o = some (.node old)
  · obtain ⟨old, rfl⟩ := ho
    by_cases hnull : b = .scalar .null
    · exact .inr (.inl ⟨old, rfl, hnull⟩)
    by_cases hnode : ∃ fields, b = .node fields
    · obtain ⟨fields, rfl⟩ := hnode
      exact .inl ⟨old, fields, rfl, rfl⟩
    · exact .inr (.inr (.inr ⟨hnull, fun fields hb ↦ hnode ⟨fields, hb⟩⟩))
  · exact .inr (.inr (.inl fun old hold ↦ ho ⟨old, hold⟩))

/-- A change commutes with merging if it tells nodes, nothing and all else apart as before, and
commutes with merging two nodes. -/
theorem mergeable_of_nodes
    (hnode : ∀ b, P b → ((∃ fields, f b = .node fields) ↔ ∃ fields, b = .node fields))
    (hnull : ∀ b, P b → (f b = .scalar .null ↔ b = .scalar .null))
    (hmerge : ∀ old fields, P (.node old) → P (.node fields) →
      P (.node (mergeFields old fields)) ∧
        merge (some (f (.node old))) (f (.node fields)) = f (.node (mergeFields old fields))) :
    Mergeable P f := by
  have hboth : ∀ {o b}, (∀ c, o = some c → P c) → P b →
      P (merge o b) ∧ merge (o.map f) (f b) = f (merge o b) := by
    intro o b ho hb
    rcases merge_cases o b with ⟨old, fields, rfl, rfl⟩ | ⟨old, rfl, rfl⟩ | hreplaced
    · rw [merge]
      exact hmerge old fields (ho _ rfl) hb
    · obtain ⟨old', hold'⟩ := (hnode _ (ho _ rfl)).mpr ⟨old, rfl⟩
      rw [(hnull _ hb).mpr rfl, merge, Option.map_some, hold', merge]
      exact ⟨ho _ rfl, rfl⟩
    · have hkept : merge o b = b := hreplaced.elim merge_of_ne fun h ↦ merge_of_plain h.1 h.2
      have hchanged : merge (o.map f) (f b) = f b := by
        rcases hreplaced with hold | ⟨hother, hfields⟩
        · refine merge_of_ne fun fields hmap ↦ ?_
          obtain ⟨c, rfl, hc⟩ := Option.map_eq_some_iff.mp hmap
          obtain ⟨old, rfl⟩ := (hnode c (ho c rfl)).mp ⟨fields, hc⟩
          exact hold old rfl
        · refine merge_of_plain (fun h ↦ hother ((hnull b hb).mp h)) fun fields h ↦ ?_
          obtain ⟨fields', h'⟩ := (hnode b hb).mp ⟨fields, h⟩
          exact hfields fields' h'
      rw [hkept, hchanged]
      exact ⟨hb, rfl⟩
  exact ⟨fun ho hb ↦ (hboth ho hb).1, fun ho hb ↦ (hboth ho hb).2⟩

/-! ## Under one key of a node -/

/-- What stands under the key is of this kind. -/
def Holds (key : String) (P : Blueprint → Prop) (fields : Entries Blueprint) : Prop :=
  ∀ e ∈ fields, e.1 = key → P e.2

/-- If the value is a node, then what stands under its key is of this kind. -/
def Within (key : String) (P : Blueprint → Prop) (b : Blueprint) : Prop :=
  ∀ fields, b = .node fields → Holds key P fields

/-- The value with a change made under a key of it, if it is a node. -/
def within (key : String) (f : Blueprint → Blueprint) : Blueprint → Blueprint
  | .node fields => .node (Entries.adjust key f fields)
  | b => b

theorem Settled.within (hf : ∀ c, c.Settled → (f c).Settled) (key : String) (hb : b.Settled) :
    (within key f b).Settled := by
  cases hb with
  | node hall =>
    refine .node fun e he ↦ ?_
    obtain ⟨a, ha, rfl⟩ := List.mem_map.mp he
    by_cases hkey : a.1 = key
    · simpa [hkey] using hf _ (hall a ha)
    · simpa [hkey] using hall a ha
  | scalar s => exact .scalar s
  | set items => exact .set items
  | list hall => exact .list hall

namespace Mergeable

variable (h : Mergeable P f)

include h

/-- Merging fields goes through what comes in, and each step commutes with the change. -/
theorem mergeFields_adjust (hold : Holds key P old) (hincoming : Holds key P incoming) :
    Holds key P (mergeFields old incoming) ∧
      mergeFields (old.adjust key f) (incoming.adjust key f)
        = (mergeFields old incoming).adjust key f := by
  induction incoming generalizing old with
  | nil => exact ⟨hold, rfl⟩
  | cons e rest ih =>
    obtain ⟨k, b⟩ := e
    have hrest : Holds key P rest := fun e he ↦ hincoming e (List.mem_cons_of_mem _ he)
    have hstep : Holds key P (old.put k (merge (old.find? k) b)) := by
      intro e he hkey
      rcases Entries.mem_put he with rfl | he
      · refine h.closed (fun c hc ↦ ?_) (hincoming (k, b) List.mem_cons_self hkey)
        exact hold (k, c) (Entries.mem_of_find? hc) hkey
      · exact hold e he hkey
    have hput : (old.put k (merge (old.find? k) b)).adjust key f
        = (old.adjust key f).put k
          (merge ((old.adjust key f).find? k) (if k = key then f b else b)) := by
      rw [Entries.adjust_put, Entries.find?_adjust]
      by_cases hk : k = key
      · subst hk
        simp only [if_true]
        rw [h.merge_eq (fun c hc ↦ hold (k, c) (Entries.mem_of_find? hc) rfl)
          (hincoming (k, b) List.mem_cons_self rfl)]
      · simp [hk]
    rw [Entries.adjust_cons, mergeFields, mergeFields, ← hput]
    exact ih hstep hrest

/-- **The change under one key** commutes with merging as well. -/
theorem within (key : String) : Mergeable (Within key P) (Blueprint.within key f) := by
  apply mergeable_of_nodes
  · intro b _
    cases b with
    | node fields => exact ⟨fun _ ↦ ⟨fields, rfl⟩, fun _ ↦ ⟨_, rfl⟩⟩
    | _ => exact Iff.rfl
  · intro b _
    cases b with
    | node fields => exact ⟨fun h ↦ (by cases h), fun h ↦ by cases h⟩
    | _ => exact Iff.rfl
  · intro old fields hold hfields
    obtain ⟨hholds, hmerge⟩ := h.mergeFields_adjust (hold old rfl) (hfields fields rfl)
    refine ⟨fun merged hmerged ↦ ?_, ?_⟩
    · rw [← Blueprint.node.inj hmerged]
      exact hholds
    · rw [Blueprint.within, Blueprint.within, Blueprint.within, merge, hmerge]

end Mergeable

/-! ## Opening passwords -/

section Opening

variable (answer : Blueprint → Blueprint)

/-- A password that is not opened, or that is a scalar and opens to a text. -/
def Openable (p : Blueprint) : Prop :=
  p.tree.truthy = false ∨ ∃ s t, p = .scalar s ∧ answer p = .scalar (.text t)

/-- A password that counts as set is opened. -/
def openPassword (p : Blueprint) : Blueprint := if p.tree.truthy then answer p else p

/-- A database block with its password opened. -/
def openBlock : Blueprint → Blueprint := within "password" (openPassword answer)

/-- A section with the password of its database block opened. -/
def openSection : Blueprint → Blueprint := within "database" (openBlock answer)

theorem mergeable_openPassword : Mergeable (Openable answer) (openPassword answer) := by
  have hopen : ∀ p, Openable answer p → openPassword answer p = p ∨
      ∃ s t, p = .scalar s ∧ s ≠ .null ∧ openPassword answer p = .scalar (.text t) := by
    rintro p (hp | ⟨s, t, rfl, ht⟩)
    · left
      rw [openPassword, hp, if_neg Bool.false_ne_true]
    · by_cases hs : (scalar s).tree.truthy = true
      · right
        refine ⟨s, t, rfl, ?_, by rw [openPassword, if_pos hs, ht]⟩
        rintro rfl
        cases hs
      · left
        rw [openPassword, if_neg hs]
  -- a node that need not be opened has no keys
  have hnil : ∀ fields, Openable answer (.node fields) → fields = [] := by
    rintro fields (hp | ⟨s, t, hs, -⟩)
    · cases fields with
      | nil => rfl
      | cons e rest => rw [tree_node] at hp; cases hp
    · cases hs
  apply mergeable_of_nodes
  · intro p hp
    rcases hopen p hp with heq | ⟨s, t, rfl, -, ht⟩
    · rw [heq]
    · rw [ht]
      constructor <;> rintro ⟨fields, hfields⟩ <;> cases hfields
  · intro p hp
    rcases hopen p hp with heq | ⟨s, t, rfl, hs, ht⟩
    · rw [heq]
    · rw [ht]
      exact ⟨fun h ↦ (by cases h), fun h ↦ absurd (Blueprint.scalar.inj h) hs⟩
  · intro old fields hold hfields
    obtain rfl := hnil old hold
    obtain rfl := hnil fields hfields
    exact ⟨.inl rfl, rfl⟩

theorem mergeable_openBlock :
    Mergeable (Within "password" (Openable answer)) (openBlock answer) :=
  (mergeable_openPassword answer).within "password"

variable {answer}

theorem Settled.openSection (hanswer : ∀ p, p.Settled → (answer p).Settled) (hb : b.Settled) :
    (openSection answer b).Settled := by
  refine Settled.within (fun d hd ↦ Settled.within (fun p hp ↦ ?_) "password" hd) "database" hb
  by_cases htruthy : p.tree.truthy = true
  · rw [openPassword, if_pos htruthy]
    exact hanswer p hp
  · rw [openPassword, if_neg htruthy]
    exact hp

/-- Opening a block without a password that counts as set does nothing. -/
theorem openBlock_of_none {block : Entries Blueprint} (hkeys : block.keys.Nodup)
    (h : (block.find? "password").filter (·.tree.truthy) = none) :
    openBlock answer (.node block) = .node block := by
  refine congrArg node (Entries.adjust_eq_self fun e he hpassword ↦ ?_)
  rw [← hpassword, Entries.find?_of_mem hkeys he] at h
  have hunset : e.2.tree.truthy = false := by simpa using h
  rw [openPassword, hunset, if_neg Bool.false_ne_true]

/-- Otherwise what it opens to is written in its place. -/
theorem openBlock_of_some {block : Entries Blueprint} {stored : Blueprint}
    (hkeys : block.keys.Nodup) (h : block.find? "password" = some stored)
    (htruthy : stored.tree.truthy = true) :
    openBlock answer (.node block) = .node (block.put "password" (answer stored)) := by
  rw [openBlock, within, Entries.adjust_eq_put hkeys h, openPassword, if_pos htruthy]

/-- Opening a section without a password does nothing. -/
theorem openSection_of_none (hb : b.Distinct) (h : b.password? = none) :
    openSection answer b = b := by
  cases hb with
  | @node fields hkeys hall =>
    refine congrArg node (Entries.adjust_eq_self fun e he hdatabase ↦ ?_)
    rw [password?, ← hdatabase, Entries.find?_of_mem hkeys he] at h
    obtain ⟨k, d⟩ := e
    cases hall _ he with
    | node hblock _ => exact openBlock_of_none hblock h
    | _ => rfl
  | _ => rfl

/-- Otherwise the password is replaced by what it opens to. -/
theorem openSection_of_some {stored : Blueprint} (hb : b.Distinct)
    (h : b.password? = some stored) : openSection answer b = b.withPassword (answer stored) := by
  obtain ⟨fields, block, rfl, hdatabase, hstored, htruthy⟩ := eq_of_password h
  cases hb with
  | node hkeys hall =>
    cases hall _ (Entries.mem_of_find? hdatabase) with
    | node hblock _ =>
      rw [withPassword_node hdatabase, openSection, within, Entries.adjust_eq_put hkeys hdatabase,
        openBlock_of_some hblock hstored htruthy]

/-- **Revealing the passwords of a file** opens each section on its own, if the answers depend on
the passwords only. -/
theorem revealed_eq_openSection (hfields : (node fields).Distinct) :
    revealed fields ((passwords fields).map fun e ↦ answer e.2)
      = fields.mapValues (openSection answer) := by
  have hall : ∀ e ∈ fields, e.2.Distinct := by
    cases hfields with
    | node _ hall => exact hall
  clear hfields
  induction fields with
  | nil => rfl
  | cons e rest ih =>
    obtain ⟨title, b⟩ := e
    have hb : b.Distinct := hall (title, b) List.mem_cons_self
    have hrest := ih fun e he ↦ hall e (List.mem_cons_of_mem _ he)
    rw [passwords_cons, Entries.mapValues_cons]
    cases h : b.password? with
    | none =>
      rw [revealed_of_none h, openSection_of_none hb h]
      exact congrArg ((title, b) :: ·) hrest
    | some stored =>
      rw [openSection_of_some hb h, ← hrest]
      exact revealed_of_some h title rest (answer stored) _

/-- A section all of whose passwords can be opened. -/
theorem within_of_passwords (hfields : (node fields).Distinct)
    (h : ∀ e ∈ passwords fields, ∃ s t, e.2 = .scalar s ∧ answer e.2 = .scalar (.text t)) :
    ∀ e ∈ fields, Within "database" (Within "password" (Openable answer)) e.2 := by
  rintro ⟨title, _⟩ he section_ rfl ⟨_, _⟩ hdatabase rfl block rfl ⟨_, p⟩ hp rfl
  cases hfields with
  | node _ hall => cases hall _ he with
    | node hsection hblocks => cases hblocks _ hdatabase with
      | node hblock _ =>
        cases htruthy : p.tree.truthy with
        | false => exact .inl htruthy
        | true =>
          have hpassword : (node section_).password? = some p := by
            rw [password?, Entries.find?_of_mem hsection hdatabase]
            simp [Entries.find?_of_mem hblock hp, htruthy]
          exact .inr (h (title, p) (mem_passwords he hpassword))

end Opening

end Blueprint

end LayeredConfig
