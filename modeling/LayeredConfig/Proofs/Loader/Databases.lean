import LayeredConfig.Proofs.Loader.Promises
import LayeredConfig.Proofs.Tree.Overlay

/-!
# The two views of the database settings

The database settings of an environment stand in its configuration, for which whole sections were
merged, and they are reported on their own, for which the block of the environment is written over
the common one and the values become texts. As long as no common setting is a mapping, both start
from the same overlay of two blocks of the file, `Tree.databaseFields?`, and so they agree.
-/

namespace LayeredConfig

open Memory (Beyond)

/-- A value that is a mapping, as nodes are when they are written out. -/
def Value.isMapping : Value → Bool
  | .mapping _ => true
  | _ => false

/-! ## Blocks in the tree of a file -/

namespace Tree

variable {data : Tree} {title : String} {incoming common own : Entries Blueprint}

/-- The database settings of a section. A section without a block that counts as set has none, and
a block that is set but has no keys is refused. -/
def databaseFields? (data : Tree) (title : String) : Option (Entries Blueprint) :=
  match data.at? [title, "database"] with
  | none => some []
  | some t => if t.truthy then t.branches?.map (·.mapValues content) else some []

/-- The block of the section is a mapping with something in it. -/
def ownsDatabase (data : Tree) (title : String) : Bool :=
  ((data.at? [title, "database"]).bind branches?).any (!·.isEmpty)

/-- No setting in the block of the section is a mapping. -/
def flatDatabase (data : Tree) (title : String) : Bool :=
  ((data.at? [title, "database"]).bind branches?).all (·.all (·.2.branches?.isNone))

theorem truthy_of_branches {t : Tree} {fields : Entries Tree} (h : t.branches? = some fields)
    (hne : fields ≠ []) : t.truthy = true := by
  cases ht : t.truthy with
  | true => rfl
  | false =>
    -- there is no key in what does not count as set
    cases fields with
    | nil => exact absurd rfl hne
    | cons e rest =>
      have hnone := at?_cons_of_not_truthy ht e.1 []
      rw [at?_cons h, Entries.find?, if_pos rfl] at hnone
      cases hnone

theorem databaseFields?_of_owns (h : data.ownsDatabase title = true) :
    ∃ own, data.databaseFields? title = some own ∧ own ≠ [] := by
  obtain ⟨fields, hfields, hset⟩ := (Option.any_eq_true _ _).mp h
  obtain ⟨t, hat, hbranches⟩ := Option.bind_eq_some_iff.mp hfields
  have hne : fields ≠ [] := by
    rintro rfl
    cases hset
  refine ⟨fields.mapValues content, ?_, fun hnil ↦ hne (List.map_eq_nil_iff.mp hnil)⟩
  rw [databaseFields?, hat]
  dsimp only
  rw [truthy_of_branches hbranches hne, if_pos rfl, hbranches, Option.map_some]

/-- Settings stand in a block. -/
theorem at?_of_databaseFields? (h : data.databaseFields? title = some own) (hne : own ≠ []) :
    ∃ t, data.at? [title, "database"] = some t ∧ t.truthy = true ∧ t.content = .node own := by
  unfold databaseFields? at h
  split at h
  · exact absurd (Option.some.inj h).symm hne
  · next t hat =>
    split at h
    · next htruthy =>
      obtain ⟨fields, hfields, rfl⟩ := Option.map_eq_some_iff.mp h
      exact ⟨t, hat, htruthy, content_of_branches hfields⟩
    · exact absurd (Option.some.inj h).symm hne

theorem ne_node_of_flat (h : data.flatDatabase title = true)
    (hcommon : data.databaseFields? title = some common) :
    ∀ key fields, common.find? key ≠ some (.node fields) := by
  intro key fields hkey
  have hne : common ≠ [] := by
    rintro rfl
    cases hkey
  obtain ⟨t, hat, _, hcontent⟩ := at?_of_databaseFields? hcommon hne
  obtain ⟨branches, hbranches, rfl⟩ := branches_of_content hcontent
  rw [flatDatabase, hat, Option.bind_some, hbranches, Option.all_some, List.all_eq_true] at h
  rw [Entries.find?_mapValues] at hkey
  obtain ⟨u, hu, hnode⟩ := Option.map_eq_some_iff.mp hkey
  obtain ⟨inner, hinner, _⟩ := branches_of_content hnode
  have hnone := h _ (Entries.mem_of_find? hu)
  rw [hinner] at hnone
  cases hnone

/-- What stands in a section. -/
theorem find?_section (h : data.section? title = .ok incoming) (key : String) :
    incoming.find? key = (data.at? [title, key]).map content := by
  rw [at?_cons_eq_bind]
  unfold section? at h
  split at h
  · cases h
  · next hat =>
    rw [hat, ← Except.ok.inj h, Option.bind_some, at?_cons_of_none rfl]
    rfl
  · next t _ hat =>
    split at h
    · next fields hfields =>
      rw [hat, ← Except.ok.inj h, Option.bind_some, at?_cons hfields, Entries.find?_mapValues]
      cases fields.find? key <;> rfl
    · cases h

theorem distinct_section (hdata : data.Distinct) (h : data.section? title = .ok incoming) :
    (Blueprint.node incoming).Distinct := by
  unfold section? at h
  split at h
  · cases h
  · rw [← Except.ok.inj h]
    exact .node List.nodup_nil fun e he ↦ absurd he List.not_mem_nil
  · next t _ hat =>
    split at h
    · next fields hfields =>
      have ht : t.Distinct := by
        cases hb : data.branches? with
        | none =>
          rw [at?_cons_of_none hb] at hat
          cases hat
        | some branches =>
          rw [at?_cons hb] at hat
          obtain ⟨u, hu, hut⟩ := Option.bind_eq_some_iff.mp hat
          rw [← Option.some.inj hut]
          exact (hdata.branches hb).2 _ (Entries.mem_of_find? hu)
      have hcontent := ht.content
      rw [content_of_branches hfields] at hcontent
      exact Except.ok.inj h ▸ hcontent
    · cases h

/-- Settings that are merged over a block are merged over its settings. -/
theorem merge_databaseFields? (hcommon : data.databaseFields? title = some common)
    (hkeys : own.keys.Nodup) :
    Blueprint.merge ((data.at? [title, "database"]).map content) (.node own)
      = .node (Blueprint.mergeFields common own) := by
  have hblank : ∀ o : Option Blueprint, (∀ fields, o ≠ some (.node fields)) →
      Blueprint.merge o (.node own) = .node (Blueprint.mergeFields [] own) := by
    intro o ho
    rw [Blueprint.merge_of_ne ho, Blueprint.mergeFields_nil hkeys]
  unfold databaseFields? at hcommon
  split at hcommon
  · next hat =>
    rw [hat, ← Option.some.inj hcommon]
    exact hblank _ fun _ hc ↦ by cases hc
  · next t hat =>
    rw [hat, Option.map_some]
    split at hcommon
    · obtain ⟨fields, hfields, rfl⟩ := Option.map_eq_some_iff.mp hcommon
      rw [content_of_branches hfields, Blueprint.merge]
    · next hblankBlock =>
      rw [← Option.some.inj hcommon]
      -- a block that does not count as set may still be a node, but an empty one
      cases hfields : t.branches? with
      | none =>
        refine hblank _ fun fields hc ↦ ?_
        obtain ⟨branches, hbranches, _⟩ := branches_of_content (Option.some.inj hc)
        rw [hfields] at hbranches
        cases hbranches
      | some fields =>
        have hnil : fields = [] := by
          by_contra hne
          exact hblankBlock (truthy_of_branches hfields hne)
        rw [content_of_branches hfields, hnil, Blueprint.merge]
        rfl

/-- **In the merged sections** of an environment the database settings are its own merged over the
common ones. -/
theorem find?_database_of_sections (hdata : data.Distinct) {name : String} (hname : name ≠ "")
    {merged : Entries Blueprint}
    (h : data.sections [] (sectionNames (some name)) = .ok merged)
    (hcommon : data.databaseFields? commonSection = some common)
    (hown : data.databaseFields? name = some own) (hne : own ≠ []) : own.keys.Nodup ∧
      merged.find? "database" = some (.node (Blueprint.mergeFields common own)) := by
  have hnames : sectionNames (some name) = [commonSection, name] := by
    simp [sectionNames, Option.filter, hname]
  rw [hnames, sections] at h
  split at h
  · cases h
  next first hfirst =>
  rw [sections] at h
  split at h
  · cases h
  next second hsecond =>
  obtain ⟨t, hat, _, hcontent⟩ := at?_of_databaseFields? hown hne
  have hdistinct := distinct_section hdata hsecond
  have hincoming : second.find? "database" = some (.node own) := by
    rw [find?_section hsecond, hat, Option.map_some, hcontent]
  have hkeys : own.keys.Nodup := by
    cases hdistinct with
    | node _ hall => cases hall _ (Entries.mem_of_find? hincoming) with
      | node hkeys _ => exact hkeys
  have hold : (Blueprint.mergeFields [] first).find? "database" = first.find? "database" := by
    cases distinct_section hdata hfirst with
    | node hfirstKeys _ =>
      rw [Blueprint.find?_mergeFields hfirstKeys]
      cases first.find? "database" with
      | none => rfl
      | some b => exact congrArg some (Blueprint.merge_of_ne fun _ hc ↦ by cases hc)
  rw [← Except.ok.inj h]
  cases hdistinct with
  | node hsecondKeys _ =>
    rw [Blueprint.find?_mergeFields hsecondKeys, hincoming, hold, Option.map_some, Option.some_or,
      find?_section hfirst, merge_databaseFields? hcommon hkeys]
    exact ⟨hkeys, rfl⟩

end Tree

/-! ## Reading blocks -/

namespace Memory

/-- The text of a setting; nothing stays nothing. -/
def setting? (m : Memory) : Value → Option String
  | .null => none
  | v => some (m.display v)

/-- The settings that entries describe. -/
def settings (m : Memory) (entries : List (Value × Value)) : Entries (Option String) :=
  entries.map fun e ↦ (m.display e.1, m.setting? e.2)

theorem setting?_congr {m m' : Memory} {v : Value} (h : m.display v = m'.display v) :
    m.setting? v = m'.setting? v := by
  unfold setting?
  split
  · rfl
  · rw [h]

/-- The settings that are written out of contents without computations are the same everywhere. -/
theorem settings_plain {fields : Entries Blueprint} (h : ∀ e ∈ fields, e.2.Settled)
    (m m' : Memory) :
    m.settings (Blueprint.plainEntries fields) = m'.settings (Blueprint.plainEntries fields) := by
  simp only [settings, Blueprint.plainEntries, List.map_map]
  refine List.map_congr_left fun e he ↦ ?_
  exact Prod.ext rfl (setting?_congr ((h e he).display_plain m m'))

theorem find?_settings_plain (m : Memory) (fields : Entries Blueprint) (key : String) :
    (m.settings (Blueprint.plainEntries fields)).find? key
      = (fields.find? key).map fun b ↦ m.setting? b.plain := by
  have hsettings : m.settings (Blueprint.plainEntries fields)
      = fields.mapValues fun b ↦ m.setting? b.plain := List.map_map
  rw [hsettings, Entries.find?_mapValues]

theorem settingText_eq (v : Value) (m : Memory) :
    Loader.settingText v m = .ok (m.setting? v) m := by
  cases v with
  | scalar s => cases s <;> rfl
  | _ => rfl

namespace Parsed

variable {m : Memory} {data : NodeId} {title : String} (hp : m.Parsed data)

include hp

theorem hasDatabase_eq (title : String) :
    Loader.hasDatabase data (.text title) m
      = .ok (((m.view (.node data)).at? [title, "database"]).any Tree.truthy) m :=
  hp.present (List.cons_ne_nil title ["database"])

/-- What stands two levels below a node stands in a node. -/
theorem exists_of_at? {key : String} {t : Tree}
    (h : (m.view (.node data)).at? [title, key] = some t) :
    ∃ c v, m.forest.find? data title = some (.node c) ∧ m.forest.find? c key = some v ∧
      m.view v = t := by
  rw [hp.at?_cons] at h
  obtain ⟨u, hu, hat⟩ := Option.bind_eq_some_iff.mp h
  by_cases hnode : ∃ c, u = .node c
  · obtain ⟨c, rfl⟩ := hnode
    rw [(hp.child hu).at?_view] at hat
    obtain ⟨v, hv, hview⟩ := Option.map_eq_some_iff.mp hat
    exact ⟨c, v, hu, hv, hview⟩
  · have hbranches : (m.view u).branches? = none :=
      Forest.branches_view_of_uniform (hp.sound.uniform data (title, u) (Entries.mem_of_find? hu))
        fun c hc ↦ hnode ⟨c, hc⟩
    rw [Tree.at?_cons_of_none hbranches] at hat
    cases hat

/-- **A block is read** as the fields that the tree of the file says, or it is refused. -/
theorem databaseBlock_eq (title : String) :
    match (m.view (.node data)).databaseFields? title with
    | some fields =>
      Loader.databaseBlock data (.text title) m = .ok (Blueprint.plainEntries fields) m
    | none => ∃ t, (m.view (.node data)).at? [title, "database"] = some t ∧
      Loader.databaseBlock data (.text title) m
        = .error (.configuration (.invalidStructure (.databaseNotMapping title t))) m := by
  have hpresent := hp.hasDatabase_eq title
  unfold Tree.databaseFields?
  cases hat : (m.view (.node data)).at? [title, "database"] with
  | none =>
    rw [hat] at hpresent
    exact bind_of_ok hpresent
  | some t =>
    rw [hat, Option.any_some] at hpresent
    dsimp only
    cases htruthy : t.truthy with
    | false =>
      rw [htruthy] at hpresent
      exact bind_of_ok hpresent
    | true =>
      rw [htruthy] at hpresent
      obtain ⟨c, v, hc, hv, rfl⟩ := hp.exists_of_at? hat
      have hchild := hp.child hc
      rw [Loader.databaseBlock, bind_of_ok hpresent, Bool.not_true, if_neg Bool.false_ne_true,
        bind_of_ok (hp.get_eq (.refl hp.sound) hc)]
      dsimp only
      rw [bind_of_ok (hchild.get_eq (.refl hp.sound) hv), if_pos rfl]
      by_cases hnode : ∃ b, v = .node b
      · obtain ⟨b, rfl⟩ := hnode
        have hblock := hchild.child hv
        have hmapping := Node.toMapping_of_settled hp.sound hblock.mem hblock.settled
        rw [content_node_eq hp.sound, Blueprint.plain_node] at hmapping
        rw [view, hp.sound.view_eq_fields]
        exact bind_of_ok hmapping
      · have hbranches : (m.view v).branches? = none :=
          Forest.branches_view_of_uniform
            (hp.sound.uniform c ("database", v) (Entries.mem_of_find? hv))
            fun b hb ↦ hnode ⟨b, hb⟩
        rw [hbranches]
        refine ⟨m.view v, rfl, ?_⟩
        cases v with
        | node b => exact absurd ⟨b, rfl⟩ hnode
        | _ => rfl

end Parsed

end Memory

namespace Loader

open Memory (Parsed)

variable {l : Loader} {m m' : Memory} {data : NodeId} {name : String}

theorem databaseSettings_eq (common own : List (Value × Value)) (m : Memory) :
    databaseSettings common own m
      = .ok (m.settings (own.foldl (fun all e ↦ Value.insertEntry e.1 e.2 all) common)) m := by
  rw [databaseSettings]
  refine mapM_of_ok fun e _ ↦ ?_
  have hkey : displayValue e.1 m = .ok (m.display e.1) m := rfl
  exact (bind_of_ok hkey).trans (bind_of_ok (m.settingText_eq e.2))

/-- An environment that is no text has no section, or it is refused as a key. -/
theorem hasDatabase_eq_of_not_text {title : Value} (h : ∀ s, title ≠ .text s) (data : NodeId)
    (m : Memory) : hasDatabase data title m
      = title.unhashable?.elim (.ok false m) fun kind ↦ .error (.unhashable kind) m := by
  have hpath : hasDatabase data title = Node.presentWith evaluate data [title, .text "database"] :=
    rfl
  have hkey := Node.hasKey_eq_of_not_text h data m
  rw [hpath, Node.presentWith]
  cases hkind : title.unhashable? with
  | some kind =>
    rw [hkind] at hkey
    exact bind_of_error hkey
  | none =>
    rw [hkind] at hkey
    exact bind_of_ok hkey

/-! ### Collecting settings -/

section Collect

variable (hp : m.Parsed data) {title : String} {common fields : Entries Blueprint}
  {all : DatabaseSettings} {rest : List Value}

include hp

/-- An environment without a block that is set is passed over. -/
theorem collectDatabases_of_unset
    (hset : ((m.view (.node data)).at? [title, "database"]).any Tree.truthy = false) :
    collectDatabases data (Blueprint.plainEntries common) all (.text title :: rest) m
      = collectDatabases data (Blueprint.plainEntries common) all rest m := by
  rw [collectDatabases, bind_of_ok (hp.hasDatabase_eq title), hset, Bool.not_false, if_pos rfl]

/-- The settings of an environment are its own over the common ones. -/
theorem collectDatabases_of_fields
    (hset : ((m.view (.node data)).at? [title, "database"]).any Tree.truthy = true)
    (hfields : (m.view (.node data)).databaseFields? title = some fields) :
    collectDatabases data (Blueprint.plainEntries common) all (.text title :: rest) m
      = collectDatabases data (Blueprint.plainEntries common)
        (all.put title (m.settings (Blueprint.plainEntries (common.overlay fields)))) rest m := by
  have hblock := hp.databaseBlock_eq title
  rw [hfields] at hblock
  rw [collectDatabases, bind_of_ok (hp.hasDatabase_eq title), hset, Bool.not_true,
    if_neg Bool.false_ne_true, bind_of_ok hblock, bind_of_ok (databaseSettings_eq _ _ m),
    Blueprint.foldl_insertEntry]
  rfl

/-- A block that is refused ends the collection. -/
theorem collectDatabases_of_refused
    (hset : ((m.view (.node data)).at? [title, "database"]).any Tree.truthy = true)
    (hfields : (m.view (.node data)).databaseFields? title = none) :
    ∃ t, (m.view (.node data)).at? [title, "database"] = some t ∧
      collectDatabases data (Blueprint.plainEntries common) all (.text title :: rest) m
        = .error (.configuration (.invalidStructure (.databaseNotMapping title t))) m := by
  have hblock := hp.databaseBlock_eq title
  rw [hfields] at hblock
  obtain ⟨t, hat, hblock⟩ := hblock
  refine ⟨t, hat, ?_⟩
  rw [collectDatabases, bind_of_ok (hp.hasDatabase_eq title), hset, Bool.not_true,
    if_neg Bool.false_ne_true, bind_of_error hblock]

/-- **What one environment adds** to the settings that were collected before it, by the tree of the
file. -/
inductive Collects (m : Memory) (data : NodeId) (common : Entries Blueprint)
    (all : DatabaseSettings) : Value → Except Failure DatabaseSettings → Prop
  /-- No block of it is set. -/
  | unset {title : String}
      (h : ((m.view (.node data)).at? [title, "database"]).any Tree.truthy = false) :
      Collects m data common all (.text title) (.ok all)
  /-- Its settings are its own over the common ones. -/
  | settings {title : String} {fields : Entries Blueprint}
      (h : (m.view (.node data)).databaseFields? title = some fields) :
      Collects m data common all (.text title)
        (.ok (all.put title (m.settings (Blueprint.plainEntries (common.overlay fields)))))
  /-- Its block is refused. -/
  | refused {title : String} {t : Tree}
      (h : (m.view (.node data)).databaseFields? title = none) :
      Collects m data common all (.text title)
        (.error (.configuration (.invalidStructure (.databaseNotMapping title t))))
  /-- It is no text, and so it has no section. -/
  | unnamed {v : Value} (h : ∀ s, v ≠ .text s) : Collects m data common all v (.ok all)
  /-- It is not even a key. -/
  | unhashable {v : Value} {kind : String} (h : ∀ s, v ≠ .text s) :
      Collects m data common all v (.error (.unhashable kind))

/-- Settings are collected for one environment after the other, until one is refused. -/
theorem collectDatabases_cons (v : Value) :
    ∃ r, Collects m data common all v r ∧
      collectDatabases data (Blueprint.plainEntries common) all (v :: rest) m = match r with
        | .ok next => collectDatabases data (Blueprint.plainEntries common) next rest m
        | .error failure => .error failure m := by
  by_cases htext : ∃ title, v = .text title
  · obtain ⟨title, rfl⟩ := htext
    cases hset : ((m.view (.node data)).at? [title, "database"]).any Tree.truthy with
    | false => exact ⟨_, .unset hset, collectDatabases_of_unset hp hset⟩
    | true =>
      cases hfields : (m.view (.node data)).databaseFields? title with
      | some fields => exact ⟨_, .settings hfields, collectDatabases_of_fields hp hset hfields⟩
      | none =>
        obtain ⟨t, _, hrefused⟩ := collectDatabases_of_refused hp hset hfields
        exact ⟨_, .refused hfields, hrefused⟩
  · have hne : ∀ s, v ≠ .text s := not_exists.mp htext
    have hhas := hasDatabase_eq_of_not_text hne data m
    rw [collectDatabases]
    cases hkind : v.unhashable? with
    | none =>
      rw [hkind] at hhas
      exact ⟨_, .unnamed hne, bind_of_ok hhas⟩
    | some kind =>
      rw [hkind] at hhas
      exact ⟨_, .unhashable hne, bind_of_error hhas⟩

/-- **Settings are collected** for an environment that has some, once they were collected for it or
it is still to come. -/
theorem find?_collectDatabases {own : Entries Blueprint}
    (hown : (m.view (.node data)).databaseFields? name = some own) (hne : own ≠ [])
    {environments : List Value} {result : DatabaseSettings}
    (hrun : collectDatabases data (Blueprint.plainEntries common) all environments m
      = .ok result m')
    (hfound : .text name ∈ environments ∨
      all.find? name = some (m.settings (Blueprint.plainEntries (common.overlay own)))) :
    result.find? name = some (m.settings (Blueprint.plainEntries (common.overlay own))) := by
  -- an environment that is passed over is not the one that is asked for
  have hlater : ∀ {environment : Value} {rest : List Value}, environment ≠ .text name →
      .text name ∈ environment :: rest → .text name ∈ rest := fun hother hmem ↦
    (List.mem_cons.mp hmem).resolve_left (Ne.symm hother)
  induction environments generalizing all with
  | nil =>
    cases hrun
    exact hfound.resolve_left List.not_mem_nil
  | cons environment rest ih =>
    obtain ⟨r, hturn, hcollect⟩ := collectDatabases_cons hp environment
    rw [hcollect] at hrun
    cases hturn with
    | unset hset =>
      refine ih hrun (hfound.imp_left (hlater ?_))
      rintro heq
      obtain ⟨t, hat, htruthy, _⟩ := Tree.at?_of_databaseFields? hown hne
      rw [Scalar.text.inj (Value.scalar.inj heq), hat, Option.any_some, htruthy] at hset
      cases hset
    | @settings title fields hfields =>
      refine ih hrun ?_
      by_cases hname : name = title
      · subst hname
        rw [hown] at hfields
        rw [← Option.some.inj hfields, Entries.find?_put_self]
        exact .inr rfl
      · rw [Entries.find?_put_of_ne hname]
        exact hfound.imp_left (hlater fun heq ↦
          hname (Scalar.text.inj (Value.scalar.inj heq)).symm)
    | refused => cases hrun
    | unnamed hother => exact ih hrun (hfound.imp_left (hlater (hother name)))
    | unhashable => cases hrun

/-- Collecting goes through if no environment has a block that is refused. -/
theorem collectDatabases_ok {titles : List String}
    (h : ∀ title ∈ titles, ((m.view (.node data)).databaseFields? title).isSome = true)
    (common : Entries Blueprint) (all : DatabaseSettings) :
    ∃ result, collectDatabases data (Blueprint.plainEntries common) all (titles.map .text) m
      = .ok result m := by
  induction titles generalizing all with
  | nil => exact ⟨all, rfl⟩
  | cons title rest ih =>
    have hrest := fun title htitle ↦ h title (List.mem_cons_of_mem _ htitle)
    obtain ⟨r, hturn, hcollect⟩ := collectDatabases_cons hp (.text title)
    rw [List.map_cons, hcollect]
    cases hturn with
    | unset => exact ih hrest all
    | settings => exact ih hrest _
    | refused hfields =>
      have hsome := h title List.mem_cons_self
      rw [hfields] at hsome
      cases hsome
    | unnamed hne => exact absurd rfl (hne title)
    | unhashable hne => exact absurd rfl (hne title)

end Collect

variable {w w₁ w₂ : World} {all : DatabaseSettings} {own : Entries Blueprint}

/-- **The database settings are reported** if no block is refused. -/
theorem readDatabases_ok (hdata : l.data w = .ok data w₁) (hp : w₁.memory.Parsed data)
    {titles : List String} (htitles : l.databaseEnvironments = titles.map .text)
    (h : ∀ title ∈ commonSection :: titles,
      ((w₁.memory.view (.node data)).databaseFields? title).isSome = true) :
    ∃ all, l.readDatabases w = .ok all w₁ := by
  obtain ⟨hcommon, hrest⟩ := List.forall_mem_cons.mp h
  obtain ⟨common, hcommon⟩ := Option.isSome_iff_exists.mp hcommon
  have hblock := hp.databaseBlock_eq commonSection
  rw [hcommon] at hblock
  have hread : onMemory (databaseBlock data (.text commonSection)) w₁
      = .ok (Blueprint.plainEntries common) w₁ := onMemory_of_ok hblock
  obtain ⟨all, hall⟩ := collectDatabases_ok hp hrest common []
  refine ⟨all, ?_⟩
  rw [readDatabases, bind_of_ok hdata, htitles]
  exact (bind_of_ok hread).trans (onMemory_of_ok hall)

/-- **What is reported** for an environment is its own settings over the common ones. -/
theorem find?_of_readDatabases (hdata : l.data w = .ok data w₁) (hp : w₁.memory.Parsed data)
    (hrun : l.readDatabases w = .ok all w₂) (hmem : .text name ∈ l.databaseEnvironments)
    (hown : (w₁.memory.view (.node data)).databaseFields? name = some own) (hne : own ≠ []) :
    ∃ common, (w₁.memory.view (.node data)).databaseFields? commonSection = some common ∧
      all.find? name = some (w₁.memory.settings (Blueprint.plainEntries (common.overlay own))) := by
  rw [readDatabases, bind_of_ok hdata] at hrun
  obtain ⟨entries, w', hcommon, hcollect⟩ := bind_eq_ok.mp hrun
  obtain ⟨m, hread, rfl⟩ := onMemory_eq_ok (x := databaseBlock data (.text commonSection)) hcommon
  have hblock := hp.databaseBlock_eq commonSection
  cases hfields : (w₁.memory.view (.node data)).databaseFields? commonSection with
  | none =>
    rw [hfields] at hblock
    obtain ⟨t, _, hblock⟩ := hblock
    rw [hblock] at hread
    cases hread
  | some common =>
    rw [hfields] at hblock
    rw [hblock] at hread
    cases hread
    obtain ⟨m', hcollected, _⟩ := onMemory_eq_ok hcollect
    exact ⟨common, rfl, find?_collectDatabases hp hown hne hcollected (.inl hmem)⟩

/-- The database settings that a configuration holds, written out. -/
def heldEntries (n : NodeId) : Eval (List (Value × Value)) := do
  match ← Node.get n (.text "database") with
  | .node c =>
    match ← Node.toMapping c with
    | .mapping entries => return entries
    | v => throw (.missingAttribute v.qualifiedKindName "items")
  | v => throw (.missingAttribute v.qualifiedKindName "to_dict")

/-- The database settings that a configuration holds, as texts. -/
def heldSettings (n : NodeId) : Eval (Entries (Option String)) := do
  let entries ← heldEntries n
  return (← get).settings entries

/-- **What is loaded** under `database` is written out as the own settings merged over the common
ones. -/
theorem heldEntries_of_load (hl : l.Telling) (hdata : l.data w = .ok data w₁)
    (hp : w₁.memory.Parsed data) (hname : name ≠ "") {n : NodeId}
    (hload : l.load (.text name) w = .ok n w₂) {common : Entries Blueprint}
    (hcommon : (w₁.memory.view (.node data)).databaseFields? commonSection = some common)
    (hown : (w₁.memory.view (.node data)).databaseFields? name = some own) (hne : own ≠ []) :
    own.keys.Nodup ∧ (∀ e ∈ Blueprint.mergeFields common own, e.2.Settled) ∧
      ∀ m, Beyond w₂.memory m → ∃ m', heldEntries n m
        = .ok (Blueprint.plainEntries (Blueprint.mergeFields common own)) m' := by
  have hnamed : l.load (environmentValue (some name)) w = .ok n w₂ := hload
  obtain ⟨merged, version, hsections, _, _, _, _, hshows⟩ := of_load hl hdata hp hnamed
  obtain ⟨hkeys, hfind⟩ := Tree.find?_database_of_sections (hp.sound.distinct_view _) hname
    hsections hcommon hown hne
  have hsettled : (Blueprint.node (Blueprint.mergeFields common own)).Settled :=
    Tree.settled_sections hp.settled (fun e he ↦ absurd he List.not_mem_nil) hsections _
      (Entries.mem_of_find? hfind)
  refine ⟨hkeys, hsettled.fields, fun m hmm ↦ ?_⟩
  -- no value is derived under this key
  have hderived : (Derived.all version merged).find? "database"
      = some (.node (Blueprint.mergeFields common own)) := by
    rw [Derived.find?_all_of_not_mem (by decide), hfind]
  obtain ⟨v, m₁, hreads, hsealed⟩ := hshows m hmm "database" _ hderived
  obtain ⟨c, rfl⟩ := hsealed.exists_node
  have hplain : ∀ e ∈ Blueprint.mergeFields common own,
      e.2.Settled ∨ ∃ d, e.2 = .deferred d ∧ m₁.Answers d .null :=
    fun e he ↦ .inl (hsettled.fields e he)
  obtain ⟨m₂, hmapping, _⟩ :=
    Node.toMapping_of_content hreads.2.sound hsealed.content hplain
  rw [Entries.mapValues_eq_self fun e he ↦ (hsettled.fields e he).answered_eq _,
    Blueprint.plain_node] at hmapping
  exact ⟨m₂, (bind_of_ok hreads.1).trans (bind_of_ok hmapping)⟩

/-- **Settings that are held are reported**, if none of them is a mapping and no block is refused. -/
theorem databases_of_held (hl : l.Telling) (hdata : l.data w = .ok data w₁)
    (hp : w₁.memory.Parsed data) (hname : name ≠ "") {n : NodeId}
    (hload : l.load (.text name) w = .ok n w₂) {titles : List String} (hmem : name ∈ titles)
    (htitles : l.databaseEnvironments = titles.map .text)
    (hblocks : ∀ title ∈ commonSection :: titles,
      ((w₁.memory.view (.node data)).databaseFields? title).isSome = true)
    (hown : (w₁.memory.view (.node data)).ownsDatabase name = true)
    (hfresh : (w.memo l.number).databases = none)
    {entries : List (Value × Value)} (hheld : heldEntries n w₂.memory = .ok entries m')
    (hflat : ∀ e ∈ entries, e.2.isMapping = false) :
    (∃ fields, entries = Blueprint.plainEntries fields) ∧
      ∃ all u, l.databases w = .ok all u ∧ all.find? name = some (m'.settings entries) := by
  obtain ⟨own, hfields, hne⟩ := Tree.databaseFields?_of_owns hown
  obtain ⟨all, hread⟩ := readDatabases_ok hdata hp htitles hblocks
  have hreported : .text name ∈ l.databaseEnvironments := by
    rw [htitles]
    exact List.mem_map_of_mem hmem
  obtain ⟨common, hcommon, hfind⟩ := find?_of_readDatabases hdata hp hread hreported hfields hne
  obtain ⟨hkeys, hsettled, hwritten⟩ :=
    heldEntries_of_load hl hdata hp hname hload hcommon hfields hne
  have hsound : w₂.memory.forest.Sound := by
    have hnamed : l.load (environmentValue (some name)) w = .ok n w₂ := hload
    obtain ⟨_, _, _, _, _, hbeyond, _⟩ := of_load hl hdata hp hnamed
    exact hbeyond.sound
  obtain ⟨m₁, hentries⟩ := hwritten w₂.memory (.refl hsound)
  rw [hheld] at hentries
  cases hentries
  have hoverlay : Blueprint.mergeFields common own = common.overlay own := by
    refine Blueprint.mergeFields_of_flat_result hkeys fun key fields hnode ↦ ?_
    have hmapping := hflat (.text key, (Blueprint.node fields).plain)
      (List.mem_map.mpr ⟨(key, .node fields), Entries.mem_of_find? hnode, rfl⟩)
    rw [Blueprint.plain_node] at hmapping
    cases hmapping
  rw [← hoverlay, Memory.settings_plain hsettled w₁.memory m'] at hfind
  rw [databases, remembered_of_unknown hfresh, bind_of_ok hread]
  exact ⟨⟨_, rfl⟩, all, _, rfl, hfind⟩

/-- **The two views of the database settings agree.** If an environment with a name has a block of
its own with something in it, and no setting of the common block is a mapping, then what is reported
for it is what its configuration holds under `database`, with the same keys in the same order and
every value but nothing turned into its text. The two views may be asked for in any order, as long
as they see the same contents of the file. -/
theorem databases_agree (hl : l.Telling) (hname : name ≠ "")
    (hmem : .text name ∈ l.databaseEnvironments)
    (hdata : l.data w = .ok data w₁) (hp : w₁.memory.Parsed data)
    (hown : (w₁.memory.view (.node data)).ownsDatabase name = true)
    (hflat : (w₁.memory.view (.node data)).flatDatabase commonSection = true)
    {n : NodeId} (hload : l.load (.text name) w = .ok n w₂)
    {u u₁ u₂ : World} {data' : NodeId} (hdata' : l.data u = .ok data' u₁)
    (hp' : u₁.memory.Parsed data')
    (hsame : u₁.memory.view (.node data') = w₁.memory.view (.node data))
    (hfresh : (u.memo l.number).databases = none) (hdatabases : l.databases u = .ok all u₂)
    (m : Memory) (hmm : Beyond w₂.memory m) :
    ∃ settings m', heldSettings n m = .ok settings m' ∧ all.find? name = some settings := by
  obtain ⟨own, hfields, hne⟩ := Tree.databaseFields?_of_owns hown
  rw [databases, remembered_of_unknown hfresh] at hdatabases
  obtain ⟨all', u₃, hread, hkeep⟩ := bind_eq_ok.mp hdatabases
  obtain rfl : all' = all := by
    cases hkeep
    rfl
  rw [← hsame] at hfields
  obtain ⟨common, hcommon, hfind⟩ := find?_of_readDatabases hdata' hp' hread hmem hfields hne
  rw [hsame] at hfields hcommon
  obtain ⟨hkeys, hsettled, hwritten⟩ :=
    heldEntries_of_load hl hdata hp hname hload hcommon hfields hne
  rw [Blueprint.mergeFields_of_flat hkeys (Tree.ne_node_of_flat hflat hcommon)]
    at hsettled hwritten
  obtain ⟨m', hentries⟩ := hwritten m hmm
  refine ⟨_, m', bind_of_ok hentries, ?_⟩
  rw [hfind, Memory.settings_plain hsettled u₁.memory m']

open Katello in
set_option maxRecDepth 20000 in
/-- The two views of the settings of production agree for a complete file. -/
theorem databases_agree_sample : ∃ n w₂ all u₂ settings m',
    sampleLoader.load (.text "production") (worldOf sampleDocument) = .ok n w₂ ∧
    sampleLoader.databases (worldOf sampleDocument) = .ok all u₂ ∧
    heldSettings n w₂.memory = .ok settings m' ∧ all.find? "production" = some settings := by
  have hl : sampleLoader.Supplied :=
    supplied_of_decrypt rfl rfl VersionResolver.textual_default
  have hblocks : result? (do
      let data ← sampleLoader.data
      let t := (← get).memory.view (.node data)
      return (t.ownsDatabase "production", t.flatDatabase commonSection)) (worldOf sampleDocument)
        = some (true, true) := by decide +kernel
  obtain ⟨w', hok⟩ := exists_ok_of_result? hblocks
  obtain ⟨data, w₁, hdata, hrest⟩ := bind_eq_ok.mp hok
  obtain ⟨hown, hflat⟩ : (w₁.memory.view (.node data)).ownsDatabase "production" = true ∧
      (w₁.memory.view (.node data)).flatDatabase commonSection = true := by
    rw [get_bind] at hrest
    exact Prod.mk.inj (EStateM.Result.ok.inj hrest).1
  have hp := parsed_of_data (reveals_of_decrypt rfl) (readable_worldOf plain_sampleDocument) hdata
  obtain ⟨n, w₂, hload⟩ := exists_ok_of_succeeds (by decide +kernel :
    succeeds (sampleLoader.load (.text "production")) (worldOf sampleDocument) = true)
  obtain ⟨all, u₂, hdatabases⟩ := exists_ok_of_succeeds
    (by decide +kernel : succeeds sampleLoader.databases (worldOf sampleDocument) = true)
  have hnamed : sampleLoader.load (environmentValue (some "production")) (worldOf sampleDocument)
      = .ok n w₂ := hload
  obtain ⟨_, _, _, _, _, hbeyond, _⟩ := of_load hl.telling hdata hp hnamed
  obtain ⟨settings, m', hheld, hfind⟩ := databases_agree hl.telling (by decide)
    List.mem_cons_self hdata hp hown hflat hload hdata hp rfl rfl hdatabases w₂.memory
    (.refl hbeyond.sound)
  exact ⟨n, w₂, all, u₂, settings, m', hload, hdatabases, hheld, hfind⟩

/-! ## An environment without a name -/

/-- A file with a section for the environment whose name is empty. -/
def unnamedDocument : Value := .keyed [
  ("common", .keyed [("database", .keyed [("host", .text "common.example.com")])]),
  ("", .keyed [("database", .keyed [("host", .text "own.example.com")])])]

/-- A loader that reports the settings of that environment. -/
def unnamedLoader : Loader :=
  { Katello.sampleLoader with rules := [], databaseEnvironments := [.text ""] }

set_option maxRecDepth 20000 in
/-- A name that is empty is no environment when a configuration is loaded, but it is one when
database settings are reported. -/
theorem databases_differ_without_name : ∃ n w₂ all u₂ settings m',
    result? (do
      let data ← unnamedLoader.data
      let t := (← get).memory.view (.node data)
      return (t.ownsDatabase "", t.flatDatabase commonSection)) (Katello.worldOf unnamedDocument)
        = some (true, true) ∧
    .text "" ∈ unnamedLoader.databaseEnvironments ∧
    unnamedLoader.load (.text "") (Katello.worldOf unnamedDocument) = .ok n w₂ ∧
    unnamedLoader.databases (Katello.worldOf unnamedDocument) = .ok all u₂ ∧
    heldSettings n w₂.memory = .ok settings m' ∧ all.find? "" ≠ some settings := by
  have hheld : result? (do
      let n ← unnamedLoader.load (.text "")
      onMemory (heldSettings n)) (Katello.worldOf unnamedDocument)
        = some [("host", some "common.example.com")] := by decide +kernel
  have hall : result? (do
      let all ← unnamedLoader.databases
      return all.find? "") (Katello.worldOf unnamedDocument)
        = some (some [("host", some "own.example.com")]) := by decide +kernel
  obtain ⟨w', hok⟩ := exists_ok_of_result? hheld
  obtain ⟨n, w₂, hload, hsettings⟩ := bind_eq_ok.mp hok
  obtain ⟨m', hsettings, _⟩ := onMemory_eq_ok hsettings
  obtain ⟨u', hok'⟩ := exists_ok_of_result? hall
  obtain ⟨all, u₂, hdatabases, hfind⟩ := bind_eq_ok.mp hok'
  have hown : all.find? "" = some [("host", some "own.example.com")] :=
    (EStateM.Result.ok.inj hfind).1
  refine ⟨n, w₂, all, u₂, _, m', by decide +kernel, List.mem_cons_self, hload, hdatabases,
    hsettings, ?_⟩
  rw [hown]
  decide

end Loader

end LayeredConfig
