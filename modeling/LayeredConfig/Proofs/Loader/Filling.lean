import LayeredConfig.Proofs.Loader.Predicates
import LayeredConfig.Proofs.Rule.Representing
import LayeredConfig.Proofs.Tree.Supplying

/-!
# Filling in derived values

Deriving values reads and writes one node. What it reads are the keys that it may have to fill, the
mode and the host, and as long as no computation stands there it runs none but its own. So the
fields of the node, as trees, say all about the derivation: it supplies them with values that are a
function of the fields before (`Loader.derive_filling`). Nodes below may be frozen or not, and it
does not matter what stands under the keys of the predicates: they may stem from an earlier
derivation.
-/

namespace LayeredConfig

open Memory (HandedOn Reruns Retains)

/-- What stands under a key of a node, as a tree. -/
theorem under_fields (m : Memory) (n : NodeId) (key : String) :
    Gaps.under (m.forest.fields n) key = m.view ((m.forest.find? n key).getD .null) := by
  rw [Gaps.under, Forest.find?_fields]
  cases m.forest.find? n key <;> rfl

theorem modeIs_eq (m : Memory) (n : NodeId) (mode : String) :
    m.modeIs n mode = Gaps.inMode (m.forest.fields n) mode := by
  rw [Memory.modeIs, ← under_fields, Gaps.inMode]

/-- Writing the predicates leaves the other keys as they are. -/
theorem Loader.find?_put_predicates {α : Type} {key : String} (h : key ∉ modeKeys)
    (fields : Entries α) (a b : α) :
    ((fields.put "is_katello" a).put "is_headpin" b).find? key = fields.find? key := by
  have hne : key ≠ "is_katello" ∧ key ≠ "is_headpin" :=
    ⟨fun heq ↦ h (heq ▸ by decide), fun heq ↦ h (heq ▸ by decide)⟩
  rw [Entries.find?_put_of_ne hne.2, Entries.find?_put_of_ne hne.1]

/-- What was made of a node by writing to it: it holds the given fields, and no other node has
changed. -/
structure Filling (m₀ m : Memory) (n : NodeId) (fields : Entries Tree) : Prop where
  edited : Forest.Edited n m₀.forest m.forest
  frozen : m.forest.frozen n = false
  frame : ∀ {c}, c ∈ m₀.forest → c ≠ n → m.forest.cell c = m₀.forest.cell c
  fields_eq : m.forest.fields n = fields

namespace Filling

variable {m₀ m m' : Memory} {n : NodeId} {fields : Entries Tree} {key : String} {v : Value}

theorem refl (hm : m.forest.Sound) (hn : m.forest.frozen n = false) :
    Filling m m n (m.forest.fields n) := ⟨.refl hm n, hn, fun _ _ ↦ rfl, rfl⟩

variable (h : Filling m₀ m n fields)

include h

theorem sound : m.forest.Sound := h.edited.sound

theorem later (hmm : m'.forest = m.forest) : Filling m₀ m' n fields := by
  refine ⟨?_, ?_, fun hc hne ↦ ?_, ?_⟩
  · rw [hmm]
    exact h.edited
  · rw [hmm, h.frozen]
  · rw [hmm, h.frame hc hne]
  · rw [hmm, h.fields_eq]

theorem nodup_keys : fields.keys.Nodup := by
  rw [← h.fields_eq, Forest.fields, Entries.keys_mapValues]
  exact h.sound.distinct n

/-- A value that can be stored is written. -/
theorem set (hv : (m.view v).WellKeyed) (key : String) :
    ∃ m' t, Node.set n (.text key) v m = .ok () m' ∧ Filling m₀ m' n (fields.put key t) ∧
      t.content = (m.view v).content := by
  obtain ⟨g, t, hwrite, hfields, hcopy⟩ := h.sound.write_fields h.frozen hv key
  have hedited := h.sound.edited_write h.frozen key v
  rw [after_of_ok hwrite] at hedited
  have hmem := Forest.mem_of_frozen_eq_false h.frozen
  refine ⟨{ m with forest := g }, t, ?_, ⟨h.edited.trans hedited, ?_, fun hc hne ↦ ?_, ?_⟩,
    hcopy.content⟩
  · exact onForest_of_ok ((Forest.assign_of_writable h.frozen key v).trans hwrite)
  · rw [hedited.frozen_eq hmem, h.frozen]
  · rw [h.sound.cell_write hwrite (h.edited.mem hc) hne, h.frame hc hne]
  · rw [hfields, h.fields_eq]

theorem set_scalar (key : String) (s : Scalar) :
    ∃ m', Node.set n (.text key) (.scalar s) m = .ok () m' ∧
      Filling m₀ m' n (fields.put key (.scalar s)) := by
  obtain ⟨m', t, hok, h', ht⟩ := h.set (v := .scalar s) (.scalar s) key
  obtain rfl := Tree.eq_scalar_of_content ht
  exact ⟨m', hok, h'⟩

theorem definePredicate (key mode : String) :
    ∃ m' d, Loader.definePredicate n key mode m = .ok () m' ∧
      Filling m₀ m' n (fields.put key (.deferred d)) := by
  let c := Computation.holds n "app_mode" (.text mode)
  let d := (m.define c).1
  have hdefine : (modifyGet fun m ↦ m.define c : Eval DeferredId) m = .ok d (m.define c).2 := rfl
  have hdefined : Filling m₀ (m.define c).2 n fields := h.later rfl
  obtain ⟨m', t, hok, h', ht⟩ := hdefined.set (v := .deferred d) (.deferred d) key
  obtain rfl := Tree.eq_deferred_of_content ht
  exact ⟨m', d, (bind_of_ok hdefine).trans hok, h'⟩

/-! ## Reading -/

/-- What stands under a key is read as it is, unless it is a computation. -/
theorem valueOf (hplain : (Gaps.under fields key).content.Settled) :
    ∃ v, Node.valueOf n (.text key) m = .ok v m ∧ m.view v = Gaps.under fields key := by
  rw [← h.fields_eq, Gaps.under, Forest.find?_fields] at hplain ⊢
  rw [Node.valueOf, bind_of_ok (Node.hasKey_text n key m)]
  cases hv : m.forest.find? n key with
  | none => exact ⟨.null, rfl, rfl⟩
  | some v =>
    rw [hv] at hplain
    refine ⟨v, ?_, rfl⟩
    rw [Option.isSome_some, if_pos rfl, Node.get, Node.getWith_of_some hv,
      Memory.resolve_of_settled hplain]
    rfl

theorem truthyValue_eq {t : Tree} (hv : m.view v = t) :
    truthyValue v m = .ok t.truthy m := by
  rw [← hv, Memory.truthy_view h.sound]
  rfl

end Filling

/-! ## Filling single gaps

Each gap is looked for when some of the other values have been supplied already. They make no
difference to it.
-/

namespace Filling

variable {m₀ m m' : Memory} {n : NodeId} {fields : Entries Tree} {done : Entries (Option Tree)}
  {key : String} (h : Filling m₀ m n (fields.supply done))

include h

theorem valueOf_supply (hkey : key ∉ done.keys)
    (hplain : (Gaps.under fields key).content.Settled) :
    ∃ v, Node.valueOf n (.text key) m = .ok v m ∧ m.view v = Gaps.under fields key := by
  rw [← Gaps.under_congr (Entries.find?_supply_of_notMem hkey fields)] at hplain ⊢
  exact h.valueOf hplain

theorem supply_scalar (key : String) (s : Scalar) :
    ∃ m', Node.set n (.text key) (.scalar s) m = .ok () m' ∧
      Filling m₀ m' n (fields.supply (done ++ [(key, some (.scalar s))])) := by
  rw [Entries.supply_append]
  exact h.set_scalar key s

theorem supply_none (key : String) : Filling m₀ m n (fields.supply (done ++ [(key, none)])) := by
  rw [Entries.supply_append]
  exact h

theorem deriveName (katello : Bool) (hkey : "app_name" ∉ done.keys)
    (hplain : (Gaps.under fields "app_name").content.Settled) :
    ∃ m', Loader.deriveName n katello m = .ok () m' ∧
      Filling m₀ m' n (fields.supply (done ++ [("app_name", Gaps.name katello fields)])) := by
  obtain ⟨v, hv, hview⟩ := h.valueOf_supply hkey hplain
  rw [Loader.deriveName, bind_of_ok hv, bind_of_ok (h.truthyValue_eq hview), Gaps.name]
  cases (Gaps.under fields "app_name").truthy with
  | true => exact ⟨m, rfl, h.supply_none _⟩
  | false => exact h.supply_scalar _ _

theorem fillNull (key : String) (b : Bool) (hkey : key ∉ done.keys)
    (hplain : (Gaps.under fields key).content.Settled) :
    ∃ m', Loader.fillNull n (.bool b) key m = .ok () m' ∧
      Filling m₀ m' n (fields.supply (done ++ [(key, Gaps.switch b fields key)])) := by
  obtain ⟨v, hv, hview⟩ := h.valueOf_supply hkey hplain
  rw [Loader.fillNull, bind_of_ok hv, Gaps.switch, ← hview]
  by_cases hnull : v = .null
  · subst hnull
    exact h.supply_scalar key (.bool b)
  · have hset : (m.view v).isNull = false := by
      unfold Tree.isNull
      split
      · next heq => exact absurd (h.sound.eq_scalar_of_view heq) hnull
      · rfl
    rw [hset, if_neg Bool.false_ne_true]
    refine ⟨m, ?_, h.supply_none key⟩
    split
    · next heq => exact absurd rfl hnull
    · rfl

/-- What stands under a key is shown in the same way whatever computations are called. -/
theorem displayValue_eq {v : Value} (hv : m.forest.find? n key = some v)
    (hplain : (m.view v).content.Settled) (names : DeferredId → String) :
    displayValue v m = .ok ((m.view v).display names) m := by
  have hconverted := h.sound.converted_view n
  rw [h.sound.view_eq_fields] at hconverted
  cases hconverted with
  | node _ _ hall =>
    have hmem := Entries.mem_of_find? (Forest.find?_fields_of_find? hv)
    exact congrArg (EStateM.Result.ok · m) ((hall _ hmem).display_eq hplain m.nameOf names)

theorem deriveReplyAddress (names : DeferredId → String) (hkey : "email_reply_address" ∉ done.keys)
    (hplain : (Gaps.under fields "email_reply_address").content.Settled)
    (hkeyHost : "host" ∉ done.keys) (hhost : (Gaps.under fields "host").content.Settled) :
    ∃ m', Loader.deriveReplyAddress n m = .ok () m' ∧
      Filling m₀ m' n
        (fields.supply (done ++ [("email_reply_address", Gaps.address names fields)])) := by
  obtain ⟨v, hv, hview⟩ := h.valueOf_supply hkey hplain
  rw [Loader.deriveReplyAddress, bind_of_ok hv, bind_of_ok (h.truthyValue_eq hview), Gaps.address]
  cases (Gaps.under fields "email_reply_address").truthy with
  | true => exact ⟨m, rfl, h.supply_none _⟩
  | false =>
    rw [Bool.not_false, if_pos rfl, if_neg Bool.false_ne_true,
      bind_of_ok (Node.hasKey_text n "host" m)]
    have hfields : fields.find? "host" = (m.forest.find? n "host").map m.view := by
      rw [← Entries.find?_supply_of_notMem hkeyHost fields, ← h.fields_eq, Forest.find?_fields]
      rfl
    rw [Gaps.under, hfields] at hhost
    rw [hfields]
    -- without an address it depends on whether there is a host to take
    cases hfound : m.forest.find? n "host" with
    | none => exact ⟨m, rfl, h.supply_none _⟩
    | some host =>
      rw [hfound] at hhost
      have hget : Node.get n (.text "host") m = .ok host m := by
        rw [Node.get, Node.getWith_of_some hfound, Memory.resolve_of_settled hhost]
        rfl
      rw [Option.isSome_some, if_pos rfl, bind_of_ok hget,
        bind_of_ok (h.displayValue_eq hfound hhost names)]
      exact h.supply_scalar _ _

end Filling

/-! ## Filling all gaps -/

namespace Filling

variable {m₀ m m' : Memory} {n : NodeId} {fields : Entries Tree} {katello : Bool}

/-- **What follows the predicates** supplies the values for all gaps. -/
theorem deriveDefaults (h : Filling m₀ m n fields) (names : DeferredId → String)
    (hread : Node.get n (.text "is_katello") m = .ok (.bool katello) m')
    (hforest : m'.forest = m.forest)
    (hplain : ∀ key ∈ "host" :: Gaps.keys, (Gaps.under fields key).content.Settled) :
    ∃ m'', Loader.deriveDefaults n m = .ok katello m'' ∧
      Filling m₀ m'' n (fields.supply (Gaps.values names katello fields)) := by
  have h₀ : Filling m₀ m' n (fields.supply []) := h.later hforest
  obtain ⟨m₁, hok₁, h₁⟩ := h₀.deriveName katello (by decide) (hplain _ (by decide))
  obtain ⟨m₂, hok₂, h₂⟩ := h₁.fillNull "use_cp" true (by simp [Entries.keys])
    (hplain _ (by decide))
  obtain ⟨m₃, hok₃, h₃⟩ := h₂.fillNull "use_pulp" katello (by simp [Entries.keys])
    (hplain _ (by decide))
  obtain ⟨m₄, hok₄, h₄⟩ := h₃.fillNull "use_foreman" katello (by simp [Entries.keys])
    (hplain _ (by decide))
  obtain ⟨m₅, hok₅, h₅⟩ := h₄.fillNull "use_elasticsearch" katello
    (by simp [Entries.keys]) (hplain _ (by decide))
  obtain ⟨m₆, hok₆, h₆⟩ := h₅.deriveReplyAddress names (by simp [Entries.keys])
    (hplain _ (by decide)) (by simp [Entries.keys]) (hplain _ (by decide))
  have htruthy : truthyValue (.bool katello) m' = .ok katello m' := rfl
  have hservices : ["use_pulp", "use_foreman", "use_elasticsearch"].forM
      (Loader.fillNull n (.bool katello)) m₂ = .ok () m₅ :=
    (bind_of_ok hok₃).trans ((bind_of_ok hok₄).trans ((bind_of_ok hok₅).trans rfl))
  refine ⟨m₆, ?_, h₆⟩
  rw [Loader.deriveDefaults, bind_of_ok hread, bind_of_ok htruthy, bind_of_ok hok₁,
    bind_of_ok hok₂, bind_of_ok hservices, bind_of_ok hok₆]
  rfl

end Filling

namespace Loader

/-- The collaborator tells the given versions, whenever it is asked, and does nothing to nodes. -/
def Versions (l : Loader) (version : String → String) : Prop :=
  ∀ package (w : World), ∃ w', l.version (.text package) w = .ok (.text (version package)) w' ∧
    Reruns w.memory w'.memory

theorem versions_versionedLoader : versionedLoader.Versions fun _ ↦ "1.0" :=
  fun _ w ↦ ⟨w, rfl, Std.Refl.refl w.memory⟩

/-- The values that are derived, given the predicates that are made. -/
def derivations (names : DeferredId → String) (version : String → String) (d d' : DeferredId)
    (fields : Entries Tree) : Entries (Option Tree) :=
  let katello := Gaps.inMode fields "katello"
  ("is_katello", some (.deferred d)) :: ("is_headpin", some (.deferred d')) ::
    (Gaps.values names katello fields ++
      [("katello_version", some (.scalar (.text (version (packageName katello)))))])

/-- The computation under a key is the same where the trees of the fields are. -/
theorem find?_of_fields {m m' : Memory} {n : NodeId} {key : String} {d : DeferredId}
    (hm' : m'.forest.Sound) (h : (m'.forest.fields n).find? key = (m.forest.fields n).find? key)
    (hd : m.forest.find? n key = some (.deferred d)) :
    m'.forest.find? n key = some (.deferred d) := by
  rw [Forest.find?_fields, Forest.find?_fields_of_find? hd] at h
  obtain ⟨v, hv, hview⟩ := Option.map_eq_some_iff.mp h
  rw [hv, hm'.eq_deferred_of_view hview]

/-- **Deriving values**, where no computation stands under any key but those of the predicates. -/
theorem derive_filling {l : Loader} {version : String → String} (hl : l.Versions version)
    {w : World} {m₀ : Memory} {n : NodeId} {fields : Entries Tree}
    (h : Filling m₀ w.memory n fields) (names : DeferredId → String)
    (hplain : ∀ key, key ∉ modeKeys → (Gaps.under fields key).content.Settled) :
    ∃ w' d d', l.derive n w = .ok () w' ∧
      Filling m₀ w'.memory n (fields.supply (derivations names version d d' fields)) ∧
      AsksMode w'.memory n n := by
  obtain ⟨m₁, d, hok₁, h₁⟩ := h.definePredicate "is_katello" "katello"
  obtain ⟨m₂, d', hok₂, h₂⟩ := h₁.definePredicate "is_headpin" "headpin"
  have hdefine : definePredicates n w.memory = .ok () m₂ := (bind_of_ok hok₁).trans hok₂
  have hasks := asksMode_definePredicates hdefine
  -- neither the mode nor a key with a gap is one of the keys written so far
  have hkept : ∀ key, key ∉ modeKeys →
      ((fields.put "is_katello" (.deferred d)).put "is_headpin" (.deferred d')).find? key
        = fields.find? key := fun key hkey ↦ find?_put_predicates hkey fields _ _
  have hsettled : ∀ key, key ∉ modeKeys → (Gaps.under (m₂.forest.fields n) key).content.Settled :=
    fun key hkey ↦ by
      rw [h₂.fields_eq, Gaps.under_congr (hkept key hkey)]
      exact hplain key hkey
  have hnot : ∀ key ∈ "host" :: Gaps.keys, key ∉ modeKeys := by decide
  obtain ⟨e, -, -, hread⟩ := hasks.get_eq (p := ("is_katello", "katello")) (by decide)
  have hmode : Node.get n (.text "is_katello") m₂
      = .ok (.bool (Gaps.inMode fields "katello")) (m₂.countRun e) := by
    rw [hread (Memory.find?_ne_deferred (under_fields m₂ n _ ▸ hsettled _ (by decide))), modeIs_eq,
      h₂.fields_eq, Gaps.inMode, Gaps.under_congr (hkept _ (by decide)), Gaps.inMode]
  obtain ⟨m₃, hok₃, h₃⟩ := h₂.deriveDefaults names hmode rfl fun key hkey ↦
    h₂.fields_eq ▸ hsettled key (hnot key hkey)
  rw [Gaps.values_congr fun key hkey ↦ hkept key (hnot key hkey)] at h₃
  obtain ⟨w₄, hok₄, hmm⟩ := hl (packageName (Gaps.inMode fields "katello")) { w with memory := m₃ }
  obtain ⟨m₅, hok₅, h₅⟩ := (h₃.later hmm.forest_eq).set_scalar "katello_version"
    (.text (version (packageName (Gaps.inMode fields "katello"))))
  have hvalues : deriveValues n w.memory = .ok (Gaps.inMode fields "katello") m₃ := by
    rw [deriveValues_eq, bind_of_ok hdefine, hok₃]
  refine ⟨{ w₄ with memory := m₅ }, d, d', ?_, h₅, fun p hp ↦ ?_⟩
  · rw [derive]
    refine (bind_of_ok (onMemory_of_ok hvalues)).trans ?_
    rw [bind_of_ok hok₄]
    exact onMemory_of_ok hok₅
  · have hretains : Retains m₂ m₅ :=
      calc Retains m₂ m₃ := (keeps_deriveDefaults n).of_ok hok₃
        Retains _ w₄.memory := (hmm.beyond h₃.sound).retains
        Retains _ m₅ := (Node.keeps_set n _ _).of_ok hok₅
    have hpredicate : ∀ p ∈ modePredicates, p.1 ≠ "katello_version" ∧ p.1 ∉ Gaps.keys := by decide
    refine (hasks p hp).handedOn hretains fun _ ↦ find?_of_fields h₅.sound ?_
    rw [h₅.fields_eq, h₂.fields_eq, Entries.find?_put_of_ne (hpredicate p hp).1,
      Entries.find?_supply_of_notMem (hpredicate p hp).2]

end Loader

end LayeredConfig
