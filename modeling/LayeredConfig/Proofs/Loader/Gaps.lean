import LayeredConfig.Proofs.Loader.Filling
import LayeredConfig.Proofs.Node.Exporting
import LayeredConfig.Proofs.Tree.Layering

/-!
# Deriving values fills gaps and nothing else

What comes out when values are derived, as a relation between the fields before and after
(`Gaps.Filled`): keys that are not derived keep their values and their places, a name and an address
are kept if they are truthy, the switches if they are anything but nothing, and the version is
always written. Doing it twice leaves the same fields but for the computations of the predicates,
which the node is not written out with. These read the mode whenever they are read themselves
(`Loader.FollowsMode`).
-/

namespace LayeredConfig

open Memory (HandedOn Reruns)
open Loader (AsksMode derivations modeKeys modePredicates packageName)

/-! ## The fields that come out -/

namespace Gaps

variable {fields fields' : Entries Tree} {names names' : DeferredId → String}
  {version : String → String} {key : String} {d d' e e' : DeferredId}

/-- The keys of the values that are derived. -/
def derivedKeys : List String := modeKeys ++ keys ++ ["katello_version"]

theorem keys_derivations (names : DeferredId → String) (version : String → String)
    (d d' : DeferredId) (fields : Entries Tree) :
    (derivations names version d d' fields).keys = derivedKeys := rfl

theorem nodup_derivedKeys : derivedKeys.Nodup := by decide

/-- **What becomes of the fields** of a node when values are derived: they have the derived values,
and are otherwise what they were. -/
structure Filled (names : DeferredId → String) (version : String → String)
    (fields fields' : Entries Tree) : Prop where
  others : ∀ key, key ∉ derivedKeys → fields'.find? key = fields.find? key
  order : ∃ added, (∀ key ∈ added, key ∈ derivedKeys) ∧ fields'.keys = fields.keys ++ added
  name : fields'.find? "app_name" =
    if (under fields "app_name").truthy then fields.find? "app_name"
    else some (.scalar (.text (if inMode fields "katello" then "Katello" else "Headpin")))
  candlepin : fields'.find? "use_cp" =
    if (under fields "use_cp").isNull then some (.scalar (.bool true)) else fields.find? "use_cp"
  services : ∀ key ∈ ["use_pulp", "use_foreman", "use_elasticsearch"], fields'.find? key =
    if (under fields key).isNull then some (.scalar (.bool (inMode fields "katello")))
    else fields.find? key
  address : fields'.find? "email_reply_address" =
    if (under fields "email_reply_address").truthy then fields.find? "email_reply_address"
    else match fields.find? "host" with
      | some host => some (.scalar (.text ("no-reply@" ++ host.display names)))
      | none => fields.find? "email_reply_address"
  version : fields'.find? "katello_version" = some (.scalar (.text (version
    (if inMode fields "katello" then "katello-common" else "katello-headpin"))))

theorem filled_supply : Filled names version fields
    (fields.supply (derivations names version d d' fields)) := by
  have hkeys := keys_derivations names version d d' fields
  have hfind := Entries.find?_supply (hkeys ▸ nodup_derivedKeys) fields
  refine ⟨fun key hkey ↦ Entries.find?_supply_of_notMem (hkeys ▸ hkey) fields,
    hkeys ▸ Entries.keys_supply fields _, (hfind _).trans ?_, (hfind _).trans ?_, ?_,
    (hfind _).trans ?_, (hfind _).trans ?_⟩
  · change (Gaps.name _ fields).or _ = _
    rw [Gaps.name]
    split <;> rfl
  · change (switch true fields "use_cp").or _ = _
    rw [switch]
    split <;> rfl
  · have hservice : ∀ key ∈ ["use_pulp", "use_foreman", "use_elasticsearch"],
        ((derivations names version d d' fields).find? key).join
          = switch (inMode fields "katello") fields key := by
      simp only [List.forall_mem_cons]
      exact ⟨rfl, rfl, rfl, fun _ h ↦ absurd h List.not_mem_nil⟩
    intro key hkey
    rw [hfind, hservice key hkey, switch]
    split <;> rfl
  · change (Gaps.address names fields).or _ = _
    rw [Gaps.address]
    split
    · rfl
    · cases fields.find? "host" <;> rfl
  · rfl

/-- No computation is added but the predicates. -/
theorem settled_supply (hplain : ∀ key, key ∉ modeKeys → (under fields key).content.Settled)
    (hkey : key ∉ modeKeys) :
    (under (fields.supply (derivations names version d d' fields)) key).content.Settled := by
  have hkeys := keys_derivations names version d d' fields
  rw [under, Entries.find?_supply (hkeys ▸ nodup_derivedKeys)]
  cases hvalue : ((derivations names version d d' fields).find? key).join with
  | none => exact hplain key hkey
  | some t =>
    have hmem : (key, some t) ∈ derivations names version d d' fields :=
      Entries.mem_of_find? (Option.join_eq_some_iff.mp hvalue)
    rw [derivations, List.mem_cons, List.mem_cons, List.mem_append, List.mem_singleton] at hmem
    rw [Option.some_or, Option.getD_some]
    rcases hmem with heq | heq | hmem | heq
    · exact absurd (Prod.mk.inj heq).1 fun h ↦ hkey (h ▸ by decide)
    · exact absurd (Prod.mk.inj heq).1 fun h ↦ hkey (h ▸ by decide)
    · obtain ⟨s, rfl⟩ := scalar_of_mem_values hmem
      exact .scalar s
    · obtain rfl := Option.some.inj (Prod.mk.inj heq).2
      exact .scalar _

/-- The predicates are among the fields. -/
theorem mem_keys_supply : ∀ key ∈ modeKeys,
    key ∈ (fields.supply (derivations names version d d' fields)).keys := by
  have hkeys := keys_derivations names version d d' fields
  have hfind := Entries.find?_supply (hkeys ▸ nodup_derivedKeys) fields
  have hsome : ∀ key ∈ modeKeys, ∃ t, (fields.supply (derivations names version d d' fields)).find?
      key = some t := List.forall_mem_cons.mpr ⟨⟨_, hfind _⟩, List.forall_mem_singleton.mpr
    ⟨_, hfind _⟩⟩
  intro key hkey
  obtain ⟨t, ht⟩ := hsome key hkey
  exact Entries.mem_keys_of_mem (Entries.mem_of_find? ht)

/-- **Deriving values once more** makes new predicates and changes nothing else. -/
theorem supply_supply {once : Entries Tree}
    (honce : once = fields.supply (derivations names version d d' fields)) :
    once.supply (derivations names' version e e' once)
      = (once.put "is_katello" (.deferred e)).put "is_headpin" (.deferred e') := by
  have hkeys := keys_derivations names version d d' fields
  have hfind : ∀ key, once.find? key
      = ((derivations names version d d' fields).find? key).join.or (fields.find? key) := by
    rw [honce]
    exact Entries.find?_supply (hkeys ▸ nodup_derivedKeys) fields
  have hmode : inMode once "katello" = inMode fields "katello" := by
    rw [inMode, under_congr (hfind "app_mode"), inMode]
  have hsupplied : ∀ key ∈ "host" :: keys, once.find? key
      = ((values names (inMode fields "katello") fields).find? key).join.or (fields.find? key) := by
    simp only [keys, List.forall_mem_cons]
    exact ⟨hfind _, hfind _, hfind _, hfind _, hfind _, hfind _, hfind _,
      fun _ h ↦ absurd h List.not_mem_nil⟩
  have hnone : ∀ e ∈ values names' (inMode once "katello") once, e.2 = none :=
    eq_none_of_supplied hsupplied
  have hversion : once.find? "katello_version"
      = some (.scalar (.text (version (packageName (inMode once "katello"))))) := by
    rw [hfind, hmode]
    rfl
  rw [derivations, Entries.supply_cons, Entries.supply_cons, Entries.supply_append,
    Entries.supply_of_none hnone]
  refine Entries.put_of_find? ?_
  change ((once.put "is_katello" _).put "is_headpin" _).find? "katello_version" = _
  rw [Entries.find?_put_of_ne (by decide), Entries.find?_put_of_ne (by decide), hversion]

end Gaps

/-! ## Writing out -/

namespace Gaps

variable {fields fields' : Entries Tree}

/-- The fields as they are read, with the answers of the predicates. -/
def readFields (fields : Entries Tree) : Entries Blueprint :=
  ((fields.mapValues Tree.content).put "is_katello" (.scalar (.bool (inMode fields "katello")))).put
    "is_headpin" (.scalar (.bool (inMode fields "headpin")))

theorem find?_readFields_of_notMem {key : String} (h : key ∉ modeKeys) :
    (readFields fields).find? key = (fields.find? key).map Tree.content := by
  rw [readFields, Loader.find?_put_predicates h, Entries.find?_mapValues]

theorem find?_readFields_of_mem {p : String × String} (hp : p ∈ modePredicates) :
    (readFields fields).find? p.1 = some (.scalar (.bool (inMode fields p.2))) := by
  rcases List.mem_cons.mp hp with rfl | hp
  · rw [readFields, Entries.find?_put_of_ne (by decide), Entries.find?_put_self]
  · obtain rfl := List.mem_singleton.mp hp
    exact Entries.find?_put_self _ _ _

/-- Where the predicates stand already, reading them adds no key. -/
theorem keys_readFields (h : ∀ key ∈ modeKeys, key ∈ fields.keys) :
    (readFields fields).keys = fields.keys := by
  have hkatello : "is_katello" ∈ fields.keys := h _ (by decide)
  have hheadpin : "is_headpin" ∈ fields.keys := h _ (by decide)
  rw [readFields, Entries.keys_put, Entries.keys_put, Entries.keys_mapValues, if_pos hkatello,
    if_pos hheadpin]

/-- What stands under the keys of the predicates makes no difference. -/
theorem readFields_congr (hnodup : fields.keys.Nodup) (hkeys : fields'.keys = fields.keys)
    (hmode : ∀ key ∈ modeKeys, key ∈ fields.keys)
    (h : ∀ key, key ∉ modeKeys → fields'.find? key = fields.find? key) :
    readFields fields' = readFields fields := by
  have hmode' : ∀ key ∈ modeKeys, key ∈ fields'.keys := hkeys.symm ▸ hmode
  have hin : ∀ mode, inMode fields' mode = inMode fields mode := fun mode ↦ by
    rw [inMode, under_congr (h _ (by decide)), inMode]
  refine Entries.ext_find? ?_ ?_ fun key ↦ ?_
  · rw [keys_readFields hmode, keys_readFields hmode', hkeys]
  · rw [keys_readFields hmode', hkeys]
    exact hnodup
  · by_cases hkey : key ∈ modeKeys
    · obtain ⟨p, hp, rfl⟩ := List.mem_map.mp hkey
      rw [find?_readFields_of_mem hp, find?_readFields_of_mem hp, hin]
    · rw [find?_readFields_of_notMem hkey, find?_readFields_of_notMem hkey, h key hkey]

end Gaps

namespace Memory

variable {m : Memory} {d : DeferredId} {s : Scalar}

/-- The scalar that a computation gives; nothing if it gives none. -/
def answer (m : Memory) (d : DeferredId) : Scalar :=
  match evaluate d m with
  | .ok (.scalar s) _ => s
  | _ => .null

theorem Answers.answer_eq (h : m.Answers d s) : m.answer d = s := by
  obtain ⟨m', hok, -⟩ := h m (Std.Refl.refl m)
  rw [answer, hok]

end Memory

namespace Loader.AsksMode

variable {m : Memory} {n : NodeId} {key : String} {t : Tree} (h : AsksMode m n n)

include h

theorem mem_keys : ∀ key ∈ modeKeys, key ∈ (m.forest.fields n).keys := by
  intro key hkey
  obtain ⟨p, hp, rfl⟩ := List.mem_map.mp hkey
  obtain ⟨d, hd, -⟩ := h p hp
  exact Entries.mem_keys_of_mem (Entries.mem_of_find? (Forest.find?_fields_of_find? hd))

variable (hplain : ∀ key, key ∉ modeKeys → (Gaps.under (m.forest.fields n) key).content.Settled)

include hplain

/-- A predicate answers as the mode says, and running it changes no node. -/
theorem answers {p : String × String} (hp : p ∈ modePredicates) :
    ∃ d, (m.forest.fields n).find? p.1 = some (.deferred d) ∧
      m.Answers d (.bool (Gaps.inMode (m.forest.fields n) p.2)) := by
  obtain ⟨d, hd, -, hbody⟩ := h p hp
  refine ⟨d, Forest.find?_fields_of_find? hd, fun m' hmm ↦
    ⟨m'.countRun d, ?_, Memory.reruns_countRun m' d⟩⟩
  have hmode := hplain "app_mode" (by decide)
  rw [under_fields, ← hmm.view_eq, ← hmm.forest_eq] at hmode
  rw [← hmm.forest_eq, ← modeIs_eq]
  exact evaluate_holds ((hmm.body_eq d).trans hbody) (Memory.find?_ne_deferred hmode)

/-- What stands under a key holds no computation, or it is one that gives a scalar. -/
theorem settled_or_answers (ht : (m.forest.fields n).find? key = some t) :
    t.content.Settled ∨ ∃ d, t.content = .deferred d ∧ m.Answers d (m.answer d) := by
  by_cases hkey : key ∈ modeKeys
  · obtain ⟨p, hp, rfl⟩ := List.mem_map.mp hkey
    obtain ⟨d, hd, hanswer⟩ := h.answers hplain hp
    obtain rfl := Option.some.inj (ht.symm.trans hd)
    refine .inr ⟨d, rfl, ?_⟩
    rw [hanswer.answer_eq]
    exact hanswer
  · have hsettled := hplain key hkey
    rw [Gaps.under, ht] at hsettled
    exact .inl hsettled

/-- The answers are what the fields are read as. -/
theorem answered_eq (hnodup : (m.forest.fields n).keys.Nodup) :
    ((m.forest.fields n).mapValues Tree.content).mapValues (Blueprint.answered m.answer)
      = Gaps.readFields (m.forest.fields n) := by
  refine Entries.ext_find? ?_ ?_ fun key ↦ ?_
  · rw [Gaps.keys_readFields h.mem_keys, Entries.keys_mapValues, Entries.keys_mapValues]
  · rw [Entries.keys_mapValues, Entries.keys_mapValues]
    exact hnodup
  · rw [Entries.find?_mapValues, Entries.find?_mapValues]
    by_cases hkey : key ∈ modeKeys
    · obtain ⟨p, hp, rfl⟩ := List.mem_map.mp hkey
      obtain ⟨d, hd, hanswer⟩ := h.answers hplain hp
      rw [hd, Gaps.find?_readFields_of_mem hp, ← hanswer.answer_eq]
      rfl
    · rw [Gaps.find?_readFields_of_notMem hkey]
      cases ht : (m.forest.fields n).find? key with
      | none => rfl
      | some t =>
        have hsettled := hplain key hkey
        rw [Gaps.under, ht] at hsettled
        exact congrArg some (hsettled.answered_eq m.answer)

/-- **Writing out a node** whose only computations are predicates on its own mode. -/
theorem toMapping (hm : m.forest.Sound) : ∃ m', Node.toMapping n m
      = .ok (Blueprint.node (Gaps.readFields (m.forest.fields n))).plain m' ∧ Reruns m m' := by
  have hnodup : (m.forest.fields n).keys.Nodup := by
    rw [Forest.fields, Entries.keys_mapValues]
    exact hm.distinct n
  have hentries : ∀ e ∈ (m.forest.fields n).mapValues Tree.content,
      e.2.Settled ∨ ∃ d, e.2 = .deferred d ∧ m.Answers d (m.answer d) := fun e he ↦ by
    obtain ⟨a, ha, rfl⟩ := List.mem_map.mp he
    exact h.settled_or_answers hplain (Entries.find?_of_mem hnodup ha)
  rw [← h.answered_eq hplain hnodup]
  exact Node.toMapping_of_content hm (Memory.content_node_eq hm n) hentries

end Loader.AsksMode

/-! ## Following the mode -/

namespace Loader

/-- The mode of the node reads as the given value, whichever predicate asks for it. -/
def ModeReads (m : Memory) (n : NodeId) (v : Value) : Prop := ∀ d, ∃ m',
  Node.valueWith (evaluateWithin 255) n (.text "app_mode") (m.countRun d) = .ok v m'

/-- The predicates that stand in the node follow its mode. They read it and compare it, and they are
not both true of what it reads as. -/
structure FollowsMode (m : Memory) (n : NodeId) : Prop where
  reads : ∀ p ∈ modePredicates, ∃ d, Node.get n (.text p.1) m = (do
    let mode ← Node.valueWith (evaluateWithin 255) n (.text "app_mode")
    return .bool (← equalValues mode (.text p.2)) : Eval Value) (m.countRun d)
  plain : (∀ e, m.forest.find? n "app_mode" ≠ some (.deferred e)) → ∀ p ∈ modePredicates,
    ∃ d, Node.get n (.text p.1) m = .ok (.bool (m.modeIs n p.2)) (m.countRun d)
  never : ∀ v, ModeReads m n v → ∀ m₁ m₂,
    Node.get n (.text "is_katello") m = .ok (.bool true) m₁ →
      Node.get n (.text "is_headpin") m ≠ .ok (.bool true) m₂

theorem modeReads_of_plain {m : Memory} {n : NodeId}
    (h : ∀ e, m.forest.find? n "app_mode" ≠ some (.deferred e)) :
    ModeReads m n ((m.forest.find? n "app_mode").getD .null) := fun d ↦
  ⟨m.countRun d, Node.valueWith_of_plain (m := m.countRun d) h _⟩

/-- Only a text equals a text. -/
theorem eq_text_of_equal {m : Memory} {v : Value} {s : String}
    (h : (m.view v).equal (.scalar (.text s)) = true) : v = .text s := by
  rw [← Tree.equal_scalar_content, Blueprint.equal_text_iff] at h
  have hview := Tree.eq_scalar_of_content h
  rw [Memory.view] at hview
  cases v with
  | scalar s' => exact congrArg Value.scalar (Tree.scalar.inj hview)
  | seq kind items => rw [Forest.view_seq] at hview; cases hview
  | mapping entries => rw [Forest.view_mapping] at hview; cases hview
  | node c =>
    rw [Forest.view, Value.graft_node] at hview
    revert hview
    cases m.forest.cells.size <;>
      · intro hview
        cases hview
  | _ => cases hview

/-- A predicate that is true has read the mode that it asks for. -/
theorem AsksMode.eq_text_of_get {m m' : Memory} {n : NodeId} {v : Value} (h : AsksMode m n n)
    (hv : ModeReads m n v) {p : String × String} (hp : p ∈ modePredicates)
    (hget : Node.get n (.text p.1) m = .ok (.bool true) m') : v = .text p.2 := by
  obtain ⟨d, -, hread, -⟩ := h.get_eq hp
  obtain ⟨m₁, hv⟩ := hv d
  rw [hread, bind_of_ok hv] at hget
  have hequal : (m₁.view v).equal (.scalar (.text p.2)) = true :=
    Scalar.bool.inj (Value.scalar.inj (EStateM.Result.ok.inj hget).1)
  exact eq_text_of_equal hequal

theorem AsksMode.followsMode {m : Memory} {n : NodeId} (h : AsksMode m n n) : FollowsMode m n where
  reads p hp := by
    obtain ⟨d, -, hread, -⟩ := h.get_eq hp
    exact ⟨d, hread⟩
  plain hplain p hp := by
    obtain ⟨d, -, -, hread⟩ := h.get_eq hp
    exact ⟨d, hread hplain⟩
  never v hv m₁ m₂ hkatello hheadpin := by
    have hkatello := h.eq_text_of_get hv (p := ("is_katello", "katello")) (by decide) hkatello
    have hheadpin := h.eq_text_of_get hv (p := ("is_headpin", "headpin")) (by decide) hheadpin
    have heq := Scalar.text.inj (Value.scalar.inj (hkatello.symm.trans hheadpin))
    exact absurd heq (by decide)

/-! ## Deriving values -/

/-- Where values have been derived, doing so once more succeeds, and the node is written out as the
fields are read already. -/
theorem derive_derived {l : Loader} {version : String → String} (hl : l.Versions version)
    {w : World} {m₀ : Memory} {n : NodeId} {names : DeferredId → String} {d d' : DeferredId}
    {fields once : Entries Tree} (h : Filling m₀ w.memory n once)
    (honce : once = fields.supply (derivations names version d d' fields))
    (hplain : ∀ key, key ∉ modeKeys → (Gaps.under once key).content.Settled) :
    ∃ w' m, l.derive n w = .ok () w' ∧
      Node.toMapping n w'.memory = .ok (Blueprint.node (Gaps.readFields once)).plain m := by
  obtain ⟨w', e, e', hok, h', hasks⟩ := derive_filling hl h names hplain
  rw [Gaps.supply_supply honce] at h'
  have hkeys : ∀ key ∈ modeKeys, key ∈ once.keys := honce ▸ Gaps.mem_keys_supply
  have hothers : ∀ key, key ∉ modeKeys →
      (w'.memory.forest.fields n).find? key = once.find? key := fun key hkey ↦ by
    rw [h'.fields_eq, find?_put_predicates hkey]
  have hkatello : "is_katello" ∈ once.keys := hkeys _ (by decide)
  have hheadpin : "is_headpin" ∈ once.keys := hkeys _ (by decide)
  have hsame : (w'.memory.forest.fields n).keys = once.keys := by
    rw [h'.fields_eq, Entries.keys_put, Entries.keys_put, if_pos hkatello, if_pos hheadpin]
  obtain ⟨m, hmapping, -⟩ := hasks.toMapping (fun key hkey ↦ by
    rw [Gaps.under_congr (hothers key hkey)]
    exact hplain key hkey) h'.sound
  rw [Gaps.readFields_congr h.nodup_keys hsame hkeys hothers] at hmapping
  exact ⟨w', m, hok, hmapping⟩

end Loader

end LayeredConfig
