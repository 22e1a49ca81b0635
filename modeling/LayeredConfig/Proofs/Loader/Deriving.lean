import LayeredConfig.Proofs.Loader.Sections
import LayeredConfig.Proofs.Node.Exporting

/-!
# Deriving values

The values that a loader derives, as a function of the merged contents, and the derivation as it
runs. Two of the derived values are computations that are stored in the node and ask it for its
mode each time they are read. Nothing that is derived afterwards touches the mode, so reading the
node gives the same contents as if their answers were stored (`ReadsAs`).
-/

namespace LayeredConfig

open Memory (Beyond Stored Presents Reruns)

/-! ## Derived contents -/

namespace Derived

/-- What is found under a key; nothing if the key is not there. -/
def found (fields : Entries Blueprint) (key : String) : Blueprint :=
  (fields.find? key).getD (.scalar .null)

/-- Whether the mode is the given one. -/
def inMode (mode : Blueprint) (name : String) : Bool := mode.tree.equal (.scalar (.text name))

/-- The name of the application, unless it has one. -/
def named (katello : Bool) (fields : Entries Blueprint) : Entries Blueprint :=
  if (found fields "app_name").tree.truthy then fields
  else fields.put "app_name" (.scalar (.text (if katello then "Katello" else "Headpin")))

/-- A value under a key that holds nothing. -/
def filled (s : Scalar) (fields : Entries Blueprint) (key : String) : Entries Blueprint :=
  match found fields key with
  | .scalar .null => fields.put key (.scalar s)
  | _ => fields

theorem filled_of_null {s : Scalar} {fields : Entries Blueprint} {key : String}
    (h : found fields key = .scalar .null) : filled s fields key = fields.put key (.scalar s) := by
  rw [filled, h]

theorem filled_of_ne {s : Scalar} {fields : Entries Blueprint} {key : String}
    (h : found fields key ≠ .scalar .null) : filled s fields key = fields := by
  unfold filled
  split
  · next hnull => exact absurd hnull h
  · rfl

/-- The address that mail is sent from: the host's, unless one is set. -/
def addressed (fields : Entries Blueprint) : Entries Blueprint :=
  if (found fields "email_reply_address").tree.truthy then fields
  else match fields.find? "host" with
    | none => fields
    | some host => fields.put "email_reply_address"
        (.scalar (.text ("no-reply@" ++ host.tree.display fun _ ↦ "")))

/-- All derived values but the version. -/
def values (fields : Entries Blueprint) : Entries Blueprint :=
  let mode := found fields "app_mode"
  let katello := inMode mode "katello"
  let fields := fields.put "is_katello" (.scalar (.bool katello))
  let fields := fields.put "is_headpin" (.scalar (.bool (inMode mode "headpin")))
  let fields := filled (.bool true) (named katello fields) "use_cp"
  addressed (["use_pulp", "use_foreman", "use_elasticsearch"].foldl (filled (.bool katello)) fields)

end Derived

/-- The fields with the derived values filled in. -/
def Derived.all (version : String) (fields : Entries Blueprint) : Entries Blueprint :=
  (values fields).put "katello_version" (.scalar (.text version))

/-! ## Predicates on the mode -/

/-- The computation tells whether the mode of the node, which is given, is some text; this is its
answer. -/
structure Memory.Tells (m : Memory) (n : NodeId) (mode : Blueprint) (d : DeferredId) (s : Scalar) :
    Prop where
  mem : d.index < m.computations.size
  body_eq : ∃ name, (m.computation d).body = (Computation.holds n "app_mode" (.text name)).body ∧
    s = .bool (Derived.inMode mode name)

namespace Memory.Tells

variable {m m' : Memory} {n : NodeId} {mode : Blueprint} {d : DeferredId} {s : Scalar}
  (h : m.Tells n mode d s)

include h

theorem beyond (hmm : Beyond m m') : m'.Tells n mode d s where
  mem := Nat.lt_of_lt_of_le h.mem hmm.size_le
  body_eq := by
    rw [hmm.body_eq d h.mem]
    exact h.body_eq

theorem congr (hc : m'.computations = m.computations) : m'.Tells n mode d s := by
  have hcomputation : ∀ d, m'.computation d = m.computation d := fun d ↦ by
    rw [Memory.computation, hc, ← Memory.computation]
  refine ⟨by rw [hc]; exact h.mem, ?_⟩
  rw [hcomputation]
  exact h.body_eq

end Memory.Tells

/-- What the node holds under the key of its mode has the given content, and no computation. -/
structure Memory.HasMode (m : Memory) (n : NodeId) (mode : Blueprint) : Prop where
  content : (m.view ((m.forest.find? n "app_mode").getD .null)).content = mode
  settled : mode.Settled

theorem Memory.hasMode_of_content {m : Memory} {n : NodeId} {fields : Entries Blueprint}
    (hm : m.forest.Sound) (hcontent : (m.view (.node n)).content = .node fields)
    (hsettled : (Derived.found fields "app_mode").Settled) :
    m.HasMode n (Derived.found fields "app_mode") where
  content := by
    rw [Derived.found, ← Memory.find?_of_content hm hcontent]
    cases m.forest.find? n "app_mode" <;> rfl
  settled := hsettled

/-- A predicate answers as the mode says. -/
theorem Memory.HasMode.evaluate_eq {m : Memory} {n : NodeId} {mode : Blueprint} {d : DeferredId}
    {s : Scalar} (h : m.HasMode n mode) (hd : m.Tells n mode d s) :
    evaluate d m = .ok (.scalar s) (m.countRun d) := by
  obtain ⟨name, hbody, rfl⟩ := hd.body_eq
  rw [evaluate_holds hbody (Memory.find?_ne_deferred (h.content ▸ h.settled))]
  have hname : m.view (.text name) = .scalar (.text name) := rfl
  rw [hname, ← Tree.equal_scalar_content, h.content]
  rfl

/-! ## Drafts with predicates -/

/-- The draft holds the given contents, in which every computation is a predicate on the mode of
the draft. -/
structure Predicated (m₀ m : Memory) (n : NodeId) (mode : Blueprint)
    (answer : DeferredId → Scalar) (stored : Entries Blueprint) : Prop where
  draft : Draft m₀ m n stored
  mode_eq : Derived.found stored "app_mode" = mode
  settled : mode.Settled
  entries : ∀ e ∈ stored, e.2.Settled ∨ ∃ d, e.2 = .deferred d ∧ m.Tells n mode d (answer d)

/-- A node and a copy of it hold the given contents. Every computation in them is a predicate on the
mode of the node, so the copy asks the node as well. -/
structure Mirrors (m : Memory) (n copy : NodeId) (mode : Blueprint) (answer : DeferredId → Scalar)
    (stored : Entries Blueprint) : Prop where
  sound : m.forest.Sound
  mem : n ∈ m.forest
  content : (m.view (.node n)).content = .node stored
  copy_mem : copy ∈ m.forest
  copy_content : (m.view (.node copy)).content = .node stored
  mode_eq : Derived.found stored "app_mode" = mode
  settled : mode.Settled
  entries : ∀ e ∈ stored, e.2.Settled ∨ ∃ d, e.2 = .deferred d ∧ m.Tells n mode d (answer d)

namespace Mirrors

variable {m m' : Memory} {n copy : NodeId} {mode : Blueprint} {answer : DeferredId → Scalar}
  {stored : Entries Blueprint} (h : Mirrors m n copy mode answer stored)

include h

theorem later (hmm : Beyond m m') : Mirrors m' n copy mode answer stored where
  sound := hmm.sound
  mem := hmm.grown.mem h.mem
  content := by
    rw [hmm.view_eq h.sound (Memory.known_node h.mem), h.content]
  copy_mem := hmm.grown.mem h.copy_mem
  copy_content := by
    rw [hmm.view_eq h.sound (Memory.known_node h.copy_mem), h.copy_content]
  mode_eq := h.mode_eq
  settled := h.settled
  entries e he := (h.entries e he).imp_right fun ⟨d, hd, ht⟩ ↦ ⟨d, hd, ht.beyond hmm⟩

theorem hasMode : m.HasMode n mode :=
  h.mode_eq ▸ Memory.hasMode_of_content h.sound h.content (h.mode_eq ▸ h.settled)

/-- Writing out the copy gives the contents, with the answers of the predicates in their place. -/
theorem toMapping : ∃ m', Node.toMapping copy m
    = .ok (Blueprint.node (stored.mapValues (Blueprint.answered answer))).plain m' ∧
      Reruns m m' := by
  refine Node.toMapping_of_content h.sound h.copy_content fun e he ↦ ?_
  refine (h.entries e he).imp_right fun ⟨d, hd, ht⟩ ↦ ⟨d, hd, fun t ht' ↦ ?_⟩
  have hlater := ht'.beyond h.sound
  exact ⟨_, (h.later hlater).hasMode.evaluate_eq (ht.beyond hlater), Memory.reruns_countRun t d⟩

end Mirrors

namespace Predicated

variable {m₀ m m' : Memory} {n : NodeId} {mode : Blueprint} {answer : DeferredId → Scalar}
  {stored : Entries Blueprint} {key : String} (h : Predicated m₀ m n mode answer stored)

include h

theorem later (hmm : Beyond m m') : Predicated m₀ m' n mode answer stored where
  draft := h.draft.later hmm
  mode_eq := h.mode_eq
  settled := h.settled
  entries e he := (h.entries e he).imp_right fun ⟨d, hd, ht⟩ ↦ ⟨d, hd, ht.beyond hmm⟩

theorem find?_eq (key : String) :
    (m.forest.find? n key).map (fun v ↦ (m.view v).content) = stored.find? key :=
  Memory.find?_of_content h.draft.sound h.draft.content_view key

theorem hasMode : m.HasMode n mode :=
  h.mode_eq ▸ Memory.hasMode_of_content h.draft.sound h.draft.content_view (h.mode_eq ▸ h.settled)

/-- **Reading a draft** gives its contents, with the answers of its predicates in their place. -/
theorem presents : Presents m n (stored.mapValues (Blueprint.answered answer)) := by
  intro m' hmm key
  have h' := h.later hmm
  have hfind := h'.find?_eq key
  rw [Entries.find?_mapValues, ← hfind, Option.map_map]
  cases hv : m'.forest.find? n key with
  | none => exact ⟨fun _ ↦ rfl, fun b hb ↦ by cases hb⟩
  | some v =>
    refine ⟨fun hb ↦ (by cases hb), fun b hb ↦ ⟨rfl, ?_⟩⟩
    obtain rfl := Option.some.inj hb
    rw [hv, Option.map_some] at hfind
    rw [Node.get, Node.getWith_of_some hv]
    -- the answer of a predicate is read off the mode, which nothing has changed since
    rcases h'.entries _ (Entries.mem_of_find? hfind.symm) with hsettled | ⟨d, hd, ht⟩
    · have hsettled : (m'.view v).content.Settled := hsettled
      rw [Function.comp_apply, hsettled.answered_eq, Memory.resolve_of_settled hsettled]
      exact ⟨v, m', rfl, .refl hmm.sound, h'.draft.stored_of_find? hv rfl hsettled⟩
    · obtain rfl := Memory.eq_deferred_of_content hmm.sound hd
      refine ⟨.scalar (answer d), m'.countRun d, h'.hasMode.evaluate_eq ht, ?_, ?_⟩
      · exact (Memory.reruns_countRun m' d).beyond hmm.sound
      · exact Memory.stored_scalar _ _

theorem mirrors : Mirrors m n n mode answer stored :=
  ⟨h.draft.sound, h.draft.mem, h.draft.content_view, h.draft.mem, h.draft.content_view, h.mode_eq,
    h.settled, h.entries⟩

/-- Freezing the draft leaves its contents and its predicates as they are. -/
theorem mirrors_freeze :
    Mirrors { m with forest := m.forest.freeze n } n n mode answer stored := by
  have hcontent := (h.draft.sound.content_freeze n n).trans h.draft.content_view
  have hmem : n ∈ m.forest.freeze n := Forest.mem_freeze.mpr h.draft.mem
  refine ⟨h.draft.sound.freeze n, hmem, hcontent, hmem, hcontent, h.mode_eq, h.settled,
    fun e he ↦ ?_⟩
  exact (h.entries e he).imp_right fun ⟨d, hd, ht⟩ ↦ ⟨d, hd, ht.congr rfl⟩

/-- **Writing out a draft** once it is frozen gives what reading it gave before, then and later. -/
theorem toMapping_freeze (hmm : Beyond { m with forest := m.forest.freeze n } m') :
    ∃ m'', Node.toMapping n m'
      = .ok (Blueprint.node (stored.mapValues (Blueprint.answered answer))).plain m'' := by
  obtain ⟨m'', hok, _⟩ := (h.mirrors_freeze.later hmm).toMapping
  exact ⟨m'', hok⟩

/-- A value is written whose content is a scalar or a predicate. -/
theorem set (hkey : key ≠ "app_mode") {v : Value} (hv : (m.view v).WellKeyed)
    (hcontent : (m.view v).content.Settled ∨
      ∃ d, (m.view v).content = .deferred d ∧ m.Tells n mode d (answer d)) :
    ∃ m', Node.set n (.text key) v m = .ok () m' ∧
      Predicated m₀ m' n mode answer (stored.put key (m.view v).content) := by
  obtain ⟨m', hok, hcomputations, hdraft⟩ := h.draft.set hv
  refine ⟨m', hok, hdraft, ?_, h.settled, fun e he ↦ ?_⟩
  · rw [← h.mode_eq, Derived.found, Entries.find?_put_of_ne (Ne.symm hkey), Derived.found]
  · have hentry : e.2.Settled ∨ ∃ d, e.2 = .deferred d ∧ m.Tells n mode d (answer d) := by
      rcases Entries.mem_put he with rfl | he
      · exact hcontent
      · exact h.entries e he
    exact hentry.imp_right fun ⟨d, hd, ht⟩ ↦ ⟨d, hd, ht.congr hcomputations⟩

end Predicated

/-- Reading the draft gives the fields; the content of its mode is given. -/
def ReadsAs (m₀ m : Memory) (n : NodeId) (mode : Blueprint) (fields : Entries Blueprint) : Prop :=
  ∃ answer stored, Predicated m₀ m n mode answer stored ∧
    stored.mapValues (Blueprint.answered answer) = fields

theorem Draft.readsAs {m₀ m : Memory} {n : NodeId} {fields : Entries Blueprint}
    (h : Draft m₀ m n fields) (hfields : ∀ e ∈ fields, e.2.Settled) :
    ReadsAs m₀ m n (Derived.found fields "app_mode") fields := by
  refine ⟨fun _ ↦ .null, fields, ⟨h, rfl, ?_, fun e he ↦ .inl (hfields e he)⟩, ?_⟩
  · cases hmode : fields.find? "app_mode" with
    | none =>
      rw [Derived.found, hmode]
      exact .scalar .null
    | some b =>
      rw [Derived.found, hmode]
      exact hfields _ (Entries.mem_of_find? hmode)
  · exact Entries.mapValues_eq_self fun e he ↦ (hfields e he).answered_eq _

namespace ReadsAs

variable {m₀ m m' : Memory} {n : NodeId} {mode : Blueprint} {fields : Entries Blueprint}
  {key : String} (h : ReadsAs m₀ m n mode fields)

include h

theorem beyond : Beyond m₀ m := by
  obtain ⟨answer, stored, h, _⟩ := h
  exact h.draft.beyond

theorem later (hmm : Beyond m m') : ReadsAs m₀ m' n mode fields := by
  obtain ⟨answer, stored, h, hfields⟩ := h
  exact ⟨answer, stored, h.later hmm, hfields⟩

theorem presents : Presents m n fields := by
  obtain ⟨answer, stored, h, rfl⟩ := h
  exact h.presents

/-- A value without computations is written. -/
theorem set_settled (hkey : key ≠ "app_mode") {v : Value} (hv : (m.view v).WellKeyed)
    (hsettled : (m.view v).content.Settled) :
    ∃ m', Node.set n (.text key) v m = .ok () m' ∧
      ReadsAs m₀ m' n mode (fields.put key (m.view v).content) := by
  obtain ⟨answer, stored, h, rfl⟩ := h
  obtain ⟨m', hok, h'⟩ := h.set hkey hv (.inl hsettled)
  refine ⟨m', hok, answer, _, h', ?_⟩
  rw [Entries.mapValues_put, hsettled.answered_eq]

theorem set (hkey : key ≠ "app_mode") (s : Scalar) :
    ∃ m', Node.set n (.text key) (.scalar s) m = .ok () m' ∧
      ReadsAs m₀ m' n mode (fields.put key (.scalar s)) :=
  h.set_settled hkey (v := .scalar s) (.scalar s) (.scalar s)

theorem definePredicate (hkey : key ≠ "app_mode") (name : String) :
    ∃ m', Loader.definePredicate n key name m = .ok () m' ∧
      ReadsAs m₀ m' n mode (fields.put key (.scalar (.bool (Derived.inMode mode name)))) := by
  obtain ⟨answer, stored, h, rfl⟩ := h
  let c := Computation.holds n "app_mode" (.text name)
  let d := (m.define c).1
  let answer' := Function.update answer d (.bool (Derived.inMode mode name))
  have hmm : Beyond m (m.define c).2 := .define h.draft.sound c
  -- the new computation stands nowhere yet
  have hself : answer' d = .bool (Derived.inMode mode name) := Function.update_self _ _ _
  have hold : ∀ {d'}, d'.index < m.computations.size → answer' d' = answer d' := by
    intro d' hd'
    refine Function.update_of_ne ?_ _ _
    rintro rfl
    exact Nat.lt_irrefl _ hd'
  have hsame : stored.mapValues (Blueprint.answered answer')
      = stored.mapValues (Blueprint.answered answer) := by
    refine Entries.mapValues_congr fun e he ↦ ?_
    rcases h.entries e he with hsettled | ⟨d', hd', ht⟩
    · rw [hsettled.answered_eq, hsettled.answered_eq]
    · rw [hd', Blueprint.answered, Blueprint.answered, hold ht.mem]
  have h' : Predicated m₀ (m.define c).2 n mode answer' stored := by
    have hlater := h.later hmm
    refine ⟨hlater.draft, hlater.mode_eq, hlater.settled, fun e he ↦ ?_⟩
    refine (h.entries e he).imp_right fun ⟨d', hd', ht⟩ ↦ ⟨d', hd', ?_⟩
    rw [hold ht.mem]
    exact ht.beyond hmm
  have htells : (m.define c).2.Tells n mode d (answer' d) := by
    refine ⟨?_, name, congrArg Computation.body (Memory.computation_define m c), hself⟩
    exact Nat.lt_of_lt_of_eq (Nat.lt_succ_self _) (Array.size_push _).symm
  obtain ⟨m', hok, hput⟩ := h'.set hkey (v := .deferred d) (.deferred d) (.inr ⟨d, rfl, htells⟩)
  have hdefine : (modifyGet fun m ↦ m.define c : Eval DeferredId) m = .ok d (m.define c).2 := rfl
  refine ⟨m', (bind_of_ok hdefine).trans hok, answer', _, hput, ?_⟩
  rw [Entries.mapValues_put, hsame, Memory.view, Forest.view_deferred, Tree.content_deferred,
    Blueprint.answered, hself]

theorem valueOf (key : String) :
    ∃ v m', Node.valueOf n (.text key) m = .ok v m' ∧ ReadsAs m₀ m' n mode fields ∧
      Stored m' v (Derived.found fields key) := by
  obtain ⟨v, m', hv, hmm, hstored⟩ := h.presents.valueOf (.refl h.beyond.sound) key
  exact ⟨v, m', hv, h.later hmm, hstored⟩

/-! ## Single values -/

theorem deriveName (katello : Bool) :
    ∃ m', Loader.deriveName n katello m = .ok () m' ∧
      ReadsAs m₀ m' n mode (Derived.named katello fields) := by
  obtain ⟨v, m', hv, h', hstored⟩ := h.valueOf "app_name"
  have htruthy : truthyValue v m' = .ok (Derived.found fields "app_name").tree.truthy m' :=
    congrArg (EStateM.Result.ok · m') (hstored.truthy_eq h'.beyond.sound)
  rw [Loader.deriveName, bind_of_ok hv, bind_of_ok htruthy, Derived.named]
  cases (Derived.found fields "app_name").tree.truthy with
  | true => exact ⟨m', rfl, h'⟩
  | false => exact h'.set (by decide) _

theorem fillNull (hkey : key ≠ "app_mode") (s : Scalar) :
    ∃ m', Loader.fillNull n (.scalar s) key m = .ok () m' ∧
      ReadsAs m₀ m' n mode (Derived.filled s fields key) := by
  obtain ⟨v, m', hv, h', hstored⟩ := h.valueOf key
  rw [Loader.fillNull, bind_of_ok hv]
  by_cases hnull : Derived.found fields key = .scalar .null
  · rw [Derived.filled_of_null hnull]
    rw [hnull] at hstored
    obtain rfl := hstored.eq_scalar h'.beyond.sound
    exact h'.set hkey s
  · rw [Derived.filled_of_ne hnull]
    refine ⟨m', ?_, h'⟩
    split
    · exact absurd hstored.content.symm hnull
    · rfl

theorem fillNulls {keys : List String} (hkeys : ∀ key ∈ keys, key ≠ "app_mode") (s : Scalar) :
    ∃ m', keys.forM (Loader.fillNull n (.scalar s)) m = .ok () m' ∧
      ReadsAs m₀ m' n mode (keys.foldl (Derived.filled s) fields) := by
  induction keys generalizing m fields with
  | nil => exact ⟨m, rfl, h⟩
  | cons key rest ih =>
    obtain ⟨m₁, hok, h₁⟩ := h.fillNull (hkeys key List.mem_cons_self) s
    obtain ⟨m₂, hrest, h₂⟩ := ih h₁ fun key hkey ↦ hkeys key (List.mem_cons_of_mem _ hkey)
    exact ⟨m₂, (bind_of_ok hok).trans hrest, h₂⟩

theorem deriveReplyAddress :
    ∃ m', Loader.deriveReplyAddress n m = .ok () m' ∧
      ReadsAs m₀ m' n mode (Derived.addressed fields) := by
  obtain ⟨v, m', hv, h', hstored⟩ := h.valueOf "email_reply_address"
  have htruthy : truthyValue v m'
      = .ok (Derived.found fields "email_reply_address").tree.truthy m' :=
    congrArg (EStateM.Result.ok · m') (hstored.truthy_eq h'.beyond.sound)
  have hm' := h'.beyond.sound
  rw [Loader.deriveReplyAddress, bind_of_ok hv, bind_of_ok htruthy, Derived.addressed]
  cases (Derived.found fields "email_reply_address").tree.truthy with
  | true => exact ⟨m', rfl, h'⟩
  | false =>
    rw [Bool.not_false, if_pos rfl, if_neg Bool.false_ne_true,
      bind_of_ok (h'.presents.hasKey (.refl hm') "host")]
    -- without an address it depends on whether there is a host to take
    cases hhost : fields.find? "host" with
    | none => exact ⟨m', rfl, h'⟩
    | some host =>
      obtain ⟨w, m'', hw, hmm, hwstored⟩ := ((h'.presents m' (.refl hm') "host").2 host hhost).2
      have hdisplay : displayValue w m'' = .ok (host.tree.display fun _ ↦ "") m'' :=
        congrArg (EStateM.Result.ok · m'') (hwstored.display_eq _)
      obtain ⟨m₃, hok, h₃⟩ := (h'.later hmm).set (by decide : "email_reply_address" ≠ "app_mode")
        (.text ("no-reply@" ++ host.tree.display fun _ ↦ ""))
      refine ⟨m₃, ?_, h₃⟩
      rw [Option.isSome_some, if_pos rfl, bind_of_ok hw, bind_of_ok hdisplay]
      exact hok

/-! ## Freezing -/

theorem frozen : m.forest.frozen n = false := by
  obtain ⟨answer, stored, h, _⟩ := h
  exact h.draft.frozen

theorem mem : n ∈ m.forest := Forest.mem_of_frozen_eq_false h.frozen

/-- Freezing the draft changes no older node. -/
theorem beyond_freeze : Beyond m₀ { m with forest := m.forest.freeze n } := by
  obtain ⟨answer, stored, h, _⟩ := h
  exact h.draft.freeze

/-- From then on the draft is written out as the fields. -/
theorem toMapping_freeze (hmm : Beyond { m with forest := m.forest.freeze n } m') :
    ∃ m'', Node.toMapping n m' = .ok (Blueprint.node fields).plain m'' := by
  obtain ⟨answer, stored, h, rfl⟩ := h
  exact h.toMapping_freeze hmm

theorem freeze :
    Beyond m₀ { m with forest := m.forest.freeze n } ∧ (m.forest.freeze n).frozen n = true ∧
      ∃ m', Node.toMapping n { m with forest := m.forest.freeze n }
        = .ok (Blueprint.node fields).plain m' :=
  ⟨h.beyond_freeze, h.beyond.sound.frozen_freeze_of_reaches (.refl m.forest n),
    h.toMapping_freeze (.refl h.beyond_freeze.sound)⟩

end ReadsAs

/-- **Deriving values** fills them in, and tells whether the mode is `katello`. -/
theorem ReadsAs.deriveValues {m₀ m : Memory} {n : NodeId} {fields : Entries Blueprint}
    (h : ReadsAs m₀ m n (Derived.found fields "app_mode") fields) :
    ∃ m', Loader.deriveValues n m
        = .ok (Derived.inMode (Derived.found fields "app_mode") "katello") m' ∧
      ReadsAs m₀ m' n (Derived.found fields "app_mode") (Derived.values fields) := by
  obtain ⟨m₁, hok₁, h₁⟩ := h.definePredicate (by decide : "is_katello" ≠ "app_mode") "katello"
  obtain ⟨m₂, hok₂, h₂⟩ := h₁.definePredicate (by decide : "is_headpin" ≠ "app_mode") "headpin"
  obtain ⟨v, m₃, hv, hmm, hstored⟩ := ((h₂.presents m₂ (.refl h₂.beyond.sound) "is_katello").2 _
    ((Entries.find?_put_of_ne (by decide) _ _).trans (Entries.find?_put_self _ _ _))).2
  have h₃ := h₂.later hmm
  obtain rfl := hstored.eq_scalar hmm.sound
  obtain ⟨m₄, hok₄, h₄⟩ := h₃.deriveName _
  obtain ⟨m₅, hok₅, h₅⟩ := h₄.fillNull (by decide : "use_cp" ≠ "app_mode") (.bool true)
  obtain ⟨m₆, hok₆, h₆⟩ := h₅.fillNulls
    (by decide : ∀ key ∈ ["use_pulp", "use_foreman", "use_elasticsearch"], key ≠ "app_mode") _
  obtain ⟨m₇, hok₇, h₇⟩ := h₆.deriveReplyAddress
  refine ⟨m₇, ?_, h₇⟩
  have htruthy : ∀ b m, truthyValue (.bool b) m = .ok b m := fun _ _ ↦ rfl
  rw [Loader.deriveValues, bind_of_ok hok₁, bind_of_ok hok₂, bind_of_ok hv,
    bind_of_ok (htruthy _ m₃), bind_of_ok hok₄, bind_of_ok hok₅, bind_of_ok hok₆, bind_of_ok hok₇]
  rfl

end LayeredConfig
