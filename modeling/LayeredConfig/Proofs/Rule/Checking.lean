import LayeredConfig.Proofs.Node.Reading
import LayeredConfig.Proofs.Rule.Violation

/-!
# Checking finds the first violation

Checking rules runs in a memory: it reads keys, which may run computations, and it makes nodes
where sub-trees are missing. All of this goes on beyond the memory that the check started in, and
what it reports is `firstViolation?` of the content of the node that is checked.
-/

namespace LayeredConfig

open Memory (Beyond Stored Presents truthy_view)

/-- The evaluation fails with the given violation, or succeeds if there is none; either way no node
changes. -/
def Finds (x : Eval Unit) (m : Memory) (environment : Tree) : Option Violation → Prop
  | none => ∃ m', x m = .ok () m' ∧ Beyond m m'
  | some v => ∃ m' problem,
    x m = .error (.configuration (.validationFailure v.keyPath environment problem)) m' ∧
      Beyond m m' ∧ ∀ names, problem.message names = v.problem.message names

namespace Finds

variable {α : Type} {m m' : Memory} {environment : Tree} {o o' : Option Violation}

/-- What is read before a check does not matter to it. -/
theorem of_read {x : Eval α} {k : α → Eval Unit} {a : α} (hx : x m = .ok a m')
    (hmm : Beyond m m') (h : Finds (k a) m' environment o) : Finds (x >>= k) m environment o := by
  cases o with
  | none =>
    obtain ⟨m'', hok, hbeyond⟩ := h
    exact ⟨m'', by rw [bind_of_ok hx, hok], hmm.trans hbeyond⟩
  | some v =>
    obtain ⟨m'', problem, herror, hbeyond, hmessage⟩ := h
    exact ⟨m'', problem, by rw [bind_of_ok hx, herror], hmm.trans hbeyond, hmessage⟩

/-- Of two checks the second is made if the first finds nothing. -/
theorem seq {x y : Eval Unit} (hx : Finds x m environment o)
    (hy : ∀ m', Beyond m m' → Finds y m' environment o') :
    Finds (x >>= fun _ ↦ y) m environment (o.or o') := by
  -- the second check starts beyond the first one, not where the first one started
  cases o with
  | none =>
    obtain ⟨m', hok, hbeyond⟩ := hx
    exact of_read hok hbeyond (hy m' hbeyond)
  | some v =>
    obtain ⟨m', problem, herror, hrest⟩ := hx
    exact ⟨m', problem, bind_of_error herror, hrest⟩

/-- A check that succeeds has found nothing. -/
theorem eq_none_of_ok {x : Eval Unit} (hx : Finds x m environment o) (hok : x m = .ok () m') :
    o = none := by
  cases o with
  | none => rfl
  | some v =>
    obtain ⟨m'', problem, herror, -⟩ := hx
    rw [hok] at herror
    cases herror

theorem none_of_sound (hm : m.forest.Sound) : Finds (pure ()) m environment none :=
  ⟨m, rfl, .refl hm⟩

theorem forM {f : α → Eval Unit} {g : α → Option Violation} {l : List α} (hm : m.forest.Sound)
    (h : ∀ a ∈ l, ∀ m', Beyond m m' → Finds (f a) m' environment (g a)) :
    Finds (l.forM f) m environment (l.findSome? g) := by
  induction l generalizing m with
  | nil => exact none_of_sound hm
  | cons a rest ih =>
    have hor : (a :: rest).findSome? g = (g a).or (rest.findSome? g) := by
      rw [List.findSome?_cons]
      cases g a <;> rfl
    rw [hor]
    refine seq (h a List.mem_cons_self m (.refl hm)) fun m' hmm ↦ ih hmm.sound ?_
    exact fun b hb m'' h' ↦ h b (List.mem_cons_of_mem _ hb) m'' (hmm.trans h')

end Finds

/-! ## Reporting -/

theorem joinPath_texts (position : ℕ) (path : List String) :
    joinPath position (path.map .text) = .ok path := by
  induction path generalizing position with
  | nil => rfl
  | cons s rest ih =>
    rw [List.map_cons, joinPath, ih]
    rfl

/-- The scope of an inspection. -/
def Inspection.scope (i : Inspection) (n : NodeId) (environment : Value) : Scope :=
  ⟨n, environment, i.path.map .text⟩

/-- The scope of a node that stands under a key. -/
theorem Inspection.scope_inside (i : Inspection) (n c : NodeId) (environment : Value) (key : String)
    (fields : Entries Blueprint) (check : Scope → Eval Unit) :
    (i.scope n environment).inside (.text key) check (.node c)
      = check ((i.inside (.text key) fields).scope c environment) := by
  have hpath : (i.path ++ [key]).map Value.text = i.path.map .text ++ [.text key] :=
    List.map_append
  exact congrArg (fun path ↦ check ⟨c, environment, path⟩) hpath.symm

theorem finds_fail {m : Memory} (hm : m.forest.Sound) (i : Inspection) (n : NodeId)
    (environment : Value) (key : String) {problem problem' : Problem}
    (h : ∀ names, problem.message names = problem'.message names) :
    Finds ((i.scope n environment).fail (.text key) problem) m (m.view environment)
      (some (i.violation (.text key) problem')) := by
  refine ⟨m, problem, ?_, .refl hm, h⟩
  have hpath : i.path.map Value.text ++ [.text key] = (i.path ++ [key]).map .text := by
    rw [List.map_append]
    rfl
  rw [Scope.fail, Inspection.scope, hpath, joinPath_texts]
  rfl

theorem Problem.notOneOf_congr {names : DeferredId → String} (allowed : List Tree) {t u : Tree}
    (h : t.quoted names = u.quoted names) :
    (Problem.notOneOf allowed t).message names = (Problem.notOneOf allowed u).message names :=
  congrArg ("should be one of " ++ (Tree.seq .list allowed).quoted names ++ ", but was " ++ ·) h

theorem Problem.notCollection_congr {names : DeferredId → String} {t u : Tree}
    (h : t.quoted names = u.quoted names) :
    (Problem.notCollection t).message names = (Problem.notCollection u).message names :=
  congrArg ("must be a string, list or mapping, but was " ++ ·) h

/-! ## Single demands -/

/-- The inspection describes what is checked: the node presents the fields, and the values that the
rules mention look as the inspection says. -/
structure Describes (known : Value → Prop) (m : Memory) (n : NodeId) (environment : Value)
    (i : Inspection) : Prop where
  sound : m.forest.Sound
  known_scalar : ∀ s, known (.scalar s)
  known_mem : ∀ {v}, known v → ∀ a ∈ v.nodes, a ∈ m.forest
  view_eq : ∀ {v}, known v → m.view v = i.view v
  environment_mem : ∀ a ∈ environment.nodes, a ∈ m.forest
  environment_eq : m.view environment = i.environment
  presents : Presents m n i.fields

namespace Describes

variable {known : Value → Prop} {m m' : Memory} {n c : NodeId} {environment : Value}
  {i : Inspection} (h : Describes known m n environment i)

include h

theorem beyond (hmm : Beyond m m') : Describes known m' n environment i where
  sound := hmm.sound
  known_scalar := h.known_scalar
  known_mem hv a ha := hmm.grown.mem (h.known_mem hv a ha)
  view_eq hv := (hmm.view_eq h.sound (h.known_mem hv)).trans (h.view_eq hv)
  environment_mem a ha := hmm.grown.mem (h.environment_mem a ha)
  environment_eq := (hmm.view_eq h.sound h.environment_mem).trans h.environment_eq
  presents := h.presents.beyond hmm

/-- The inspection of a node below. -/
theorem inside {fields : Entries Blueprint} (hc : Presents m c fields) (key : Value) :
    Describes known m c environment (i.inside key fields) :=
  ⟨h.sound, h.known_scalar, h.known_mem, h.view_eq, h.environment_mem, h.environment_eq, hc⟩

theorem fails (key : String) {problem problem' : Problem}
    (hmessage : ∀ names, problem.message names = problem'.message names) :
    Finds ((i.scope n environment).fail (.text key) problem) m i.environment
      (some (i.violation (.text key) problem')) :=
  h.environment_eq ▸ finds_fail h.sound i n environment key hmessage

theorem finds_nothing : Finds (pure ()) m i.environment none := .none_of_sound h.sound

theorem finds_hasKey (key : String) :
    Finds (do if !(← Node.hasKey n (.text key)) then
        (i.scope n environment).fail (.text key) .required) m i.environment
      (if (i.fields.find? key).isSome then none else some (i.violation (.text key) .required)) := by
  refine .of_read (h.presents.hasKey (.refl h.sound) key) (.refl h.sound) ?_
  cases (i.fields.find? key).isSome with
  | true => exact h.finds_nothing
  | false => exact h.fails key fun _ ↦ rfl

theorem snapshots {allowed : List Value} (hallowed : ∀ v ∈ allowed, known v) :
    allowed.mapM snapshot m = .ok (allowed.map i.view) m :=
  mapM_of_ok fun v hv ↦ congrArg (EStateM.Result.ok · m) (h.view_eq (hallowed v hv))

theorem finds_requireValue (key : String) {allowed : List Value}
    (hallowed : ∀ v ∈ allowed, known v) :
    Finds ((i.scope n environment).requireValue (.text key) allowed) m i.environment
      (i.mismatch? (.text key) allowed) := by
  obtain ⟨v, m', hv, hbeyond, hstored⟩ := h.presents.valueOf (.refl h.sound) key
  have h' := h.beyond hbeyond
  have hfound : (m'.view v).content = i.found (.text key) := hstored.content
  have hsame : ∀ a : Tree, ((m'.view v).equal a && (m'.view v).sameKind a)
      = ((i.found (.text key)).tree.equal a && (i.found (.text key)).tree.sameKind a) := by
    intro a
    rw [← hfound, hstored.writable.equal_content, hstored.writable.sameKind_content]
  rw [Scope.requireValue, Inspection.mismatch?]
  refine .of_read hv hbeyond (.of_read rfl (.refl h'.sound)
    (.of_read (h'.snapshots hallowed) (.refl h'.sound) ?_))
  simp only [hsame]
  cases (allowed.map i.view).any fun a ↦
      (i.found (.text key)).tree.equal a && (i.found (.text key)).tree.sameKind a with
  | true => exact h'.finds_nothing
  | false =>
    rw [if_neg Bool.false_ne_true]
    refine h'.fails key fun names ↦ Problem.notOneOf_congr _ ?_
    rw [← hfound, hstored.writable.quoted_content]

theorem finds_hasValues (key : String) {values : List Value} {allowNull : Value}
    (hvalues : ∀ v ∈ values, known v) (hnull : known allowNull) :
    Finds (Rule.check (i.scope n environment) (.hasValues (.text key) values allowNull)) m
      i.environment (Rule.violation? i (.hasValues (.text key) values allowNull)) := by
  have htruthy : truthyValue allowNull m = .ok (i.view allowNull).truthy m := by
    rw [← h.view_eq hnull, truthy_view h.sound]
    rfl
  rw [Rule.check, Rule.violation?]
  refine .of_read htruthy (.refl h.sound) (h.finds_requireValue key fun v hv ↦ ?_)
  rcases List.mem_append.mp hv with hv | hv
  · exact hvalues v hv
  · cases hempty : (i.view allowNull).truthy with
    | true =>
      rw [hempty] at hv
      exact List.mem_singleton.mp hv ▸ h.known_scalar .null
    | false =>
      rw [hempty] at hv
      exact absurd hv List.not_mem_nil

theorem finds_requireNotEmpty (key : String) :
    Finds ((i.scope n environment).requireNotEmpty (.text key)) m i.environment
      (i.emptiness? (.text key)) := by
  obtain ⟨v, m', hv, hbeyond, hstored⟩ := h.presents.valueOf (.refl h.sound) key
  have h' := h.beyond hbeyond
  have hfound : (m'.view v).content = i.found (.text key) := hstored.content
  have hwritable := hstored.writable
  rw [Scope.requireNotEmpty, Inspection.emptiness?, ← hfound]
  refine .of_read hv hbeyond (.of_read rfl (.refl h'.sound) ?_)
  have hempty : Finds ((i.scope n environment).fail (.text key) .empty) m' i.environment
      (some (i.violation (.text key) .empty)) := h'.fails key fun _ ↦ rfl
  have hother := h'.fails key fun names ↦
    Problem.notCollection_congr (hwritable.quoted_content names).symm
  have hnone := h'.finds_nothing
  -- the tree that is read and its content fall into the same case
  generalize m'.view v = t at hwritable hother ⊢
  cases hwritable with
  | scalar s =>
    cases s with
    | null => exact hempty
    | text s =>
      by_cases hs : s = ""
      · subst hs
        exact hempty
      · have hfalse : s.isEmpty = false := by simpa using hs
        dsimp only [Tree.content_scalar]
        rw [hfalse, if_neg Bool.false_ne_true]
        split
        · next heq => cases heq
        · next heq => exact absurd (Scalar.text.inj (Tree.scalar.inj heq)) hs
        · exact hnone
        · next heq => cases heq
        · next heq => cases heq
        · next htext _ _ => exact absurd rfl (htext s)
    | _ => exact hother
  | @list items _ =>
    rw [Tree.content_seq]
    cases items with
    | nil => exact hempty
    | cons t rest => exact hnone
  | set items => exact hother
  | @node id fields _ =>
    rw [Tree.content_node]
    cases fields with
    | nil => exact hempty
    | cons e rest => exact hnone
  | deferred id => exact hother

/-! ## Conditions -/

/-- Whether a condition applies is found without changing a node. -/
theorem holds_eq {condition : Condition} (hcondition : condition.OverTexts known) :
    ∃ m', condition.holds (i.scope n environment) m = .ok (condition.applies i) m' ∧
      Beyond m m' := by
  cases hcondition with
  | @concreteEnvironment excluding hknown =>
    have hearly : (i.scope n environment).early m = .ok (!i.environment.truthy) m := by
      rw [← h.environment_eq, truthy_view h.sound]
      rfl
    have hequal : equalValues environment excluding m
        = .ok (i.environment.equal (i.view excluding)) m := by
      rw [← h.environment_eq, ← h.view_eq hknown]
      rfl
    refine ⟨m, ?_, .refl h.sound⟩
    rw [Condition.holds, Condition.applies, bind_of_ok hearly]
    cases i.environment.truthy with
    | false => rfl
    | true =>
      rw [Bool.not_true, if_neg Bool.false_ne_true]
      exact bind_of_ok hequal
  | flag key expected =>
    obtain ⟨v, m', hv, hbeyond, hstored⟩ := h.presents.valueOf (.refl h.sound) key
    refine ⟨m', ?_, hbeyond⟩
    have htruthy : truthyValue v m' = .ok (i.found (.text key)).tree.truthy m' :=
      congrArg (EStateM.Result.ok · m') (hstored.truthy_eq hbeyond.sound)
    have hvalue : (i.scope n environment).valueOf (.text key) m = .ok v m' := hv
    rw [Condition.holds, bind_of_ok hvalue, bind_of_ok htruthy]
    cases expected with
    | scalar s => cases s <;> rfl
    | _ => rfl

/-! ## Nested rules -/

section Nested

variable {key : String} {rules : List Rule}
  (hrules : ∀ {m : Memory} {c : NodeId} {fields : Entries Blueprint},
    Describes known m c environment (i.inside (.text key) fields) →
    Finds (checkRules ((i.inside (.text key) fields).scope c environment) rules) m i.environment
      (firstViolation? (i.inside (.text key) fields) rules))

include hrules

/-- A node under the key is checked in its own scope. -/
theorem finds_inside {v : Value} {fields : Entries Blueprint} (hv : Stored m v (.node fields)) :
    Finds ((i.scope n environment).inside (.text key) (fun s ↦ checkRules s rules) v) m
      i.environment (firstViolation? (i.inside (.text key) fields) rules) := by
  obtain ⟨c, rfl⟩ := hv.eq_node
  rw [i.scope_inside n c environment key fields]
  exact hrules (h.inside (hv.presents h.sound) (.text key))

/-- What does not count as set is checked as a node without entries. -/
theorem finds_inside_new :
    Finds (do
      (i.scope n environment).inside (.text key) (fun s ↦ checkRules s rules)
        (← Value.node <$> Node.create .null)) m i.environment
      (firstViolation? (i.inside (.text key) []) rules) := by
  obtain ⟨c, m', hcreate, hmm, _, hempty⟩ := Memory.create_null h.sound
  exact .of_read (map_of_ok hcreate) hmm ((h.beyond hmm).finds_inside hrules hempty)

omit hrules in
/-- Anything else under the key is reported. -/
theorem finds_inside_other (check : Scope → Eval Unit) {v : Value} {b : Blueprint}
    (hv : Stored m v b) (hb : ∀ fields, b ≠ .node fields) :
    Finds ((i.scope n environment).inside (.text key) check v) m i.environment
      (some (i.violation (.text key) .notMapping)) := by
  cases v with
  | node c =>
    have hcontent := hv.content
    rw [Memory.view, h.sound.view_node, Tree.content_node] at hcontent
    exact absurd hcontent.symm (hb _)
  | _ => exact h.fails key fun _ ↦ rfl

theorem finds_nested :
    Finds (Rule.check (i.scope n environment) (.nested (.text key) rules)) m i.environment
      (Rule.violation? i (.nested (.text key) rules)) := by
  obtain ⟨v, m', hv, hbeyond, hstored⟩ := h.presents.valueOf (.refl h.sound) key
  have h' := h.beyond hbeyond
  have hstored : Stored m' v (i.found (.text key)) := hstored
  have htruthy : truthyValue v m' = .ok (i.found (.text key)).tree.truthy m' :=
    congrArg (EStateM.Result.ok · m') (hstored.truthy_eq h'.sound)
  have hvalue : (i.scope n environment).valueOf (.text key) m = .ok v m' := hv
  rw [Rule.check]
  refine .of_read hvalue hbeyond (.of_read htruthy (.refl h'.sound) ?_)
  by_cases hnode : ∃ fields, i.found (.text key) = .node fields
  · obtain ⟨fields, hfields⟩ := hnode
    rw [hfields] at hstored ⊢
    rw [Rule.violation?_nested_of_node hfields]
    -- a node without entries does not count as set
    cases fields with
    | nil => exact h'.finds_inside_new hrules
    | cons e rest => exact h'.finds_inside hrules hstored
  · have hne : ∀ fields, i.found (.text key) ≠ .node fields := fun fields hfields ↦
      hnode ⟨fields, hfields⟩
    have hother : Finds ((i.scope n environment).inside (.text key)
        (fun s ↦ checkRules s rules) v) m' i.environment
        (some (i.violation (.text key) .notMapping)) := h'.finds_inside_other _ hstored hne
    rw [Rule.violation?_nested_of_ne hne]
    cases (i.found (.text key)).tree.truthy with
    | true => exact hother
    | false => exact h'.finds_inside_new hrules

end Nested

end Describes

/-! ## Rules -/

variable {known : Value → Prop}

private theorem finds_rules {m : Memory} {n : NodeId} {environment : Value} {i : Inspection}
    {rules : List Rule} (h : Describes known m n environment i)
    (hrules : ∀ rule ∈ rules, ∀ {m : Memory}, Describes known m n environment i →
      Finds (rule.check (i.scope n environment)) m i.environment (rule.violation? i)) :
    Finds (checkRules (i.scope n environment) rules) m i.environment (firstViolation? i rules) := by
  -- over the rules in order, with the statement for each of them from the outer induction
  induction rules generalizing m with
  | nil => exact h.finds_nothing
  | cons rule rest ih =>
    rw [checkRules, firstViolation?]
    refine .seq (hrules rule List.mem_cons_self h) fun m' hmm ↦ ih (h.beyond hmm) ?_
    exact fun rule hrule ↦ hrules rule (List.mem_cons_of_mem _ hrule)

/-- **Checking a rule** finds its first violation. -/
theorem Rule.OverTexts.finds_check {rule : Rule} (hrule : rule.OverTexts known) {m : Memory}
    {n : NodeId} {environment : Value} {i : Inspection} (h : Describes known m n environment i) :
    Finds (rule.check (i.scope n environment)) m i.environment (rule.violation? i) := by
  induction hrule generalizing m n i with
  | hasKeys keys =>
    rw [Rule.check, Rule.violation?]
    refine .forM h.sound fun key hkey m' hmm ↦ ?_
    obtain ⟨s, _, rfl⟩ := List.mem_map.mp hkey
    exact (h.beyond hmm).finds_hasKey s
  | hasValues key hvalues hnull => exact h.finds_hasValues key hvalues hnull
  | areBooleans keys =>
    rw [Rule.check, Rule.violation?]
    refine .forM h.sound fun key hkey m' hmm ↦ ?_
    obtain ⟨s, _, rfl⟩ := List.mem_map.mp hkey
    refine (h.beyond hmm).finds_requireValue s fun v hv ↦ ?_
    rcases List.mem_pair.mp hv with rfl | rfl
    · exact h.known_scalar (.bool true)
    · exact h.known_scalar (.bool false)
  | isNotEmpty key =>
    rw [Rule.check, Rule.violation?]
    exact h.finds_requireNotEmpty key
  | nested key _ ih =>
    exact h.finds_nested fun hc ↦ finds_rules hc fun rule hrule _ hm ↦ ih rule hrule hm
  | @when condition rules hcondition hrules ih =>
    obtain ⟨m', hholds, hbeyond⟩ := h.holds_eq hcondition
    rw [Rule.check, Rule.violation?]
    refine .of_read hholds hbeyond ?_
    cases condition.applies i with
    | true => exact finds_rules (h.beyond hbeyond) fun rule hrule m hm ↦ ih rule hrule hm
    | false => exact (h.beyond hbeyond).finds_nothing

/-- **Checking rules** finds the first violation of any of them. -/
theorem Describes.finds_checkRules {m : Memory} {n : NodeId} {environment : Value} {i : Inspection}
    (h : Describes known m n environment i) {rules : List Rule}
    (hrules : ∀ rule ∈ rules, rule.OverTexts known) :
    Finds (checkRules (i.scope n environment) rules) m i.environment (firstViolation? i rules) :=
  finds_rules h fun rule hrule _ hm ↦ (hrules rule hrule).finds_check hm

end LayeredConfig
