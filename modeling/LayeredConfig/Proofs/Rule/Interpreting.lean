import LayeredConfig.Proofs.Rule.Checking
import LayeredConfig.Proofs.Rule.Seeing

/-!
# Checking does what rules mean

Checking rules goes through their checks in order, and it reports the first one that is violated in
the sight of the node (`Reports`). The path to the node is only put in front of the keys of that
check: it has no part in finding it.

The induction is on the rules. A nested rule goes on at the node that was found, or at a new one
where there is none, in the sight inside its key.
-/

namespace LayeredConfig

open Memory (Aside Looks)

/-! ## Reporting -/

/-- The evaluation reports the given check under its key path and with the environment that is seen,
or succeeds if there is none; either way no node changes. -/
def Reports (x : Eval Unit) (m : Memory) (s : Sight) (path : List String) : Option Check → Prop
  | none => ∃ m', x m = .ok () m' ∧ Aside m m'
  | some c => ∃ m' problem,
    x m = .error (.configuration
      (.validationFailure (".".intercalate (path ++ c.keys)) s.environment problem)) m' ∧
      Aside m m' ∧ (c.problem? s).map Problem.anonymous = some problem.anonymous

/-- The first of the checks that is violated. -/
def Sight.verdict (s : Sight) (checks : List Check) : Option Check :=
  checks.find? (Check.violated s)

namespace Sight

variable (s : Sight)

theorem verdict_append (checks checks' : List Check) :
    s.verdict (checks ++ checks') = (s.verdict checks).or (s.verdict checks') :=
  List.find?_append

theorem verdict_cons (c : Check) (checks : List Check) :
    s.verdict (c :: checks) = (s.verdict [c]).or (s.verdict checks) := s.verdict_append [c] checks

theorem verdict_of_none {key : String} {d : Demand} (hd : d.problem? s key = none) :
    s.verdict [.demand key d] = none := by
  simp [verdict, Check.violated, Check.problem?, hd]

theorem verdict_of_some {key : String} {d : Demand} {p : Problem} (hd : d.problem? s key = some p) :
    s.verdict [.demand key d] = some (.demand key d) := by
  simp [verdict, Check.violated, Check.problem?, hd]

theorem verdict_inside (key : String) (checks : List Check) :
    s.verdict (checks.map (.inside key)) = ((s.inside key).verdict checks).map (.inside key) :=
  List.find?_map ..

theorem verdict_provided (condition : Condition) (checks : List Check) :
    s.verdict (checks.map (.provided condition))
      = if condition.appliesTo s then (s.verdict checks).map (.provided condition) else none := by
  have hviolated : (Check.violated s ∘ Check.provided condition)
      = fun c ↦ condition.appliesTo s && c.violated s := by
    funext c
    rw [Function.comp_apply, Check.violated, Check.problem?, Check.violated]
    cases condition.appliesTo s <;> rfl
  rw [verdict, List.find?_map, hviolated]
  cases condition.appliesTo s with
  | true => rfl
  | false => simp

/-- What is not set has no fields. -/
theorem fields_inside_of_unset {key : String} (h : (s.found key).truthy = false) :
    (s.inside key).fields = [] := by
  rw [inside]
  cases hfound : s.found key with
  | node id frozen fields =>
    rw [hfound] at h
    cases fields with
    | nil => rfl
    | cons e rest => cases h
  | _ => rfl

end Sight

namespace Reports

variable {α : Type} {m m' : Memory} {s : Sight} {path : List String} {o o' : Option Check}

/-- What is read before a check does not matter to it. -/
theorem of_read {x : Eval α} {k : α → Eval Unit} {a : α} (hx : x m = .ok a m') (hmm : Aside m m')
    (h : Reports (k a) m' s path o) : Reports (x >>= k) m s path o := by
  cases o with
  | none =>
    obtain ⟨m'', hok, haside⟩ := h
    exact ⟨m'', by rw [bind_of_ok hx, hok], hmm.trans haside⟩
  | some c =>
    obtain ⟨m'', problem, herror, haside, hproblem⟩ := h
    exact ⟨m'', problem, by rw [bind_of_ok hx, herror], hmm.trans haside, hproblem⟩

/-- Of two checks the second is made if the first one reports nothing. -/
theorem seq {x y : Eval Unit} (hx : Reports x m s path o)
    (hy : ∀ m', Aside m m' → Reports y m' s path o') :
    Reports (x >>= fun _ ↦ y) m s path (o.or o') := by
  cases o with
  | none =>
    obtain ⟨m', hok, haside⟩ := hx
    exact of_read hok haside (hy m' haside)
  | some c =>
    obtain ⟨m', problem, herror, hrest⟩ := hx
    exact ⟨m', problem, bind_of_error herror, hrest⟩

theorem nothing (hm : m.forest.Sound) : Reports (pure ()) m s path none := ⟨m, rfl, .refl hm⟩

theorem forM {f : α → Eval Unit} {g : α → Check} {l : List α} (hm : m.forest.Sound)
    (h : ∀ a ∈ l, ∀ m', Aside m m' → Reports (f a) m' s path (s.verdict [g a])) :
    Reports (l.forM f) m s path (s.verdict (l.map g)) := by
  induction l generalizing m with
  | nil => exact nothing hm
  | cons a rest ih =>
    rw [List.map_cons, s.verdict_cons]
    refine seq (h a List.mem_cons_self m (.refl hm)) fun m' hmm ↦ ih hmm.beyond.sound ?_
    exact fun b hb m'' h' ↦ h b (List.mem_cons_of_mem _ hb) m'' (hmm.trans h')

/-- A report from inside a key names that key first. -/
theorem inside {x : Eval Unit} {key : String} (h : Reports x m (s.inside key) (path ++ [key]) o) :
    Reports x m s path (o.map (.inside key)) := by
  cases o with
  | none => exact h
  | some c =>
    obtain ⟨m', problem, herror, hrest⟩ := h
    refine ⟨m', problem, ?_, hrest⟩
    rw [herror, List.append_assoc]
    rfl

theorem provided {x : Eval Unit} {condition : Condition} (hcondition : condition.appliesTo s = true)
    (h : Reports x m s path o) : Reports x m s path (o.map (.provided condition)) := by
  cases o with
  | none => exact h
  | some c =>
    obtain ⟨m', problem, herror, haside, hproblem⟩ := h
    refine ⟨m', problem, herror, haside, ?_⟩
    rw [Check.problem?, if_pos hcondition, hproblem]

end Reports

/-! ## Single demands -/

namespace Sees

variable {m₀ m m' : Memory} {n : NodeId} {environment v : Value} {s : Sight} {key : String}
  {path : List String} (h : Sees m₀ m n environment s)

/-- The scope of a node at the end of a path of texts. -/
def scope (n : NodeId) (environment : Value) (path : List String) : Scope :=
  ⟨n, environment, path.map .text⟩

include h

theorem passes {d : Demand} (hd : d.problem? s key = none) :
    Reports (pure ()) m s path (s.verdict [.demand key d]) := by
  rw [s.verdict_of_none hd]
  exact .nothing h.sound'

/-- A demand that is not met is reported under its key. -/
theorem fails {d : Demand} {p problem : Problem} (hd : d.problem? s key = some p)
    (hproblem : p.anonymous = problem.anonymous) :
    Reports ((scope n environment path).fail (.text key) problem) m s path
      (s.verdict [.demand key d]) := by
  have hpath : (scope n environment path).path ++ [.text key] = (path ++ [key]).map .text := by
    rw [List.map_append]
    rfl
  rw [s.verdict_of_some hd]
  refine ⟨m, problem, ?_, .refl h.sound', ?_⟩
  · rw [Scope.fail, hpath, joinPath_texts, h.environment_eq, ← h.view_eq, ← h.view_known h.known]
    rfl
  · rw [Check.problem?, hd, Option.map_some, hproblem]

theorem requireKey (key : String) :
    Reports (do if !(← Node.hasKey n (.text key)) then
        (scope n environment path).fail (.text key) .required) m s path
      (s.verdict [.demand key .defined]) := by
  refine .of_read (h.hasKey key) (.refl h.sound') ?_
  cases hkey : (s.fields.find? key).isSome with
  | true => exact h.passes (if_pos hkey)
  | false => exact h.fails (if_neg (hkey ▸ Bool.false_ne_true)) rfl

theorem requireValue (key : String) {values : List Value} {allowNull : Value}
    (hvalues : ∀ v ∈ values, m₀.Known v) :
    Reports ((scope n environment path).requireValue (.text key) (s.allowed values allowNull)) m s
      path (s.verdict [.demand key (.oneOf values allowNull)]) := by
  obtain ⟨v, m', hv, hmm, hlooks⟩ := h.valueOf key
  have h' := h.later hmm
  have hknown : ∀ a ∈ s.allowed values allowNull, m₀.Known a := by
    intro a ha
    rcases List.mem_append.mp ha with ha | ha
    · exact hvalues a ha
    · split at ha
      · exact List.mem_singleton.mp ha ▸ m₀.known_scalar .null
      · exact absurd ha List.not_mem_nil
  have hsnapshots : (s.allowed values allowNull).mapM snapshot m'
      = .ok ((s.allowed values allowNull).map s.view) m' :=
    mapM_of_ok fun a ha ↦ congrArg (EStateM.Result.ok · m') (h'.view_known (hknown a ha))
  rw [Scope.requireValue]
  refine .of_read hv hmm (.of_read rfl (.refl h'.sound') (.of_read hsnapshots (.refl h'.sound') ?_))
  simp only [hlooks.equal_eq, hlooks.sameKind_eq]
  cases hany : ((s.allowed values allowNull).map s.view).any fun a ↦
      (s.found key).equal a && (s.found key).sameKind a with
  | true => exact h'.passes (if_pos hany)
  | false =>
    refine h'.fails (if_neg (hany ▸ Bool.false_ne_true)) ?_
    rw [Problem.anonymous, Problem.anonymous, hlooks.anonymous_eq]

theorem requireNotEmpty (key : String) :
    Reports ((scope n environment path).requireNotEmpty (.text key)) m s path
      (s.verdict [.demand key .filled]) := by
  obtain ⟨v, m', hv, hmm, hlooks⟩ := h.valueOf key
  have h' := h.later hmm
  have hsame := Tree.emptiness?_anonymous (m'.view v)
  rw [hlooks.anonymous_eq, Tree.emptiness?_anonymous] at hsame
  rw [Scope.requireNotEmpty_eq]
  refine .of_read hv hmm (.of_read rfl (.refl h'.sound') ?_)
  cases hproblem : (m'.view v).emptiness? with
  | none =>
    rw [hproblem, Option.map_none, Option.map_eq_none_iff] at hsame
    exact h'.passes hsame
  | some problem =>
    rw [hproblem, Option.map_some] at hsame
    obtain ⟨p, hp, heq⟩ := Option.map_eq_some_iff.mp hsame
    exact h'.fails hp heq

/-- Whether a condition applies is found without changing a node. -/
theorem holds (path : List String) {condition : Condition} (hcondition : condition.OverTexts m₀.Known) :
    ∃ m', condition.holds (scope n environment path) m = .ok (condition.appliesTo s) m' ∧
      Aside m m' := by
  cases hcondition with
  | @concreteEnvironment excluding hknown =>
    have hview : m.view environment = s.environment :=
      (h.view_known h.known).trans (h.view_eq ▸ h.environment_eq.symm)
    have hearly : (scope n environment path).early m = .ok (!s.environment.truthy) m := by
      rw [← hview, Memory.truthy_view h.sound']
      rfl
    have hequal : equalValues environment excluding m
        = .ok (s.environment.equal (s.view excluding)) m := by
      rw [← hview, ← h.view_known hknown]
      rfl
    refine ⟨m, ?_, .refl h.sound'⟩
    rw [Condition.holds, Condition.appliesTo, bind_of_ok hearly]
    cases s.environment.truthy with
    | false => rfl
    | true =>
      rw [Bool.not_true, if_neg Bool.false_ne_true]
      exact bind_of_ok hequal
  | flag key expected =>
    obtain ⟨v, m', hv, hmm, hlooks⟩ := h.valueOf key
    refine ⟨m', ?_, hmm⟩
    have htruthy : truthyValue v m' = .ok (s.found key).truthy m' :=
      congrArg (EStateM.Result.ok · m') (hlooks.truthy_eq hmm.beyond.sound)
    have hvalue : (scope n environment path).valueOf (.text key) m = .ok v m' := hv
    rw [Condition.holds, bind_of_ok hvalue, bind_of_ok htruthy]
    cases expected with
    | scalar a => cases a <;> rfl
    | _ => rfl

/-! ## Nested rules -/

omit h in
/-- A node is checked in its own scope. -/
theorem scope_inside {c : NodeId} (check : Scope → Eval Unit) :
    (scope n environment path).inside (.text key) check (.node c)
      = check (scope c environment (path ++ [key])) := by
  have hpath : (path ++ [key]).map Value.text = path.map .text ++ [.text key] := List.map_append
  exact congrArg (fun path ↦ check ⟨c, environment, path⟩) hpath.symm

/-- A new node is made, which is seen as a node without fields. -/
theorem create_null (hfields : (s.inside key).fields = []) :
    ∃ c m', Node.create .null m = .ok c m' ∧ Aside m m' ∧
      Sees m₀ m' c environment (s.inside key) := by
  obtain ⟨c, m', hcreate, hbeyond, -, hempty⟩ := Memory.create_null h.sound'
  have hmm : Aside m m' := ⟨hbeyond, Memory.names_of_onForest hcreate⟩
  have hnone : ∀ e ∈ ([] : Entries Tree), e.2.Standing false := fun e he ↦
    absurd he List.not_mem_nil
  have hnode : (Tree.node ⟨0⟩ false []).Standing false := .node ⟨0⟩ hnone
  refine ⟨c, m', hcreate, hmm, h.sound, h.aside.trans hmm, h.view_eq, h.known, h.environment_eq,
    ⟨⟨0⟩, false, hempty.mem, ?_⟩, fun id frozen d hd ↦ ?_⟩
  · rw [hfields]
    refine hempty.writable.standing.anonymous_congr hnode ?_
    rw [hempty.content, Tree.content_node]
    rfl
  · rw [hfields] at hd
    cases hd with
    | field hkey _ => cases hkey

theorem nested {rules : List Rule}
    (hrules : ∀ {m : Memory} {c : NodeId}, Sees m₀ m c environment (s.inside key) →
      Reports (checkRules (scope c environment (path ++ [key])) rules) m (s.inside key)
        (path ++ [key]) ((s.inside key).verdict (checksOf rules))) :
    Reports (Rule.check (scope n environment path) (.nested (.text key) rules)) m s path
      (s.verdict (Rule.checks (.nested (.text key) rules))) := by
  obtain ⟨v, m', hv, hmm, hlooks⟩ := h.valueOf key
  have h' := h.later hmm
  have hvalue : (scope n environment path).valueOf (.text key) m = .ok v m' := hv
  have htruthy : truthyValue v m' = .ok (s.found key).truthy m' :=
    congrArg (EStateM.Result.ok · m') (hlooks.truthy_eq h'.sound')
  have hname : Inspection.name (.text key) = key := rfl
  rw [Rule.check, Rule.checks, s.verdict_cons, s.verdict_inside, hname]
  refine .of_read hvalue hmm (.of_read htruthy (.refl h'.sound') ?_)
  by_cases hset : (s.found key).truthy = true
  · by_cases hnode : (s.found key).isNode = true
    · -- a node that is set is checked itself
      have hd : Demand.nodeIfSet.problem? s key = none :=
        Demand.problem?_nodeIfSet.mpr fun _ ↦ hnode
      obtain ⟨c, rfl⟩ := (hlooks.eq_node_iff h'.sound').mp hnode
      rw [s.verdict_of_none hd, hset]
      refine .of_read rfl (.refl h'.sound') ?_
      dsimp only
      rw [scope_inside]
      exact (hrules (h'.inside hlooks)).inside
    · -- anything else that is set is reported
      have hd : Demand.nodeIfSet.problem? s key = some .notMapping := by
        rw [Demand.problem?, hset, Bool.eq_false_iff.mpr hnode]
        rfl
      have hother : (scope n environment path).inside (.text key) (fun s ↦ checkRules s rules) v
          = (scope n environment path).fail (.text key) .notMapping := by
        cases v with
        | node c => exact absurd ((hlooks.eq_node_iff h'.sound').mpr ⟨c, rfl⟩) hnode
        | _ => rfl
      have hfails : Reports ((scope n environment path).fail (.text key) .notMapping) m' s path
          (s.verdict [.demand key .nodeIfSet]) := h'.fails hd rfl
      rw [s.verdict_of_some hd] at hfails ⊢
      rw [hset]
      refine .of_read rfl (.refl h'.sound') ?_
      dsimp only
      rw [hother]
      exact hfails
  · -- a new node is checked in place of what is not set
    have hunset : (s.found key).truthy = false := Bool.eq_false_iff.mpr hset
    have hd : Demand.nodeIfSet.problem? s key = none :=
      Demand.problem?_nodeIfSet.mpr fun htrue ↦ absurd htrue hset
    obtain ⟨c, m'', hcreate, hcc, hc⟩ := h'.create_null (s.fields_inside_of_unset hunset)
    rw [s.verdict_of_none hd, hunset]
    refine .of_read (map_of_ok hcreate) hcc ?_
    dsimp only
    rw [scope_inside]
    exact (hrules hc).inside

/-! ## Rules -/

theorem rules_of_each {rules : List Rule}
    (hrules : ∀ rule ∈ rules, ∀ {m : Memory}, Sees m₀ m n environment s →
      Reports (rule.check (scope n environment path)) m s path (s.verdict rule.checks)) :
    Reports (checkRules (scope n environment path) rules) m s path
      (s.verdict (checksOf rules)) := by
  induction rules generalizing m with
  | nil => exact .nothing h.sound'
  | cons rule rest ih =>
    rw [checkRules, checksOf, s.verdict_append]
    refine .seq (hrules rule List.mem_cons_self h) fun m' hmm ↦ ih (h.later hmm) ?_
    exact fun rule hrule ↦ hrules rule (List.mem_cons_of_mem _ hrule)

end Sees

/-- **Checking a rule** reports the first of its checks that is violated. -/
theorem Rule.OverTexts.reports {m₀ m : Memory} {n : NodeId} {environment : Value} {s : Sight}
    {path : List String} {rule : Rule} (hrule : rule.OverTexts m₀.Known)
    (h : Sees m₀ m n environment s) :
    Reports (rule.check (Sees.scope n environment path)) m s path (s.verdict rule.checks) := by
  induction hrule generalizing m n s path with
  | hasKeys keys =>
    rw [check, checks]
    refine .forM h.sound' fun key hkey m' hmm ↦ ?_
    obtain ⟨key, _, rfl⟩ := List.mem_map.mp hkey
    exact (h.later hmm).requireKey key
  | @hasValues key values allowNull hvalues hnull =>
    rw [check, checks]
    exact .of_read (h.truthy_known hnull) (.refl h.sound') (h.requireValue key hvalues)
  | areBooleans keys =>
    rw [check, checks]
    refine .forM h.sound' fun key hkey m' hmm ↦ ?_
    obtain ⟨key, _, rfl⟩ := List.mem_map.mp hkey
    have hallowed : s.allowed [.bool true, .bool false] (.bool false)
        = [.bool true, .bool false] := by
      rw [Sight.allowed, h.view_eq]
      rfl
    have hknown : ∀ v ∈ [Value.bool true, Value.bool false], m₀.Known v := by
      intro v hv
      rcases List.mem_pair.mp hv with rfl | rfl
      · exact m₀.known_scalar (.bool true)
      · exact m₀.known_scalar (.bool false)
    have hchecked : Reports ((Sees.scope n environment path).requireValue (.text key)
        (s.allowed [.bool true, .bool false] (.bool false))) m' s path
        (s.verdict [.demand key (.oneOf [.bool true, .bool false] (.bool false))]) :=
      (h.later hmm).requireValue key hknown
    rwa [hallowed] at hchecked
  | isNotEmpty key =>
    rw [check, checks]
    exact h.requireNotEmpty key
  | nested key _ ih =>
    exact h.nested fun hc ↦ hc.rules_of_each fun rule hrule _ hm ↦ ih rule hrule hm
  | @when condition rules hcondition _ ih =>
    obtain ⟨m', hholds, hmm⟩ := h.holds path hcondition
    rw [check, checks, s.verdict_provided]
    refine .of_read hholds hmm ?_
    cases happlies : condition.appliesTo s with
    | true =>
      exact .provided happlies ((h.later hmm).rules_of_each fun rule hrule _ hm ↦ ih rule hrule hm)
    | false => exact .nothing hmm.beyond.sound

/-! ## What validating does -/

/-- What rules see of a node. -/
def Memory.sight (m : Memory) (answers : DeferredId → Tree) (n : NodeId) (environment : Value) :
    Sight := ⟨m.view, answers, m.view environment, m.forest.fields n⟩

theorem Sees.of_mem {m : Memory} {n : NodeId} {environment : Value} {answers : DeferredId → Tree}
    (hm : m.forest.Sound) (hn : n ∈ m.forest) (henvironment : m.Known environment)
    (hanswers : ∀ d, (m.view (.node n)).Reads answers d → m.Gives d (answers d)) :
    Sees m m n environment (m.sight answers n environment) where
  sound := hm
  aside := .refl hm
  view_eq := rfl
  known := henvironment
  environment_eq := rfl
  looks := by
    refine ⟨n, m.forest.frozen n, fun c hc ↦ List.mem_singleton.mp hc ▸ hn, ?_⟩
    rw [Memory.view, hm.view_eq_fields]
    rfl
  answers := by
    intro id frozen d hd
    refine hanswers d ?_
    rw [Memory.view, hm.view_eq_fields]
    cases hd with
    | field hkey hrest => exact .field hkey hrest

/-- **Validating a node** reports the first check that is violated. -/
theorem Sees.reports {m₀ m : Memory} {n : NodeId} {environment : Value} {s : Sight}
    {rules : List Rule} (h : Sees m₀ m n environment s)
    (hrules : ∀ rule ∈ rules, rule.OverTexts m₀.Known) (path : List String) :
    Reports (Validator.validate ⟨⟨n, environment, path.map .text⟩, rules⟩) m s path
      (s.verdict (checksOf rules)) :=
  h.rules_of_each fun rule hrule _ hm ↦ (hrules rule hrule).reports hm

/-- A computation that always gives the same scalar. -/
theorem Memory.gives_constant {m : Memory} {d : DeferredId} {label : String} {a : Scalar}
    (hd : d.index < m.computations.size)
    (hbody : (m.computation d).body = (Computation.constant label (.scalar a)).body) :
    m.Gives d (.scalar a) := by
  intro m' hmm
  have hlimit : nestingLimit = 255 + 1 := rfl
  have hcount : (modify fun m ↦ m.countRun d : Eval Unit) m' = .ok () (m'.countRun d) := rfl
  have hbeyond := (Memory.reruns_countRun m' d).beyond hmm.beyond.sound
  refine ⟨.scalar a, { m'.countRun d with trace := m'.trace.push (.evaluated label) }, ?_,
    ⟨⟨hbeyond.sound, hbeyond.grown, hbeyond.size_le, hbeyond.body_eq⟩, rfl⟩, .scalar _ a⟩
  rw [evaluate, hlimit, evaluateWithin, get_bind, bind_of_ok hcount, hmm.beyond.body_eq d hd, hbody]
  rfl

end LayeredConfig
