import LayeredConfig.Proofs.Rule.Interpreting
import LayeredConfig.Proofs.Rule.Passing
import LayeredConfig.Proofs.Rule.Representing
import Mathlib.Data.List.Find

/-!
# The same rules for different environments

Most rules ask for the same whatever the environment is (`Rule.Everywhere`): no check of theirs
looks at it, so the first one that is violated is the same in every environment. Of the rules of a
Katello configuration only the last one depends on the environment. It asks for a database, and as
it is checked last, whatever the other rules find is found in every environment
(`Katello.accepts_iff`, `Katello.rejects`).
-/

namespace LayeredConfig

/-! ## Rules that hold everywhere -/

/-- The rule asks for the same in every environment. -/
inductive Rule.Everywhere : Rule → Prop
  | hasKeys (keys : List Value) : Everywhere (.hasKeys keys)
  | hasValues (key : Value) (values : List Value) (allowNull : Value) :
      Everywhere (.hasValues key values allowNull)
  | areBooleans (keys : List Value) : Everywhere (.areBooleans keys)
  | isNotEmpty (key : Value) : Everywhere (.isNotEmpty key)
  | nested (key : Value) {rules : List Rule} (h : ∀ rule ∈ rules, Everywhere rule) :
      Everywhere (.nested key rules)
  | flag (key expected : Value) {rules : List Rule} (h : ∀ rule ∈ rules, Everywhere rule) :
      Everywhere (.when (.flag key expected) rules)

/-- The checks of several rules are those of each of them. -/
theorem mem_checksOf {rules : List Rule} {c : Check} :
    c ∈ checksOf rules ↔ ∃ rule ∈ rules, c ∈ rule.checks := by
  induction rules with
  | nil => simp [checksOf]
  | cons rule rest ih => simp [checksOf, ih]

theorem checksOf_append (rules rules' : List Rule) :
    checksOf (rules ++ rules') = checksOf rules ++ checksOf rules' := by
  induction rules with
  | nil => rfl
  | cons rule rest ih => rw [List.cons_append, checksOf, checksOf, ih, List.append_assoc]

/-- What a check of such a rule finds does not depend on the environment. -/
theorem Rule.Everywhere.problem?_eq {rule : Rule} (h : rule.Everywhere) {c : Check}
    (hc : c ∈ rule.checks) (s : Sight) (environment : Tree) :
    c.problem? { s with environment } = c.problem? s := by
  induction h generalizing c s with
  | hasKeys keys =>
    rw [checks] at hc
    obtain ⟨key, -, rfl⟩ := List.mem_map.mp hc
    rfl
  | hasValues key values allowNull =>
    rw [checks] at hc
    rw [List.mem_singleton.mp hc]
    rfl
  | areBooleans keys =>
    rw [checks] at hc
    obtain ⟨key, -, rfl⟩ := List.mem_map.mp hc
    rfl
  | isNotEmpty key =>
    rw [checks] at hc
    rw [List.mem_singleton.mp hc]
    rfl
  | nested key _ ih =>
    rw [checks] at hc
    rcases List.mem_cons.mp hc with rfl | hc
    · rfl
    · obtain ⟨c, hmem, rfl⟩ := List.mem_map.mp hc
      obtain ⟨rule, hrule, hmem⟩ := mem_checksOf.mp hmem
      exact ih rule hrule hmem (s.inside (Inspection.name key))
  | flag key expected _ ih =>
    rw [checks] at hc
    obtain ⟨c, hmem, rfl⟩ := List.mem_map.mp hc
    obtain ⟨rule, hrule, hmem⟩ := mem_checksOf.mp hmem
    rw [Check.problem?, Check.problem?, ih rule hrule hmem s]
    rfl

/-- Nor does the first violation. -/
theorem Sight.verdict_environment {rules : List Rule} (h : ∀ rule ∈ rules, rule.Everywhere)
    (s : Sight) (environment : Tree) :
    Sight.verdict { s with environment } (checksOf rules) = s.verdict (checksOf rules) := by
  refine List.find?_congr fun c hc ↦ ?_
  obtain ⟨rule, hrule, hc⟩ := mem_checksOf.mp hc
  rw [Check.violated, Check.violated, (h rule hrule).problem?_eq hc]

theorem Sight.verdict_eq_none_iff {s : Sight} {known : Value → Prop} {rules : List Rule}
    (hrules : ∀ rule ∈ rules, rule.OverTexts known)
    (hview : ∀ a, s.view (.scalar a) = .scalar a) :
    s.verdict (checksOf rules) = none ↔ ∀ rule ∈ rules, rule.Satisfied s := by
  rw [verdict, List.find?_eq_none, forall_mem_checksOf]
  refine forall₂_congr fun rule hrule ↦ ?_
  rw [Rule.satisfied_iff (hrules rule hrule) hview]
  refine forall₂_congr fun c _ ↦ ?_
  rw [Check.violated, Option.not_isSome_iff_eq_none]

/-- Rules that ask for keys inside a block ask for a block, since without one no key is there. -/
theorem Rule.satisfied_nested_hasKeys {s : Sight} {key : Value} {keys : List Value}
    (hkeys : keys ≠ []) : Satisfied s (.nested key [.hasKeys keys]) ↔
      (s.found (Inspection.name key)).isNode = true ∧ ∀ k ∈ keys,
        ((s.inside (Inspection.name key)).fields.find? (Inspection.name k)).isSome = true := by
  constructor
  · rintro (_ | _ | _ | _ | ⟨-, hrules⟩)
    have hkey : ∀ k ∈ keys,
        ((s.inside (Inspection.name key)).fields.find? (Inspection.name k)).isSome = true := by
      cases hrules _ (List.mem_singleton.mpr rfl) with
      | hasKeys h => exact h
    refine ⟨?_, hkey⟩
    obtain ⟨k, hk⟩ := List.exists_mem_of_ne_nil keys hkeys
    have hsome := hkey k hk
    rw [Sight.inside] at hsome
    cases hfound : s.found (Inspection.name key) with
    | node id frozen fields => rfl
    | _ =>
      rw [hfound] at hsome
      cases hsome
  · rintro ⟨hnode, hkey⟩
    exact .nested (fun _ ↦ hnode) (List.forall_mem_singleton.mpr (.hasKeys hkey))

/-- The evaluation succeeds exactly if there is nothing to report. -/
theorem Reports.succeeds_iff {x : Eval Unit} {m : Memory} {s : Sight} {path : List String}
    {o : Option Check} (h : Reports x m s path o) : (∃ m', x m = .ok () m') ↔ o = none := by
  cases o with
  | none =>
    obtain ⟨m', hok, -⟩ := h
    exact ⟨fun _ ↦ rfl, fun _ ↦ ⟨m', hok⟩⟩
  | some c =>
    obtain ⟨m', problem, herror, -⟩ := h
    refine ⟨fun ⟨m'', hok⟩ ↦ ?_, nofun⟩
    rw [herror] at hok
    cases hok

/-- A failure is the report of a check. -/
theorem Reports.of_error {x : Eval Unit} {m m' : Memory} {s : Sight} {path : List String}
    {o : Option Check} {f : Failure} (h : Reports x m s path o) (hx : x m = .error f m') :
    ∃ c problem, o = some c ∧ f = .configuration
        (.validationFailure (".".intercalate (path ++ c.keys)) s.environment problem) ∧
      (c.problem? s).map Problem.anonymous = some problem.anonymous := by
  cases o with
  | none =>
    obtain ⟨m'', hok, -⟩ := h
    rw [hx] at hok
    cases hok
  | some c =>
    obtain ⟨m'', problem, herror, -, hproblem⟩ := h
    exact ⟨c, problem, rfl, (EStateM.Result.error.inj (hx.symm.trans herror)).1, hproblem⟩

/-! ## The rules of a Katello configuration -/

namespace Katello

/-- The rules of a Katello configuration ask for texts and mention nothing but scalars. -/
theorem overScalars_rules : ∀ rule ∈ rules, rule.OverTexts Value.IsScalar := by
  have hscalar : ∀ s : Scalar, (Value.scalar s).IsScalar := fun s ↦ ⟨s, rfl⟩
  have hvalues : ∀ key texts, (Rule.hasValues (.text key) (List.map .text texts)
      (.bool false)).OverTexts Value.IsScalar := by
    intro key texts
    refine .hasValues key (fun v hv ↦ ?_) (hscalar _)
    obtain ⟨s, _, rfl⟩ := List.mem_map.mp hv
    exact hscalar _
  simp only [rules, List.forall_mem_cons]
  refine ⟨.hasKeys _, hvalues _ _, hvalues _ _, hvalues _ _, hvalues _ _, ?_, .areBooleans _, ?_,
    fun rule hrule ↦ absurd hrule List.not_mem_nil⟩
  · refine .when (.flag _ _) fun rule hrule ↦ ?_
    rw [List.mem_singleton.mp hrule]
    exact .isNotEmpty _
  · refine .when (.concreteEnvironment (hscalar _)) fun rule hrule ↦ ?_
    rw [List.mem_singleton.mp hrule]
    refine .nested _ fun rule hrule ↦ ?_
    rw [List.mem_singleton.mp hrule]
    exact .hasKeys _

theorem overTexts_rules (m : Memory) : ∀ rule ∈ rules, rule.OverTexts m.Known :=
  fun rule hrule ↦ (overScalars_rules rule hrule).mono fun _ hv ↦ hv.known m

/-- What the database has to be like. -/
def databaseRules : List Rule := [.nested (.text "database") [.hasKeys (databaseKeys.map .text)]]

/-- The environments that connect to a database. -/
def connecting : Condition := .concreteEnvironment (.text buildEnvironment)

/-- All rules but the last. -/
def commonRules : List Rule := rules.dropLast

theorem everywhere_commonRules : ∀ rule ∈ commonRules, rule.Everywhere := by
  have hrules : commonRules = rules.take 7 := rfl
  rw [hrules]
  simp only [rules, List.take_succ_cons, List.take_zero, List.forall_mem_cons]
  exact ⟨.hasKeys _, .hasValues _ _ _, .hasValues _ _ _, .hasValues _ _ _, .hasValues _ _ _,
    .flag _ _ (List.forall_mem_singleton.mpr (.isNotEmpty _)), .areBooleans _,
    fun _ h ↦ absurd h List.not_mem_nil⟩

/-- The last one is about the database. -/
theorem checksOf_rules : checksOf rules
    = checksOf commonRules ++ (checksOf databaseRules).map (.provided connecting) := by
  have hrules : rules = commonRules ++ [.when connecting databaseRules] := rfl
  rw [hrules, checksOf_append]
  simp only [checksOf, Rule.checks, List.append_nil]

/-- The rules accept the node for the environment. -/
def Accepts (m : Memory) (n : NodeId) (environment : Value) (path : List String) : Prop :=
  ∃ m', Validator.validate ⟨⟨n, environment, path.map .text⟩, rules⟩ m = .ok () m'

/-- What is read as the database of the node is a node that defines every key of a database. -/
def HasDatabase (m : Memory) (n : NodeId) : Prop :=
  ∃ c m', Node.valueOf n (.text "database") m = .ok (.node c) m' ∧
    ∀ key ∈ databaseKeys, Node.hasKey c (.text key) m' = .ok true m'

section Sees

variable {m₀ m : Memory} {n : NodeId} {environment : Value} {s : Sight} {path : List String}
  (h : Sees m₀ m n environment s)

include h

/-- Whether there is a database can be seen. -/
theorem verdict_databaseRules : s.verdict (checksOf databaseRules) = none ↔ HasDatabase m n := by
  have htexts : ∀ rule ∈ databaseRules, rule.OverTexts m.Known :=
    List.forall_mem_singleton.mpr (.nested _ (List.forall_mem_singleton.mpr (.hasKeys _)))
  have hkeys : databaseKeys.map Value.text ≠ [] := by decide
  have hview : ∀ a, s.view (.scalar a) = .scalar a := fun a ↦ by
    rw [h.view_eq]
    rfl
  rw [Sight.verdict_eq_none_iff htexts hview, databaseRules, List.forall_mem_singleton,
    Rule.satisfied_nested_hasKeys hkeys, List.forall_mem_map]
  obtain ⟨v, m', hv, hmm, hlooks⟩ := h.valueOf "database"
  have h' := h.later hmm
  constructor
  · rintro ⟨hnode, hkey⟩
    obtain ⟨c, rfl⟩ := (hlooks.eq_node_iff h'.sound').mp hnode
    refine ⟨c, m', hv, fun key hmem ↦ ?_⟩
    rw [(h'.inside hlooks).hasKey]
    exact congrArg (EStateM.Result.ok · m') (hkey key hmem)
  · rintro ⟨c, m'', hc, hkey⟩
    rw [hv] at hc
    obtain ⟨rfl, rfl⟩ := EStateM.Result.ok.inj hc
    refine ⟨(hlooks.eq_node_iff h'.sound').mpr ⟨c, rfl⟩, fun key hmem ↦ ?_⟩
    have hdefined := hkey key hmem
    rw [(h'.inside hlooks).hasKey] at hdefined
    exact (EStateM.Result.ok.inj hdefined).1

/-- The rule about the database is checked last, if it is checked at all. -/
theorem reports (path : List String) :
    Reports (Validator.validate ⟨⟨n, environment, path.map .text⟩, rules⟩) m s path
      ((s.verdict (checksOf commonRules)).or (if connecting.appliesTo s
        then (s.verdict (checksOf databaseRules)).map (.provided connecting) else none)) := by
  rw [← s.verdict_provided, ← s.verdict_append, ← checksOf_rules]
  exact h.reports (overTexts_rules m₀) path

end Sees

theorem connecting_text {m : Memory} {n : NodeId} {answers : DeferredId → Tree} {name : String} :
    connecting.appliesTo (m.sight answers n (.text name)) = true ↔
      name ≠ "" ∧ name ≠ buildEnvironment := by
  have happlies : connecting.appliesTo (m.sight answers n (.text name))
      = (!name.isEmpty && !(name == buildEnvironment)) := rfl
  rw [happlies]
  simp

section Environments

variable {m : Memory} {n : NodeId} {answers : DeferredId → Tree} {path : List String}
  (hm : m.forest.Sound) (hn : n ∈ m.forest)
  (hanswers : ∀ d, (m.view (.node n)).Reads answers d → m.Gives d (answers d))

include hm hn hanswers

theorem sees_scalar (a : Scalar) : Sees m m n (.scalar a) (m.sight answers n (.scalar a)) :=
  .of_mem hm hn (m.known_scalar a) hanswers

/-- With an environment that is a scalar the same checks are made first. -/
theorem reports_scalar (a : Scalar) (path : List String) :
    Reports (Validator.validate ⟨⟨n, .scalar a, path.map .text⟩, rules⟩) m
      (m.sight answers n (.scalar a)) path
      (((m.sight answers n .null).verdict (checksOf commonRules)).or
        (if connecting.appliesTo (m.sight answers n (.scalar a))
          then ((m.sight answers n (.scalar a)).verdict (checksOf databaseRules)).map
            (.provided connecting) else none)) := by
  rw [← (m.sight answers n .null).verdict_environment everywhere_commonRules (.scalar a)]
  exact reports (sees_scalar hm hn hanswers a) path

/-- **Accepting a node** means that the checks find nothing that are made everywhere, and that there
is a database if the environment connects to one. -/
theorem accepts_iff (a : Scalar) : Accepts m n (.scalar a) path ↔
    (m.sight answers n .null).verdict (checksOf commonRules) = none ∧
      (connecting.appliesTo (m.sight answers n (.scalar a)) = true → HasDatabase m n) := by
  refine (reports_scalar hm hn hanswers a path).succeeds_iff.trans ?_
  rw [Option.or_eq_none_iff, ← verdict_databaseRules (sees_scalar hm hn hanswers a)]
  refine and_congr_right fun _ ↦ ?_
  split <;> simp_all

theorem accepts_null_iff : Accepts m n .null path ↔
    (m.sight answers n .null).verdict (checksOf commonRules) = none := by
  rw [accepts_iff hm hn hanswers .null]
  exact ⟨And.left, fun h ↦ ⟨h, nofun⟩⟩

/-- With the name of an environment a database is asked for as well. -/
theorem accepts_named_iff {name : String} (hname : name ≠ "") (hbuild : name ≠ buildEnvironment) :
    Accepts m n (.text name) path ↔ Accepts m n .null path ∧ HasDatabase m n := by
  rw [accepts_iff hm hn hanswers (.text name), accepts_null_iff hm hn hanswers]
  exact and_congr_right fun _ ↦ forall_prop_of_true (connecting_text.mpr ⟨hname, hbuild⟩)

theorem accepts_build_iff : Accepts m n (.text buildEnvironment) path ↔ Accepts m n .null path := by
  rw [accepts_iff hm hn hanswers (.text buildEnvironment), accepts_null_iff hm hn hanswers]
  exact and_iff_left fun h ↦ absurd rfl (connecting_text.mp h).2

/-- **Whatever is rejected without an environment** is rejected for the same reason with any. -/
theorem rejects {f : Failure} {m' : Memory}
    (h : Validator.validate ⟨⟨n, .null, path.map .text⟩, rules⟩ m = .error f m') :
    ∃ keyPath problem, f = .configuration (.validationFailure keyPath (.scalar .null) problem) ∧
      ∀ a : Scalar, ∃ m'' problem',
        Validator.validate ⟨⟨n, .scalar a, path.map .text⟩, rules⟩ m = .error
          (.configuration (.validationFailure keyPath (.scalar a) problem')) m'' ∧
        ∀ names, problem'.message names = problem.message names := by
  have hnull := reports_scalar hm hn hanswers .null path
  have happlies : connecting.appliesTo (m.sight answers n .null) = false := rfl
  rw [happlies, if_neg Bool.false_ne_true, Option.or_none] at hnull
  obtain ⟨c, problem, hc, rfl, hproblem⟩ := hnull.of_error h
  refine ⟨_, problem, rfl, fun a ↦ ?_⟩
  have ha := reports_scalar hm hn hanswers a path
  rw [hc, Option.some_or] at ha
  obtain ⟨m'', problem', herror, -, hproblem'⟩ := ha
  -- the check that is violated finds the same in both environments
  obtain ⟨rule, hrule, hmem⟩ := mem_checksOf.mp (List.mem_of_find?_eq_some hc)
  have hsame : c.problem? (m.sight answers n (.scalar a)) = c.problem? (m.sight answers n .null) :=
    (everywhere_commonRules rule hrule).problem?_eq hmem (m.sight answers n .null) (.scalar a)
  refine ⟨m'', problem', herror, fun names ↦ ?_⟩
  rw [hsame, hproblem] at hproblem'
  rw [← problem'.message_anonymous, ← Option.some.inj hproblem', problem.message_anonymous]

end Environments

/-- Without an environment whatever is accepted with one, by any node that offers the same. -/
theorem accepts_null {m m' : Memory} {n n' : NodeId} {fields : Entries Blueprint} {a : Scalar}
    {path : List String} (h : m.Offers n fields) (h' : m'.Offers n' fields)
    (haccepts : Accepts m n (.scalar a) path) : Accepts m' n' .null path := by
  obtain ⟨answers, -, hgives⟩ := h.displays .null
  have hnull : Accepts m n .null path := (accepts_null_iff h.sound h.mem hgives).mpr
    ((accepts_iff h.sound h.mem hgives a).mp haccepts).1
  obtain ⟨o, hends, hends'⟩ := h.ends h' ⟨.null, rfl⟩ overScalars_rules path
  have haccepted : Validator.Ends ⟨⟨n, .null, path.map .text⟩, rules⟩ m none := hnull
  obtain rfl := hends.unique haccepted
  exact hends'

end Katello

end LayeredConfig
