import LayeredConfig.Loader.Views
import LayeredConfig.Proofs.Rule.Harmless
import LayeredConfig.Proofs.Template.Filling

/-!
# What the stages of loading do to nodes

Checking rules, merging sections, deriving values and collecting database settings all use nodes
through their operations only, whatever they are given and whether they succeed. So they keep what
operations keep: the forest after each of them is one that may have arisen from the forest before,
what was frozen before is what it was, and no computation has become another one.
-/

namespace LayeredConfig

open Memory (Lasting)

variable {R : Memory → Memory → Prop} [Lasting R]

theorem Node.keeps_valueOf (n : NodeId) (key : Value) : Keeps R (valueOf n key) := by
  unfold valueOf
  refine (keeps_hasKey n key).bind fun defined ↦ ?_
  split
  · exact keeps_getWith keeps_evaluate n key
  · exact .pure _

/-! ## Rules -/

namespace Scope

variable (s : Scope)

theorem keeps_requireValue (key : Value) (allowed : List Value) :
    Keeps R (s.requireValue key allowed) := by
  refine (Node.keeps_valueOf s.node key).bind fun v ↦ (keeps_snapshot v).of_eq.bind fun found ↦ ?_
  refine .bind (.mapM fun a _ ↦ (keeps_snapshot a).of_eq) fun _ ↦ ?_
  split
  · exact (s.keeps_fail _ _).of_eq
  · exact .pure _

theorem keeps_requireNotEmpty (key : Value) : Keeps R (s.requireNotEmpty key) := by
  have hfail : ∀ problem, Keeps R (s.fail key problem : Eval Unit) := fun problem ↦
    (s.keeps_fail key problem).of_eq
  refine (Node.keeps_valueOf s.node key).bind fun v ↦ (keeps_snapshot v).of_eq.bind fun found ↦ ?_
  split
  · exact hfail _
  · exact hfail _
  · exact .pure _
  · split
    · exact hfail _
    · exact .pure _
  · split
    · exact hfail _
    · exact .pure _
  · exact hfail _

theorem keeps_inside (key : Value) {check : Scope → Eval Unit}
    (h : ∀ s', Keeps R (check s')) (v : Value) : Keeps R (s.inside key check v) := by
  cases v with
  | node n => exact h _
  | _ => exact (s.keeps_fail _ _).of_eq

theorem keeps_holds (condition : Condition) : Keeps R (condition.holds s) := by
  cases condition with
  | concreteEnvironment excluding =>
    refine .bind ((keeps_truthyValue _).of_eq.bind fun _ ↦ .pure _) fun early ↦ ?_
    split
    · exact .pure _
    · exact .bind (.bind .get fun _ ↦ .pure _) fun _ ↦ .pure _
  | flag key expected =>
    refine (Node.keeps_valueOf s.node key).bind fun v ↦ ?_
    refine (keeps_truthyValue v).of_eq.bind fun set ↦ ?_
    split <;> exact .pure _

end Scope

mutual

/-- Checking a rule uses nodes through their operations only. -/
theorem Rule.keeps_check (s : Scope) : (rule : Rule) → Keeps R (rule.check s)
  | .hasKeys keys => by
    rw [Rule.check]
    refine .forM fun key _ ↦ (Node.keeps_hasKey s.node key).bind fun defined ↦ ?_
    split
    · exact (s.keeps_fail _ _).of_eq
    · exact .pure _
  | .hasValues key values allowNull => by
    rw [Rule.check]
    exact (keeps_truthyValue _).of_eq.bind fun _ ↦ s.keeps_requireValue _ _
  | .areBooleans keys => by
    rw [Rule.check]
    exact .forM fun key _ ↦ s.keeps_requireValue key _
  | .isNotEmpty key => by
    rw [Rule.check]
    exact s.keeps_requireNotEmpty key
  | .nested key rules => by
    rw [Rule.check]
    refine (Node.keeps_valueOf s.node key).bind fun found ↦ ?_
    have hinside := s.keeps_inside key fun s' ↦ keeps_checkRules s' rules
    refine (keeps_truthyValue found).of_eq.bind fun set ↦ ?_
    split
    · exact .bind (.pure _) hinside
    · exact ((Node.keeps_create _).map _).bind hinside
  | .when condition rules => by
    rw [Rule.check]
    refine (s.keeps_holds condition).bind fun applies ↦ ?_
    split
    · exact keeps_checkRules s rules
    · exact .pure _
termination_by structural rule => rule

/-- **Checking rules** uses nodes through their operations only. -/
theorem keeps_checkRules (s : Scope) : (rules : List Rule) → Keeps R (checkRules s rules)
  | [] => .pure ()
  | rule :: rest => by
    rw [checkRules]
    exact (rule.keeps_check s).bind fun _ ↦ keeps_checkRules s rest
termination_by structural rules => rules

end

namespace Loader

/-! ## Sections and derived values -/

theorem keeps_mergeSections (environment : Value) (data : NodeId) :
    Keeps R (mergeSections environment data) := by
  refine (Node.keeps_create _).bind fun n ↦ ?_
  refine (Node.keeps_getWith keeps_evaluate data _).bind fun common ↦ ?_
  refine (Node.keeps_merge n common).bind fun _ ↦ (keeps_truthyValue _).of_eq.bind fun named ↦ ?_
  split
  · refine (Node.keeps_getWith keeps_evaluate data _).bind fun own ↦ ?_
    exact (Node.keeps_merge n own).bind fun _ ↦ .pure _
  · exact .pure _

theorem keeps_fillNull (n : NodeId) (value : Value) (key : String) :
    Keeps R (fillNull n value key) := by
  refine (Node.keeps_valueOf n _).bind fun v ↦ ?_
  split
  · exact Node.keeps_set n _ _
  · exact .pure _

theorem keeps_definePredicate (n : NodeId) (key mode : String) :
    Keeps R (definePredicate n key mode) :=
  .bind (.modifyGet fun m ↦ Lasting.define m _) fun _ ↦ Node.keeps_set n _ _

theorem keeps_deriveName (n : NodeId) (katello : Bool) : Keeps R (deriveName n katello) := by
  refine (Node.keeps_valueOf n _).bind fun name ↦ (keeps_truthyValue name).of_eq.bind fun set ↦ ?_
  split
  · exact Node.keeps_set n _ _
  · exact .pure _

theorem keeps_deriveReplyAddress (n : NodeId) : Keeps R (deriveReplyAddress n) := by
  refine (Node.keeps_valueOf n _).bind fun v ↦ (keeps_truthyValue v).of_eq.bind fun set ↦ ?_
  split
  · refine (Node.keeps_hasKey n _).bind fun hosted ↦ ?_
    split
    · refine (Node.keeps_getWith keeps_evaluate n _).bind fun host ↦ ?_
      exact (keeps_displayValue host).of_eq.bind fun _ ↦ Node.keeps_set n _ _
    · exact .pure _
  · exact .pure _

/-- Deriving values begins with the predicates on the mode. -/
def definePredicates (n : NodeId) : Eval Unit := do
  definePredicate n "is_katello" "katello"
  definePredicate n "is_headpin" "headpin"

theorem keeps_definePredicates (n : NodeId) : Keeps R (definePredicates n) :=
  (keeps_definePredicate n _ _).bind fun _ ↦ keeps_definePredicate n _ _

/-- What follows reads one of the predicates and fills in the other values. -/
def deriveDefaults (n : NodeId) : Eval Bool := do
  let mode ← Node.get n (.text "is_katello")
  let katello ← truthyValue mode
  deriveName n katello
  fillNull n (.bool true) "use_cp"
  ["use_pulp", "use_foreman", "use_elasticsearch"].forM (fillNull n mode)
  deriveReplyAddress n
  return katello

theorem deriveValues_eq (n : NodeId) :
    deriveValues n = definePredicates n >>= fun _ ↦ deriveDefaults n := by
  rw [definePredicates, bind_assoc]
  rfl

theorem keeps_deriveDefaults (n : NodeId) : Keeps R (deriveDefaults n) := by
  refine (Node.keeps_getWith keeps_evaluate n _).bind fun mode ↦ ?_
  refine (keeps_truthyValue mode).of_eq.bind fun katello ↦ ?_
  refine (keeps_deriveName n katello).bind fun _ ↦ ?_
  refine (keeps_fillNull n _ _).bind fun _ ↦ .bind (.forM fun key _ ↦ keeps_fillNull n mode key) ?_
  exact fun _ ↦ (keeps_deriveReplyAddress n).bind fun _ ↦ .pure _

/-- **Deriving values** uses nodes through their operations only. -/
theorem keeps_deriveValues (n : NodeId) : Keeps R (deriveValues n) := by
  rw [deriveValues_eq]
  exact (keeps_definePredicates n).bind fun _ ↦ keeps_deriveDefaults n

/-! ## Database settings -/

theorem keeps_databaseBlock (data : NodeId) (title : Value) :
    Keeps R (databaseBlock data title) := by
  refine (Node.keeps_presentWith keeps_evaluate _ data).bind fun owned ↦ ?_
  split
  · exact .pure _
  refine (Node.keeps_getWith keeps_evaluate data title).bind fun content ↦ ?_
  split
  · refine (Node.keeps_getWith keeps_evaluate _ _).bind fun block ↦ ?_
    split
    · refine (Node.keeps_exportWith keeps_evaluate _).bind fun entries ↦ ?_
      split <;> exact .pure _
    · exact (keeps_displayValue _).of_eq.bind fun _ ↦ (keeps_snapshot _).of_eq.bind fun _ ↦ .throw _
  · exact .pure _

theorem keeps_settingText (v : Value) : Keeps Eq (settingText v) := by
  unfold settingText
  split
  · exact .pure _
  · exact (keeps_displayValue _).map _

theorem keeps_databaseSettings (common own : List (Value × Value)) :
    Keeps Eq (databaseSettings common own) :=
  .mapM fun e _ ↦ (keeps_displayValue e.1).bind fun _ ↦ (keeps_settingText e.2).bind fun _ ↦ .pure _

/-- **Collecting database settings** uses nodes through their operations only. -/
theorem keeps_collectDatabases (data : NodeId) (common : List (Value × Value))
    (all : DatabaseSettings) (environments : List Value) :
    Keeps R (collectDatabases data common all environments) := by
  induction environments generalizing all with
  | nil => exact .pure _
  | cons environment rest ih =>
    rw [collectDatabases]
    refine (Node.keeps_presentWith keeps_evaluate _ data).bind fun owned ↦ ?_
    split
    · exact ih all
    · refine (keeps_databaseBlock data environment).bind fun own ↦ ?_
      refine (keeps_databaseSettings common own).of_eq.bind fun settings ↦ ?_
      exact (keeps_displayValue environment).of_eq.bind fun title ↦ ih _

end Loader

end LayeredConfig
