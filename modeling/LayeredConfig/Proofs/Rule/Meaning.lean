import LayeredConfig.Proofs.Rule.Likeness

/-!
# What rules mean

A rule can be read in two ways. As a statement about a node it is satisfied or not, whatever the
order in which its parts are looked at (`Rule.Satisfied`). As a list of single checks, in the order
in which they are made, it has a first check that is violated, or none (`Rule.checks`). A rule is
satisfied exactly if none of its checks is violated (`Rule.satisfied_iff`).

Both readings are about a `Sight`: the fields of a node as a tree, and what the computations in it
answer. A check carries the way that leads to it, which is made of the keys of nested rules and of
the conditions on the way, each of which is looked at where it stands.
-/

namespace LayeredConfig

namespace Tree

/-- Whether a tree is a node. -/
def isNode : Tree → Bool
  | .node .. => true
  | _ => false

/-- The fields of a node; anything else has none. -/
def nodeFields : Tree → Entries Tree
  | .node _ _ fields => fields
  | _ => []

/-- A text, a sequence or a node with something in it. -/
def Filled : Tree → Prop
  | .scalar (.text s) => s ≠ ""
  | .seq _ items => items ≠ []
  | .node _ _ fields => fields ≠ []
  | _ => False

theorem emptiness?_eq_none_iff (t : Tree) : t.emptiness? = none ↔ t.Filled := by
  unfold emptiness?
  split <;> simp_all [Filled]

/-- In value and kind only nothing is nothing. -/
theorem equal_null_iff (t : Tree) :
    (t.equal (.scalar .null) && t.sameKind (.scalar .null)) = true ↔ t = .scalar .null := by
  constructor
  · intro h
    have hequal := (Bool.and_eq_true_iff.mp h).1
    cases t with
    | scalar a =>
      cases a with
      | null => rfl
      | _ => cases hequal
    | _ => cases hequal
  · rintro rfl
    rfl

/-- In value and kind a truth value is itself only. -/
theorem equal_bool_iff (t : Tree) (b : Bool) :
    (t.equal (.scalar (.bool b)) && t.sameKind (.scalar (.bool b))) = true
      ↔ t = .scalar (.bool b) := by
  constructor
  · intro h
    obtain ⟨hequal, hkind⟩ := Bool.and_eq_true_iff.mp h
    cases t with
    | scalar a =>
      cases a with
      | bool c => cases b <;> cases c <;> first | rfl | cases hequal
      -- a number may equal a truth value, but it is of another kind
      | _ => simp [sameKind, Scalar.kindName] at hkind
    | _ => cases hequal
  · rintro rfl
    cases b <;> decide

end Tree

/-! ## What is looked at -/

/-- The fields of a node, the answers of the computations that stand in it, the environment, and
the trees of the values that rules mention. -/
structure Sight where
  view : Value → Tree
  answers : DeferredId → Tree
  environment : Tree
  fields : Entries Tree

namespace Sight

/-- A computation stands for its answer. -/
def resolved (s : Sight) : Tree → Tree
  | .deferred d => s.answers d
  | t => t

/-- What is found under a key; nothing if the key is not there. -/
def found (s : Sight) (key : String) : Tree :=
  s.resolved ((s.fields.find? key).getD (.scalar .null))

/-- The sight of the node under a key. Where no node is found it has no fields. -/
def inside (s : Sight) (key : String) : Sight := { s with fields := (s.found key).nodeFields }

/-- The value of the key is one of the given ones, in value and kind. -/
def Among (s : Sight) (key : String) (allowed : List Value) : Prop :=
  ∃ a ∈ allowed, ((s.found key).equal (s.view a) && (s.found key).sameKind (s.view a)) = true

end Sight

open Inspection (name)

/-! ## Rules as statements -/

/-- Whether a condition holds of what is looked at. -/
def Condition.Holds (s : Sight) : Condition → Prop
  | .concreteEnvironment excluding =>
    s.environment.truthy = true ∧ s.environment.equal (s.view excluding) = false
  | .flag key expected => expected = .bool (s.found (name key)).truthy

/-- The node satisfies the rule. Nested rules are about the node under their key, conditional ones
ask for something only where their condition holds. -/
inductive Rule.Satisfied : Sight → Rule → Prop
  | hasKeys {s : Sight} {keys : List Value}
      (h : ∀ key ∈ keys, (s.fields.find? (name key)).isSome = true) : Satisfied s (.hasKeys keys)
  | hasValues {s : Sight} {key : Value} {values : List Value} {allowNull : Value}
      (h : s.Among (name key) values ∨
        (s.view allowNull).truthy = true ∧ s.found (name key) = .scalar .null) :
      Satisfied s (.hasValues key values allowNull)
  | areBooleans {s : Sight} {keys : List Value}
      (h : ∀ key ∈ keys, ∃ b, s.found (name key) = .scalar (.bool b)) :
      Satisfied s (.areBooleans keys)
  | isNotEmpty {s : Sight} {key : Value} (h : (s.found (name key)).Filled) :
      Satisfied s (.isNotEmpty key)
  | nested {s : Sight} {key : Value} {rules : List Rule}
      (hnode : (s.found (name key)).truthy = true → (s.found (name key)).isNode = true)
      (h : ∀ rule ∈ rules, Satisfied (s.inside (name key)) rule) : Satisfied s (.nested key rules)
  | when {s : Sight} {condition : Condition} {rules : List Rule}
      (h : condition.Holds s → ∀ rule ∈ rules, Satisfied s rule) :
      Satisfied s (.when condition rules)

/-! ## Rules as lists of checks -/

/-- What a single check asks of the value of a key. -/
inductive Demand where
  | defined
  | oneOf (values : List Value) (allowNull : Value)
  | filled
  | nodeIfSet

/-- A single check, and the way that leads to it. -/
inductive Check where
  | demand (key : String) (d : Demand)
  | inside (key : String) (c : Check)
  | provided (condition : Condition) (c : Check)

/-- The keys that lead to what is checked, and the key that is checked. -/
def Check.keys : Check → List String
  | .demand key _ => [key]
  | .inside key c => key :: c.keys
  | .provided _ c => c.keys

mutual

/-- The checks of a rule, in the order in which they are made. -/
def Rule.checks : Rule → List Check
  | .hasKeys keys => keys.map fun key ↦ .demand (name key) .defined
  | .hasValues key values allowNull => [.demand (name key) (.oneOf values allowNull)]
  | .areBooleans keys =>
    keys.map fun key ↦ .demand (name key) (.oneOf [.bool true, .bool false] (.bool false))
  | .isNotEmpty key => [.demand (name key) .filled]
  | .nested key rules => .demand (name key) .nodeIfSet :: (checksOf rules).map (.inside (name key))
  | .when condition rules => (checksOf rules).map (.provided condition)
termination_by structural x => x

/-- The checks of rules, in the order in which they are made. -/
def checksOf : List Rule → List Check
  | [] => []
  | rule :: rest => rule.checks ++ checksOf rest
termination_by structural x => x

end

/-- Whether a condition applies to what is looked at. -/
def Condition.appliesTo (s : Sight) : Condition → Bool
  | .concreteEnvironment excluding =>
    s.environment.truthy && !s.environment.equal (s.view excluding)
  | .flag key expected =>
    match expected with
    | .bool b => (s.found (name key)).truthy == b
    | _ => false

/-- The allowed values of a demand. -/
def Sight.allowed (s : Sight) (values : List Value) (allowNull : Value) : List Value :=
  values ++ if (s.view allowNull).truthy then [.null] else []

/-- What is wrong with the value of a key, if anything is. -/
def Demand.problem? (s : Sight) (key : String) : Demand → Option Problem
  | .defined => if (s.fields.find? key).isSome then none else some .required
  | .oneOf values allowNull =>
    let allowed := (s.allowed values allowNull).map s.view
    if allowed.any fun a ↦ (s.found key).equal a && (s.found key).sameKind a then none
    else some (.notOneOf allowed (s.found key))
  | .filled => (s.found key).emptiness?
  | .nodeIfSet => if (s.found key).truthy && !(s.found key).isNode then some .notMapping else none

/-- What a check finds wrong. -/
def Check.problem? (s : Sight) : Check → Option Problem
  | .demand key d => d.problem? s key
  | .inside key c => c.problem? (s.inside key)
  | .provided condition c => if condition.appliesTo s then c.problem? s else none

/-- Whether a check is violated. -/
def Check.violated (s : Sight) (c : Check) : Bool := (c.problem? s).isSome

/-! ## The two readings agree -/

variable {s : Sight} {key : String}

theorem Condition.appliesTo_iff (condition : Condition) :
    condition.appliesTo s = true ↔ condition.Holds s := by
  cases condition with
  | concreteEnvironment excluding => simp [appliesTo, Holds]
  | flag key expected =>
    cases expected with
    | scalar a =>
      cases a with
      | bool b =>
        rw [appliesTo, Holds, beq_iff_eq]
        exact ⟨fun h ↦ congrArg Value.bool h.symm, fun h ↦ (Scalar.bool.inj (Value.scalar.inj h)).symm⟩
      | _ => simp [appliesTo, Holds]
    | _ => simp [appliesTo, Holds]

theorem Sight.among_allowed (hview : ∀ a, s.view (.scalar a) = .scalar a) {values : List Value}
    {allowNull : Value} : s.Among key (s.allowed values allowNull) ↔
      s.Among key values ∨ (s.view allowNull).truthy = true ∧ s.found key = .scalar .null := by
  rw [allowed]
  cases (s.view allowNull).truthy <;>
    simp only [Among, Bool.false_eq_true, ↓reduceIte, List.append_nil, List.mem_append,
      List.mem_singleton, or_and_right, exists_or, exists_eq_left, hview,
      Tree.equal_null_iff, false_and, or_false, true_and]

namespace Demand

theorem problem?_defined : Demand.defined.problem? s key = none ↔
    (s.fields.find? key).isSome = true := by
  rw [problem?]
  split <;> simp_all

theorem problem?_oneOf {values : List Value} {allowNull : Value} :
    (Demand.oneOf values allowNull).problem? s key = none ↔
      s.Among key (s.allowed values allowNull) := by
  simp [problem?, Sight.Among]

theorem problem?_booleans (hview : ∀ a, s.view (.scalar a) = .scalar a) :
    (Demand.oneOf [.bool true, .bool false] (.bool false)).problem? s key = none ↔
      ∃ b, s.found key = .scalar (.bool b) := by
  have hfalse : (s.view (.bool false)).truthy = false := by rw [hview]; rfl
  rw [problem?_oneOf, Sight.allowed, hfalse, Sight.Among]
  simp only [List.mem_cons, List.not_mem_nil, or_false, exists_eq_or_imp, exists_eq_left, hview,
    Tree.equal_bool_iff, Bool.false_eq_true, ↓reduceIte, List.append_nil, Bool.exists_bool]
  exact or_comm

theorem problem?_filled : Demand.filled.problem? s key = none ↔ (s.found key).Filled :=
  Tree.emptiness?_eq_none_iff _

theorem problem?_nodeIfSet : Demand.nodeIfSet.problem? s key = none ↔
    ((s.found key).truthy = true → (s.found key).isNode = true) := by
  rw [problem?]
  cases (s.found key).truthy <;> cases (s.found key).isNode <;> simp

end Demand

theorem forall_mem_checksOf {rules : List Rule} {p : Check → Prop} :
    (∀ c ∈ checksOf rules, p c) ↔ ∀ rule ∈ rules, ∀ c ∈ rule.checks, p c := by
  induction rules with
  | nil => simp [checksOf]
  | cons rule rest ih => simp [checksOf, or_imp, forall_and, ih]

/-- **A rule is satisfied** exactly if none of its checks is violated. -/
theorem Rule.satisfied_iff {known : Value → Prop} {rule : Rule} (hrule : rule.OverTexts known)
    (hview : ∀ a, s.view (.scalar a) = .scalar a) :
    rule.Satisfied s ↔ ∀ c ∈ rule.checks, c.problem? s = none := by
  induction hrule generalizing s with
  | hasKeys keys =>
    rw [checks, List.forall_mem_map]
    simp only [Check.problem?, Demand.problem?_defined]
    exact ⟨fun h ↦ by cases h with | hasKeys h => exact h, .hasKeys⟩
  | hasValues key _ _ =>
    rw [checks, List.forall_mem_singleton, Check.problem?, Demand.problem?_oneOf,
      Sight.among_allowed hview]
    exact ⟨fun h ↦ by cases h with | hasValues h => exact h, .hasValues⟩
  | areBooleans keys =>
    rw [checks, List.forall_mem_map]
    simp only [Check.problem?, Demand.problem?_booleans hview]
    exact ⟨fun h ↦ by cases h with | areBooleans h => exact h, .areBooleans⟩
  | isNotEmpty key =>
    rw [checks, List.forall_mem_singleton, Check.problem?, Demand.problem?_filled]
    exact ⟨fun h ↦ by cases h with | isNotEmpty h => exact h, .isNotEmpty⟩
  | @nested key rules _ ih =>
    rw [checks, List.forall_mem_cons, Check.problem?, Demand.problem?_nodeIfSet,
      List.forall_mem_map, forall_mem_checksOf]
    have hinside : ∀ rule ∈ rules, (rule.Satisfied (s.inside key) ↔
        ∀ c ∈ rule.checks, c.problem? (s.inside key) = none) := fun rule hr ↦ ih rule hr hview
    constructor
    · rintro (_ | _ | _ | _ | ⟨hnode, h⟩)
      exact ⟨hnode, fun rule hr ↦ (hinside rule hr).mp (h rule hr)⟩
    · rintro ⟨hnode, h⟩
      exact .nested hnode fun rule hr ↦ (hinside rule hr).mpr (h rule hr)
  | @when condition rules _ _ ih =>
    rw [checks, List.forall_mem_map, forall_mem_checksOf]
    simp only [Check.problem?, ite_eq_right_iff]
    constructor
    · rintro (_ | _ | _ | _ | _ | h) rule hr c hc happlies
      exact (ih rule hr hview).mp (h (condition.appliesTo_iff.mp happlies) rule hr) c hc
    · intro h
      refine .when fun hholds rule hr ↦ (ih rule hr hview).mpr fun c hc ↦ ?_
      exact h rule hr c hc (condition.appliesTo_iff.mpr hholds)

end LayeredConfig
