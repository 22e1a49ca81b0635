import LayeredConfig.Proofs.Tree.Blueprint
import LayeredConfig.Rule.Basic

/-!
# The first violation of a rule

What a set of rules finds wrong with a content, as a function of the content: no node is made, no
computation runs, and nothing is kept between two rules. The values that the rules themselves
mention are given as trees, and a key that is not there reads as nothing.
-/

namespace LayeredConfig

/-- What is wrong, and at which key. -/
structure Violation where
  keyPath : String
  problem : Problem

/-- The fields that a rule is about, the path that leads to them, the environment, and the trees of
the values that rules mention. -/
structure Inspection where
  view : Value → Tree
  environment : Tree
  path : List String
  fields : Entries Blueprint

namespace Inspection

/-- The name of a key. -/
def name (key : Value) : String := key.text?.getD ""

/-- What is found under a key. -/
def found (i : Inspection) (key : Value) : Blueprint :=
  (i.fields.find? (name key)).getD (.scalar .null)

/-- A violation at a key. -/
def violation (i : Inspection) (key : Value) (problem : Problem) : Violation :=
  ⟨".".intercalate (i.path ++ [name key]), problem⟩

/-- The inspection of what stands under a key. -/
def inside (i : Inspection) (key : Value) (fields : Entries Blueprint) : Inspection :=
  { i with path := i.path ++ [name key], fields }

/-- What is wrong if the value of a key has to be one of the given ones. -/
def mismatch? (i : Inspection) (key : Value) (allowed : List Value) : Option Violation :=
  let found := (i.found key).tree
  let allowed := allowed.map i.view
  if allowed.any fun a ↦ found.equal a && found.sameKind a then none
  else some (i.violation key (.notOneOf allowed found))

/-- What is wrong if the value of a key has to be a collection with something in it. -/
def emptiness? (i : Inspection) (key : Value) : Option Violation :=
  match i.found key with
  | .scalar .null => some (i.violation key .empty)
  | .scalar (.text s) => if s.isEmpty then some (i.violation key .empty) else none
  | .list items => if items.isEmpty then some (i.violation key .empty) else none
  | .node fields => if fields.isEmpty then some (i.violation key .empty) else none
  | b => some (i.violation key (.notCollection b.tree))

end Inspection

/-- Whether a condition applies. -/
def Condition.applies (i : Inspection) : Condition → Bool
  | .concreteEnvironment excluding =>
    i.environment.truthy && !i.environment.equal (i.view excluding)
  | .flag key expected =>
    match expected with
    | .bool b => (i.found key).tree.truthy == b
    | _ => false

mutual

/-- The first violation of a rule. -/
def Rule.violation? (i : Inspection) : Rule → Option Violation
  | .hasKeys keys => keys.findSome? fun key ↦
    if (i.fields.find? (Inspection.name key)).isSome then none else some (i.violation key .required)
  | .hasValues key values allowNull =>
    i.mismatch? key (values ++ if (i.view allowNull).truthy then [.null] else [])
  | .areBooleans keys => keys.findSome? fun key ↦ i.mismatch? key [.bool true, .bool false]
  | .isNotEmpty key => i.emptiness? key
  | .nested key rules =>
    match i.found key with
    | .node fields => firstViolation? (i.inside key fields) rules
    | b =>
      if b.tree.truthy then some (i.violation key .notMapping)
      else firstViolation? (i.inside key []) rules
  | .when condition rules => if condition.applies i then firstViolation? i rules else none
termination_by structural x => x

/-- The first violation of any of the rules, in order. -/
def firstViolation? (i : Inspection) : List Rule → Option Violation
  | [] => none
  | rule :: rest => (rule.violation? i).or (firstViolation? i rest)
termination_by structural x => x

end

namespace Rule

variable {i : Inspection} {key : Value} {rules : List Rule}

theorem violation?_nested_of_node {fields : Entries Blueprint} (h : i.found key = .node fields) :
    violation? i (.nested key rules) = firstViolation? (i.inside key fields) rules := by
  rw [violation?, h]

theorem violation?_nested_of_ne (h : ∀ fields, i.found key ≠ .node fields) :
    violation? i (.nested key rules) =
      if (i.found key).tree.truthy then some (i.violation key .notMapping)
      else firstViolation? (i.inside key []) rules := by
  rw [violation?]
  split
  · next fields heq => exact absurd heq (h fields)
  · rfl

end Rule

/-! ## Rules over texts -/

/-- The condition asks for keys that are texts, and mentions known values only. -/
inductive Condition.OverTexts (known : Value → Prop) : Condition → Prop
  | concreteEnvironment {excluding : Value} (h : known excluding) :
      OverTexts known (.concreteEnvironment excluding)
  | flag (key : String) (expected : Value) : OverTexts known (.flag (.text key) expected)

/-- The rule asks for keys that are texts, and mentions known values only. -/
inductive Rule.OverTexts (known : Value → Prop) : Rule → Prop
  | hasKeys (keys : List String) : OverTexts known (.hasKeys (keys.map .text))
  | hasValues (key : String) {values : List Value} {allowNull : Value}
      (h : ∀ v ∈ values, known v) (hnull : known allowNull) :
      OverTexts known (.hasValues (.text key) values allowNull)
  | areBooleans (keys : List String) : OverTexts known (.areBooleans (keys.map .text))
  | isNotEmpty (key : String) : OverTexts known (.isNotEmpty (.text key))
  | nested (key : String) {rules : List Rule} (h : ∀ rule ∈ rules, OverTexts known rule) :
      OverTexts known (.nested (.text key) rules)
  | when {condition : Condition} {rules : List Rule} (hcondition : condition.OverTexts known)
      (h : ∀ rule ∈ rules, OverTexts known rule) : OverTexts known (.when condition rules)

end LayeredConfig
