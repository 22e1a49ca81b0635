import LayeredConfig.Node.Basic

/-!
# Rules

What a configuration has to satisfy, as a tree of rules. A set of rules is checked in order and
the first violation is reported, so a configuration that passes satisfies every rule.

A rule is checked in a scope: a node, the name of the environment, and the path that leads from
the root to the node, which stands in front of every reported key. Nested rules move the scope to
a sub-node; a missing or empty one reads as a node without entries, so that only the rules that
ask for keys inside it fail.
-/

namespace LayeredConfig

/-- When conditional rules apply. -/
inductive Condition where
  /-- An environment is given, and it is not the excluded one. -/
  | concreteEnvironment (excluding : Value)
  /-- Whether the value of the key counts as set is as expected. -/
  | flag (key expected : Value)
deriving Repr, Inhabited

/-- A demand on a node. -/
inductive Rule where
  /-- Every key is defined. -/
  | hasKeys (keys : List Value)
  /-- The value of the key is one of the values, or nothing if that is allowed. A value matches
  only one of its own kind. -/
  | hasValues (key : Value) (values : List Value) (allowNull : Value)
  /-- Every key holds a truth value. -/
  | areBooleans (keys : List Value)
  /-- The key holds a text, a sequence or a node that is not empty. -/
  | isNotEmpty (key : Value)
  /-- The node under the key satisfies the rules. -/
  | nested (key : Value) (rules : List Rule)
  /-- The rules hold if the condition does. -/
  | when (condition : Condition) (rules : List Rule)
deriving Inhabited

/-- Where rules are checked. -/
structure Scope where
  node : NodeId
  environment : Value
  path : List Value
deriving Repr, Inhabited

/-- The segments of a key path joined by dots. -/
def joinPath : (position : Nat) → List Value → Except Failure (List String)
  | _, [] => .ok []
  | position, .text s :: rest => return s :: (← joinPath (position + 1) rest)
  | position, v :: _ => .error (.pathSegment position v.qualifiedKindName)

namespace Scope

/-- Reports a violation at a key. -/
def fail {α : Type} (s : Scope) (key : Value) (problem : Problem) : Eval α := do
  match joinPath 0 (s.path ++ [key]) with
  | .error f => throw f
  | .ok segments =>
    refuse (.validationFailure (".".intercalate segments) (← snapshot s.environment) problem)

/-- The value of a key, or nothing when it is not defined. -/
def valueOf (s : Scope) (key : Value) : Eval Value := Node.valueOf s.node key

/-- Whether no environment is given. -/
def early (s : Scope) : Eval Bool := return !(← truthyValue s.environment)

/-- Requires the value of a key to be one of the allowed ones, in value and kind. -/
def requireValue (s : Scope) (key : Value) (allowed : List Value) : Eval Unit := do
  let found ← snapshot (← s.valueOf key)
  let allowed ← allowed.mapM snapshot
  if !allowed.any fun a ↦ found.equal a && found.sameKind a then
    s.fail key (.notOneOf allowed found)

/-- Requires the value of a key to be a collection with something in it. -/
def requireNotEmpty (s : Scope) (key : Value) : Eval Unit := do
  match ← snapshot (← s.valueOf key) with
  | .scalar .null => s.fail key .empty
  | .scalar (.text "") => s.fail key .empty
  | .scalar (.text _) => pure ()
  | .seq _ items => if items.isEmpty then s.fail key .empty
  | .node _ _ entries => if entries.isEmpty then s.fail key .empty
  | found => s.fail key (.notCollection found)

/-- Checks what stands under a key, which has to be a node, in a scope of its own. -/
def inside (s : Scope) (key : Value) (check : Scope → Eval Unit) : Value → Eval Unit
  | .node n => check { s with node := n, path := s.path ++ [key] }
  | _ => s.fail key .notMapping

end Scope

/-- Whether conditional rules apply in a scope. -/
def Condition.holds (s : Scope) : Condition → Eval Bool
  | .concreteEnvironment excluding => do
    if ← s.early then return false
    return !(← equalValues s.environment excluding)
  | .flag key expected => do
    let set ← truthyValue (← s.valueOf key)
    match expected with
    | .bool b => return set == b
    | _ => return false

mutual

/-- Checks a rule. -/
def Rule.check (s : Scope) : Rule → Eval Unit
  | .hasKeys keys => keys.forM fun key ↦ do
    if !(← Node.hasKey s.node key) then s.fail key .required
  | .hasValues key values allowNull => do
    let nulls := if ← truthyValue allowNull then [.null] else []
    s.requireValue key (values ++ nulls)
  | .areBooleans keys => keys.forM fun key ↦ s.requireValue key [.bool true, .bool false]
  | .isNotEmpty key => s.requireNotEmpty key
  | .nested key rules => do
    let found ← s.valueOf key
    let inner ← if ← truthyValue found then pure found else Value.node <$> Node.create .null
    s.inside key (fun s ↦ checkRules s rules) inner
  | .when condition rules => do
    if ← condition.holds s then checkRules s rules
termination_by structural x => x

/-- Checks rules in order. -/
def checkRules (s : Scope) : List Rule → Eval Unit
  | [] => pure ()
  | rule :: rest => do
    rule.check s
    checkRules s rest
termination_by structural x => x

end

/-- A scope together with the rules that it has to satisfy. -/
structure Validator where
  scope : Scope
  rules : List Rule
deriving Inhabited

/-- Checks the rules of a validator. -/
def Validator.validate (v : Validator) : Eval Unit := checkRules v.scope v.rules

end LayeredConfig
