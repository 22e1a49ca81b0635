import LayeredConfig.Node.Operation

/-!
# Nodes

The operations on a node. Reading a key that is not there is an error; there are no silent
defaults. Keys are texts, and any other key is refused where it is used for reading or writing.
A deferred computation runs each time its key is read, and its result is never kept.

## Running computations

Reading may run a computation, and a computation may read. The operations that read are therefore
written with the way to run a computation as a parameter, `evaluateWithin` runs a computation
whose reads may nest to a given depth, and the operations proper allow the depth `nestingLimit`.
-/

namespace LayeredConfig

/-- The depth to which computations may run inside one another. -/
def nestingLimit : Nat := 256

namespace Node

/-- The text of a key that is used for reading or writing. -/
def checkKey (key : Value) : Eval String := do
  match key with
  | .text s => return s
  | key => refuse (.invalidKeyType (← snapshot key))

/-- A stored value as it is read: a computation runs, all else stands for itself. -/
def resolve (call : DeferredId → Eval Value) : Value → Eval Value
  | .deferred d => call d
  | v => pure v

/-- The value of a key, given how to run computations. -/
def getWith (call : DeferredId → Eval Value) (n : NodeId) (key : Value) : Eval Value := do
  let name ← checkKey key
  match (← get).forest.find? n name with
  | some v => resolve call v
  | none => refuse (.notFound (.scalar (.text name)))

/-- Converts a value and stores it under a key. -/
def set (n : NodeId) (key value : Value) : Eval Unit := do
  let name ← checkKey key
  onForest (Forest.assign n name value)

/-- Whether a key is defined. No computation runs. A value that cannot be a key at all is
refused. -/
def hasKey (n : NodeId) (key : Value) : Eval Bool := do
  match key with
  | .text s => return ((← get).forest.find? n s).isSome
  | key =>
    match key.unhashable? with
    | some kind => throw (.unhashable kind)
    | none => return false

/-- Whether every segment of a path is defined and set, all but the last being nodes. -/
def presentWith (call : DeferredId → Eval Value) (n : NodeId) : List Value → Eval Bool
  | [] => throw .noKeys
  | key :: rest => do
    if !(← hasKey n key) then return false
    let v ← getWith call n key
    if !(← get).forest.truthy v then return false
    if rest.isEmpty then return true
    match v with
    | .node m => presentWith call m rest
    | _ => return false

/-- The keys in order. -/
def keys (n : NodeId) : Eval (List String) := return ((← get).forest.entries n).keys

/-- The number of keys. -/
def length (n : NodeId) : Eval Nat := return ((← get).forest.entries n).length

/-- Reads the given entries one after the other and hands each to `use`. -/
def foldEntries {α : Type} (call : DeferredId → Eval Value) (use : String → Value → Eval α) :
    Entries Value → Eval (List α)
  | [] => return []
  | (key, stored) :: rest => do
    let v ← resolve call stored
    let a ← use key v
    return a :: (← foldEntries call use rest)

/-- The pairs of key and value of the entries at the start of the reading. -/
def itemsWith (call : DeferredId → Eval Value) (n : NodeId) : Eval (Entries Value) := do
  foldEntries call (fun key v ↦ return (key, v)) ((← get).forest.entries n)

mutual

/-- A value with nodes turned into mappings by `sub` and tuples into lists. -/
def exportValue (sub : NodeId → Eval Value) : Value → Eval Value
  | .node n => sub n
  | .seq _ items => return .list (← exportItems sub items)
  | v => pure v
termination_by structural x => x

private def exportItems (sub : NodeId → Eval Value) : List Value → Eval (List Value)
  | [] => return []
  | v :: rest => return (← exportValue sub v) :: (← exportItems sub rest)
termination_by structural x => x

end

private theorem exportItems_eq (sub : NodeId → Eval Value) (items : List Value) :
    exportItems sub items = items.mapM (exportValue sub) := by
  induction items with
  | nil => rfl
  | cons v rest ih => rw [exportItems, ih, List.mapM_cons]

theorem exportValue_seq (sub : NodeId → Eval Value) (kind : SeqKind) (items : List Value) :
    exportValue sub (.seq kind items) = return .list (← items.mapM (exportValue sub)) := by
  rw [exportValue, exportItems_eq]

/-- The contents of a node as a mapping, down to the given number of levels. -/
def exportLevels (call : DeferredId → Eval Value) : (levels : Nat) → NodeId → Eval Value
  | 0, _ => throw .nestedTooDeep
  | levels + 1, n => do
    let entries ← foldEntries call
      (fun key v ↦ return (.text key, ← exportValue (exportLevels call levels) v))
      ((← get).forest.entries n)
    return .mapping entries

/-- The contents of a node as mappings, lists and scalars. -/
def exportWith (call : DeferredId → Eval Value) (n : NodeId) : Eval Value := do
  exportLevels call ((← get).forest.cells.size + nestingLimit) n

/-- Merges a value into a node. -/
def merge (n : NodeId) (other : Value) : Eval Unit := onForest (Forest.mergeValue n other)

/-- Closes a node and all nodes below it to writing. -/
def freeze (n : NodeId) : Eval Unit := modify fun m ↦ { m with forest := m.forest.freeze n }

/-- Makes a node. -/
def create (source : Value) : Eval NodeId := onForest (Forest.create source)

/-- A copy that can be written to. -/
def copy (n : NodeId) : Eval NodeId := create (.node n)

end Node

/-- Equality of values. -/
def equalValues (a b : Value) : Eval Bool := do
  let m ← get
  return (m.view a).equal (m.view b)

/-- Performs an operation, given how to run computations. -/
def Operation.performWith (call : DeferredId → Eval Value) : Operation → Eval Value
  | .create source => return .node (← Node.create source)
  | .get n key => Node.getWith call n key
  | .set n key value => do
    Node.set n key value
    return .null
  | .hasKey n key => return .bool (← Node.hasKey n key)
  | .present n path => return .bool (← Node.presentWith call n path)
  | .keys n => return .list ((← Node.keys n).map .text)
  | .items n => return .list ((← Node.itemsWith call n).map fun (k, v) ↦ .tuple [.text k, v])
  | .merge n other => do
    Node.merge n other
    return .node n
  | .freeze n => do
    Node.freeze n
    return .node n
  | .copy n => return .node (← Node.copy n)
  | .export n => Node.exportWith call n
  | .equal a b => return .bool (← equalValues a b)
  | .call d => call d

/-- Runs a script, given how to perform operations. -/
def Script.run (perform : Operation → Eval Value) : Script → Eval Value
  | .done v => pure v
  | .fail f => throw f
  | .note e rest => do
    emit e
    rest.run perform
  | .named name rest => do (rest ((← get).names.find? name)).run perform
  | .perform op rest => do (rest (← perform op)).run perform

/-- Runs a computation whose reads may nest to the given depth. -/
def evaluateWithin : (depth : Nat) → DeferredId → Eval Value
  | 0, _ => throw .nestedTooDeep
  | depth + 1, d => do
    let c := (← get).computation d
    modify fun m ↦ m.countRun d
    (c.body c.runs).run (Operation.performWith (evaluateWithin depth))

/-- Runs a computation. -/
def evaluate (d : DeferredId) : Eval Value := evaluateWithin nestingLimit d

/-- Performs an operation. -/
def Operation.perform (op : Operation) : Eval Value := op.performWith evaluate

namespace Node

/-- The value of a key. -/
def get (n : NodeId) (key : Value) : Eval Value := getWith evaluate n key

/-- Whether every segment of a path is defined and set, all but the last being nodes. -/
def present (n : NodeId) (keys : List Value) : Eval Bool := presentWith evaluate n keys

/-- The pairs of key and value of the entries at the start of the reading. -/
def items (n : NodeId) : Eval (Entries Value) := itemsWith evaluate n

/-- The contents of a node as mappings, lists and scalars. -/
def toMapping (n : NodeId) : Eval Value := exportWith evaluate n

/-- The value of a key, or nothing when it is not defined. -/
def valueOf (n : NodeId) (key : Value) : Eval Value := do
  if ← hasKey n key then get n key else return .null

end Node

/-- The written form of a value. -/
def quotedValue (v : Value) : Eval String := return (← get).quoted v

/-- The text of a value. -/
def displayValue (v : Value) : Eval String := return (← get).display v

/-- Whether a value counts as set. -/
def truthyValue (v : Value) : Eval Bool := return (← get).forest.truthy v

end LayeredConfig
