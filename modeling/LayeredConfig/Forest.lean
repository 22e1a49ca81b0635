import LayeredConfig.Entries
import LayeredConfig.Failure

/-!
# Forests of nodes

A node is an ordered mapping that can be changed in place and can be referred to from several
places of a program: a sub-node that was read out stays part of its tree. A forest keeps the
contents of all nodes, and every operation on nodes is a function on forests.

## Age

Nodes are numbered in the order in which they are made. What is stored in a node is always
converted first, and converting makes new nodes for everything it copies, the outer one before
the inner ones. So a node only ever holds nodes that are younger than itself. This is why no node
reaches itself, why a path through nodes is never longer than the forest has nodes, and why the
recursions below may count down from that number.

## Conversion

A value is stored in two steps. `Tree.blueprint` decides from a snapshot whether the value can be
stored, which fails only on a key that is no text; `Forest.place` then makes the nodes and cannot
fail. Nothing is shared between the value and what is stored.
-/

namespace LayeredConfig

/-- What one node holds. -/
structure Cell where
  entries : Entries Value
  /-- Whether writing to the node is refused. -/
  frozen : Bool
deriving Inhabited

/-- The contents of all nodes, the oldest first. -/
structure Forest where
  cells : Array Cell
deriving Inhabited

/-- Changes of a forest that may fail half-way. -/
abbrev ForestM := EStateM ConfigurationError Forest

namespace Forest

/-- The forest without nodes. -/
def empty : Forest := ⟨#[]⟩

/-- What a node holds. If there is no such node, that is nothing, and it cannot be written to. -/
def cell (f : Forest) (n : NodeId) : Cell := f.cells[n.index]?.getD ⟨[], true⟩

/-- The entries of a node. -/
def entries (f : Forest) (n : NodeId) : Entries Value := (f.cell n).entries

/-- Whether a node is frozen. -/
def frozen (f : Forest) (n : NodeId) : Bool := (f.cell n).frozen

/-- The value stored under a key of a node. -/
def find? (f : Forest) (n : NodeId) (key : String) : Option Value := (f.entries n).find? key

/-- Makes a node. -/
def grow (f : Forest) (c : Cell) : NodeId × Forest := (⟨f.cells.size⟩, ⟨f.cells.push c⟩)

/-- Changes what a node holds. -/
def update (f : Forest) (n : NodeId) (change : Cell → Cell) : Forest :=
  ⟨f.cells.modify n.index change⟩

/-- Stores a value under a key of a node. -/
def store (f : Forest) (n : NodeId) (key : String) (value : Value) : Forest :=
  f.update n fun c ↦ { c with entries := c.entries.put key value }

end Forest

/-! ## Snapshots -/

mutual

/-- The tree of a value, given the trees of the nodes. -/
def Value.graft (sub : NodeId → Tree) : Value → Tree
  | .scalar s => .scalar s
  | .seq kind items => .seq kind (graftItems sub items)
  | .set items => .set items
  | .mapping entries => .mapping (graftEntries sub entries)
  | .node id => sub id
  | .deferred id => .deferred id
termination_by structural x => x

private def graftItems (sub : NodeId → Tree) : List Value → List Tree
  | [] => []
  | v :: rest => Value.graft sub v :: graftItems sub rest
termination_by structural x => x

private def graftEntries (sub : NodeId → Tree) : List (Value × Value) → List (Tree × Tree)
  | [] => []
  | (k, v) :: rest => (Value.graft sub k, Value.graft sub v) :: graftEntries sub rest
termination_by structural x => x

end

private theorem graftItems_eq (sub : NodeId → Tree) (items : List Value) :
    graftItems sub items = items.map (Value.graft sub) := by
  induction items with
  | nil => rfl
  | cons v rest ih => rw [graftItems, ih, List.map_cons]

private theorem graftEntries_eq (sub : NodeId → Tree) (entries : List (Value × Value)) :
    graftEntries sub entries = entries.map fun e ↦ (e.1.graft sub, e.2.graft sub) := by
  induction entries with
  | nil => rfl
  | cons e rest ih => rw [graftEntries, ih, List.map_cons]

namespace Value

variable (sub : NodeId → Tree)

@[simp] theorem graft_scalar (s : Scalar) : graft sub (.scalar s) = .scalar s := rfl

@[simp] theorem graft_seq (kind : SeqKind) (items : List Value) :
    graft sub (.seq kind items) = .seq kind (items.map (graft sub)) :=
  congrArg (Tree.seq kind) (graftItems_eq sub items)

@[simp] theorem graft_set (items : List Scalar) : graft sub (.set items) = .set items := rfl

@[simp] theorem graft_mapping (entries : List (Value × Value)) :
    graft sub (.mapping entries) = .mapping (entries.map fun e ↦ (e.1.graft sub, e.2.graft sub)) :=
  congrArg Tree.mapping (graftEntries_eq sub entries)

@[simp] theorem graft_node (id : NodeId) : graft sub (.node id) = sub id := rfl

@[simp] theorem graft_deferred (id : DeferredId) : graft sub (.deferred id) = .deferred id := rfl

end Value

namespace Forest

/-- The tree of a node down to the given number of levels. -/
def nodeTree (f : Forest) : (levels : Nat) → NodeId → Tree
  | 0, n => .node n (f.frozen n) []
  | levels + 1, n =>
    .node n (f.frozen n) ((f.entries n).mapValues (Value.graft (f.nodeTree levels)))

/-- The snapshot of a value. -/
def view (f : Forest) (v : Value) : Tree := v.graft (f.nodeTree f.cells.size)

/-- Whether a value counts as set. -/
def truthy (f : Forest) : Value → Bool
  | .scalar s => s.truthy
  | .seq _ items => !items.isEmpty
  | .set items => !items.isEmpty
  | .mapping entries => !entries.isEmpty
  | .node n => !(f.entries n).isEmpty
  | .deferred _ => true

end Forest

/-! ## Conversion -/

/-- What will be stored: sequences are lists, and every mapping is a node with text keys. -/
inductive Blueprint where
  | scalar (s : Scalar)
  | set (items : List Scalar)
  | deferred (id : DeferredId)
  | list (items : List Blueprint)
  | node (entries : List (String × Blueprint))
deriving Inhabited

namespace Tree

/-- A key of a node. -/
def keyText : Tree → Except StructureFault String
  | .scalar (.text s) => .ok s
  | key => .error (.keyNotText key)

/-- Refuses the first key that is no text. -/
def checkKeys (entries : List (Tree × Tree)) : Except StructureFault Unit :=
  entries.forM fun (k, _) ↦ discard k.keyText

mutual

/-- What storing the value would make. The keys of a mapping are looked at before its values. -/
def blueprint : Tree → Except StructureFault Blueprint
  | .scalar s => .ok (.scalar s)
  | .seq _ items => return .list (← blueprintItems items)
  | .set items => .ok (.set items)
  | .mapping entries => do
    checkKeys entries
    return .node (Entries.ofPairs (← blueprintEntries entries))
  | .node _ _ entries => return .node (← blueprintFields entries)
  | .deferred id => .ok (.deferred id)
termination_by structural x => x

private def blueprintItems : List Tree → Except StructureFault (List Blueprint)
  | [] => .ok []
  | t :: rest => return (← blueprint t) :: (← blueprintItems rest)
termination_by structural x => x

private def blueprintEntries : List (Tree × Tree) → Except StructureFault (Entries Blueprint)
  | [] => .ok []
  | (k, v) :: rest => return (← k.keyText, ← blueprint v) :: (← blueprintEntries rest)
termination_by structural x => x

private def blueprintFields : List (String × Tree) → Except StructureFault (Entries Blueprint)
  | [] => .ok []
  | (k, v) :: rest => return (k, ← blueprint v) :: (← blueprintFields rest)
termination_by structural x => x

end

private theorem blueprintItems_eq (items : List Tree) :
    blueprintItems items = items.mapM blueprint := by
  induction items with
  | nil => rfl
  | cons t rest ih => rw [blueprintItems, ih, List.mapM_cons]

private theorem blueprintEntries_eq (entries : List (Tree × Tree)) :
    blueprintEntries entries
      = entries.mapM fun e ↦ return (← e.1.keyText, ← e.2.blueprint) := by
  induction entries with
  | nil => rfl
  | cons e rest ih =>
    rw [blueprintEntries, ih, List.mapM_cons]
    simp only [bind_assoc, pure_bind]

private theorem blueprintFields_eq (fields : List (String × Tree)) :
    blueprintFields fields = fields.mapM fun e ↦ return (e.1, ← e.2.blueprint) := by
  induction fields with
  | nil => rfl
  | cons e rest ih =>
    rw [blueprintFields, ih, List.mapM_cons]
    simp only [bind_assoc, pure_bind]

theorem blueprint_seq (kind : SeqKind) (items : List Tree) :
    blueprint (.seq kind items) = return .list (← items.mapM blueprint) := by
  rw [blueprint, blueprintItems_eq]

theorem blueprint_mapping (entries : List (Tree × Tree)) :
    blueprint (.mapping entries) = do
      checkKeys entries
      return .node (Entries.ofPairs
        (← entries.mapM fun e ↦ return (← e.1.keyText, ← e.2.blueprint))) := by
  rw [blueprint, blueprintEntries_eq]

theorem blueprint_node (id : NodeId) (frozen : Bool) (fields : List (String × Tree)) :
    blueprint (.node id frozen fields)
      = return .node (← fields.mapM fun e ↦ return (e.1, ← e.2.blueprint)) := by
  rw [blueprint, blueprintFields_eq]

/-- What making a node of the value would make. Only a mapping, a node or nothing at all can be
made a node. -/
def nodeBlueprint : Tree → Except StructureFault Blueprint
  | .scalar .null => .ok (.node [])
  | .mapping entries => blueprint (.mapping entries)
  | .node n frozen entries => blueprint (.node n frozen entries)
  | other => .error (.notMapping other)

end Tree

namespace Forest

mutual

/-- Makes what a blueprint describes. A node is made before what it holds. -/
def place (f : Forest) : Blueprint → Value × Forest
  | .scalar s => (.scalar s, f)
  | .set items => (.set items, f)
  | .deferred id => (.deferred id, f)
  | .list items =>
    let (values, f) := placeItems f items
    (.list values, f)
  | .node entries =>
    let (n, f) := f.grow ⟨[], false⟩
    let (values, f) := placeFields f entries
    (.node n, f.update n fun c ↦ { c with entries := values })
termination_by structural x => x

/-- Makes what blueprints describe, one after the other. -/
def placeItems (f : Forest) : List Blueprint → List Value × Forest
  | [] => ([], f)
  | b :: rest =>
    let (v, f) := place f b
    let (values, f) := placeItems f rest
    (v :: values, f)
termination_by structural x => x

/-- Makes what the blueprints under some keys describe, one after the other. -/
def placeFields (f : Forest) : List (String × Blueprint) → Entries Value × Forest
  | [] => ([], f)
  | (k, b) :: rest =>
    let (v, f) := place f b
    let (values, f) := placeFields f rest
    ((k, v) :: values, f)
termination_by structural x => x

end

/-- Makes a copy of the value that can be stored. -/
def convert (v : Value) : ForestM Value := do
  match ((← get).view v).blueprint with
  | .error fault => throw (.invalidStructure fault)
  | .ok plan => modifyGet fun f ↦ f.place plan

/-- Makes a node of a mapping, of another node's contents, or an empty one of nothing. -/
def create (v : Value) : ForestM NodeId := do
  match ((← get).view v).nodeBlueprint with
  | .error fault => throw (.invalidStructure fault)
  | .ok plan =>
    match ← modifyGet fun f ↦ f.place plan with
    | .node n => return n
    | _ => modifyGet fun f ↦ f.grow ⟨[], false⟩

/-! ## Writing -/

/-- Converts the value and stores it under the key. -/
def write (n : NodeId) (key : String) (value : Value) : ForestM Unit := do
  let stored ← convert value
  modify fun f ↦ f.store n key stored

/-- Writes under the key unless the node is frozen. -/
def assign (n : NodeId) (key : String) (value : Value) : ForestM Unit := do
  if (← get).frozen n then throw (.readOnlyNode (.scalar (.text key)))
  write n key value

/-- Merges a value into what a node holds under a key. Where both sides hold a node, `sub` merges
them; nothing never replaces a node; otherwise the incoming value replaces what is there. -/
def mergeEntry (sub : NodeId → NodeId → ForestM Unit) (n : NodeId) (key : String)
    (incoming : Value) : ForestM Unit := do
  match (← get).find? n key, incoming with
  | some (.node existing), .node other => sub existing other
  | some (.node _), .null => pure ()
  | _, _ => write n key incoming

/-- Merges the given entries into a node, one after the other. -/
def mergeEntries (sub : NodeId → NodeId → ForestM Unit) (n : NodeId) :
    Entries Value → ForestM Unit
  | [] => pure ()
  | (key, incoming) :: rest => do
    mergeEntry sub n key incoming
    mergeEntries sub n rest

/-- Merges one node into another, down to the given number of levels. -/
def mergeLevels : (levels : Nat) → (n other : NodeId) → ForestM Unit
  | 0, _, _ => pure ()
  | levels + 1, n, other => do
    let f ← get
    if f.frozen n then throw (.readOnlyNode (.scalar .null))
    mergeEntries (mergeLevels levels) n (f.entries other)

/-- Merges a node into another. A path through the receiver is no longer than the forest has
nodes. -/
def merge (n other : NodeId) : ForestM Unit := do
  mergeLevels (← get).cells.size n other

/-- Merges a value into a node: a node, a mapping, or nothing, which changes nothing. -/
def mergeValue (n : NodeId) (v : Value) : ForestM Unit := do
  if (← get).frozen n then throw (.readOnlyNode (.scalar .null))
  match v with
  | .null => pure ()
  | .node other => merge n other
  | v => merge n (← create v)

end Forest

/-! ## Freezing -/

mutual

/-- The value with its lists turned into tuples, at every depth outside of nodes. -/
def Value.fixed : Value → Value
  | .seq _ items => .seq .tuple (fixedItems items)
  | v => v
termination_by structural x => x

private def fixedItems : List Value → List Value
  | [] => []
  | v :: rest => Value.fixed v :: fixedItems rest
termination_by structural x => x

end

private theorem fixedItems_eq (items : List Value) : fixedItems items = items.map Value.fixed := by
  induction items with
  | nil => rfl
  | cons v rest ih => rw [fixedItems, ih, List.map_cons]

@[simp] theorem Value.fixed_seq (kind : SeqKind) (items : List Value) :
    fixed (.seq kind items) = .seq .tuple (items.map fixed) :=
  congrArg (Value.seq .tuple) (fixedItems_eq items)

/-- The cell closed to writing, its lists turned into tuples. -/
def Cell.sealed (c : Cell) : Cell := ⟨c.entries.mapValues Value.fixed, true⟩

namespace Forest

/-- Closes a node and all nodes below it to writing. -/
def freeze (f : Forest) (n : NodeId) : Forest :=
  (f.view (.node n)).nodes.foldl (fun f m ↦ f.update m Cell.sealed) f

end Forest

end LayeredConfig
