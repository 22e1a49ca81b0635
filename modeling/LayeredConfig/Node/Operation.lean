import LayeredConfig.Event
import LayeredConfig.Forest

/-!
# Node operations and deferred computations

An operation on nodes can be written down (`Operation`), and a deferred computation is a program
of such operations (`Script`): it may read and write any node, look up a name that the caller
gave to an object, run another computation, leave an event, give a value or give up. Computations
keep no state of their own except the number of times they ran.
-/

namespace LayeredConfig

/-- An operation on nodes. -/
inductive Operation where
  | create (source : Value)
  | get (n : NodeId) (key : Value)
  | set (n : NodeId) (key value : Value)
  | hasKey (n : NodeId) (key : Value)
  | present (n : NodeId) (keys : List Value)
  | keys (n : NodeId)
  | items (n : NodeId)
  | merge (n : NodeId) (other : Value)
  | freeze (n : NodeId)
  | copy (n : NodeId)
  | export (n : NodeId)
  | equal (a b : Value)
  | call (d : DeferredId)
deriving Repr, Inhabited

/-- What a computation does. -/
inductive Script where
  | done (v : Value)
  | fail (f : Failure)
  | note (e : Event) (rest : Script)
  | named (name : String) (rest : Option Value → Script)
  | perform (op : Operation) (rest : Value → Script)

instance : Inhabited Script := ⟨.done .null⟩

/-- A deferred computation. -/
structure Computation where
  /-- The written form of the function behind it. -/
  shown : String
  /-- The label that the caller gave it. -/
  label : Option String
  /-- How often it ran. -/
  runs : Nat
  /-- What it does, given how often it ran before. -/
  body : Nat → Script

instance : Inhabited Computation := ⟨"", none, 0, fun _ ↦ default⟩

namespace Computation

private def labelled (label : String) (body : Nat → Script) : Computation :=
  { shown := "<fn " ++ label ++ ">"
    label := some label
    runs := 0
    body := fun runs ↦ .note (.evaluated label) (body runs) }

/-- Always gives the same value. -/
def constant (label : String) (v : Value) : Computation := labelled label fun _ ↦ .done v

/-- Gives 1, then 2, and so on. -/
def counting (label : String) : Computation :=
  labelled label fun runs ↦ .done (.int (runs + 1))

/-- Gives up. -/
def failing (label message : String) : Computation :=
  labelled label fun _ ↦ .fail (.computation message)

/-- Reads the key of the object with the given name and goes on with what it finds. -/
private def readNamed (name : String) (key : Value) (rest : Value → Script) : Script :=
  .named name fun
    | some (.node n) => .perform (.get n key) rest
    | some (.mapping entries) => rest ((Value.lookupEntry? key entries).getD .null)
    | some v => .fail (.missingAttribute v.kindName "get")
    | none => .fail (.missingItem (.scalar (.text name)))

/-- Reads a key of the named object. -/
def reading (label name : String) (key : Value) : Computation :=
  labelled label fun _ ↦ readNamed name key .done

/-- Compares what a key of the named object holds with a value. -/
def comparing (label name : String) (key value : Value) : Computation :=
  labelled label fun _ ↦ readNamed name key fun v ↦ .perform (.equal v value) .done

/-- Writes a key of the named node and gives the value. -/
def writing (label name : String) (key value : Value) : Computation :=
  labelled label fun _ ↦ .named name fun
    | some (.node n) => .perform (.set n key value) fun _ ↦ .done value
    | some v => .fail (.missingAttribute v.kindName "set")
    | none => .fail (.missingItem (.scalar (.text name)))

/-- Runs another computation, whose written form is given. -/
def wrapping (d : DeferredId) (shown : String) : Computation :=
  { shown := shown, label := none, runs := 0, body := fun _ ↦ .perform (.call d) .done }

/-- Whether the value of a key of the node, nothing if it is missing, equals the given one at the
time of reading. -/
def holds (n : NodeId) (key : String) (value : Value) : Computation :=
  { shown := "<predicate " ++ key ++ ">"
    label := none
    runs := 0
    body := fun _ ↦ .perform (.hasKey n (.text key)) fun
      | .bool true => .perform (.get n (.text key)) fun v ↦ .perform (.equal v value) .done
      | _ => .perform (.equal .null value) .done }

end Computation

/-! ## Memory -/

/-- All that operations on nodes read and change. -/
structure Memory where
  forest : Forest
  computations : Array Computation
  /-- The objects that computations find by name when they run. -/
  names : Entries Value
  /-- The events so far. -/
  trace : Array Event

instance : Inhabited Memory := ⟨⟨.empty, #[], [], #[]⟩⟩

/-- An evaluation that may fail; what was changed before it failed stays changed. -/
abbrev Eval := EStateM Failure Memory

namespace Memory

/-- The computation behind an identity. -/
def computation (m : Memory) (d : DeferredId) : Computation := m.computations[d.index]?.getD default

/-- The written form of a computation. -/
def nameOf (m : Memory) (d : DeferredId) : String := "Deferred(" ++ (m.computation d).shown ++ ")"

/-- Makes a computation. -/
def define (m : Memory) (c : Computation) : DeferredId × Memory :=
  (⟨m.computations.size⟩, { m with computations := m.computations.push c })

/-- Counts a run of a computation. -/
def countRun (m : Memory) (d : DeferredId) : Memory :=
  { m with computations := m.computations.modify d.index fun c ↦ { c with runs := c.runs + 1 } }

/-- Gives an object a name. -/
def bind (m : Memory) (name : String) (v : Value) : Memory :=
  { m with names := m.names.put name v }

/-- The snapshot of a value. -/
def view (m : Memory) (v : Value) : Tree := m.forest.view v

/-- The written form of a value. -/
def quoted (m : Memory) (v : Value) : String := (m.view v).quoted m.nameOf

/-- The text of a value. -/
def display (m : Memory) (v : Value) : String := (m.view v).display m.nameOf

end Memory

/-- Leaves an event. -/
def emit (e : Event) : Eval Unit := modify fun m ↦ { m with trace := m.trace.push e }

/-- Raises a configuration error. -/
def refuse {α : Type} (e : ConfigurationError) : Eval α := throw (.configuration e)

/-- A change of the forest as an evaluation. -/
def onForest {α : Type} (change : ForestM α) : Eval α := fun m ↦
  match change m.forest with
  | .ok a f => .ok a { m with forest := f }
  | .error e f => .error (.configuration e) { m with forest := f }

/-- The snapshot of a value in the current forest. -/
def snapshot (v : Value) : Eval Tree := return (← get).view v

end LayeredConfig
