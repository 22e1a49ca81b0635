import LayeredConfig.Calendar.Date
import LayeredConfig.Number.Shortest
import LayeredConfig.Text.Quoted

/-!
# Values

What a configuration holds and what its operations take and give. Scalars stand for themselves.
Nodes and deferred computations have an identity and are referred to by it: what a node holds is
kept in a forest (`LayeredConfig.Forest`), what a computation does in a memory
(`LayeredConfig.Memory`).

## Numbers

Booleans, integers and floating-point numbers compare by the number they stand for, so `true`,
`1` and `1.0` are equal. They remain values of different kinds, which `Scalar.kindName` tells
apart.
-/

namespace LayeredConfig

/-- The identity of a node. -/
structure NodeId where
  index : Nat
deriving DecidableEq, Repr, Inhabited

/-- The identity of a deferred computation. -/
structure DeferredId where
  index : Nat
deriving DecidableEq, Repr, Inhabited

/-- A value without parts. -/
inductive Scalar where
  | null
  | bool (b : Bool)
  | int (n : Int)
  | float (x : Binary64)
  | text (s : String)
  | bytes (bs : List UInt8)
  | date (d : Date)
  | time (t : DateTime)
deriving DecidableEq, Repr, Inhabited

namespace Scalar

/-- The integer that a boolean or an integer stands for. -/
def asInt? : Scalar → Option Int
  | .bool b => some (if b then 1 else 0)
  | .int n => some n
  | _ => none

/-- Equality of what the scalars stand for. -/
def equal : Scalar → Scalar → Bool
  | .null, .null => true
  | .text a, .text b => a == b
  | .bytes a, .bytes b => a == b
  | .date a, .date b => a == b
  | .time a, .time b => a.equal b
  | .float x, .float y => x.equal y
  | .float x, b => (b.asInt?.map x.equalInt).getD false
  | a, .float y => (a.asInt?.map y.equalInt).getD false
  | a, b =>
    match a.asInt?, b.asInt? with
    | some m, some n => m == n
    | _, _ => false

/-- Equality as a collection tests it on its items: an item is always equal to itself, even a
NaN. -/
def sameOrEqual : Scalar → Scalar → Bool
  | .float (.nan a), .float (.nan b) => a == b
  | a, b => a.equal b

/-- Whether the scalar counts as set. -/
def truthy : Scalar → Bool
  | .null => false
  | .bool b => b
  | .int n => n != 0
  | .float x => !x.isZero
  | .text s => !s.isEmpty
  | .bytes bs => !bs.isEmpty
  | .date _ => true
  | .time _ => true

/-- The name of the scalar's kind. -/
def kindName : Scalar → String
  | .null => "NoneType"
  | .bool _ => "bool"
  | .int _ => "int"
  | .float _ => "float"
  | .text _ => "str"
  | .bytes _ => "bytes"
  | .date _ => "date"
  | .time _ => "datetime"

/-- The written form inside a message. -/
def quoted : Scalar → String
  | .null => "None"
  | .bool b => if b then "True" else "False"
  | .int n => toString n
  | .float x => x.toText
  | .text s => Quoted.text s
  | .bytes bs => Quoted.bytes bs
  | .date d => d.quoted
  | .time t => t.quoted

/-- The text that the scalar turns into. -/
def display : Scalar → String
  | .text s => s
  | .date d => d.isoText
  | .time t => t.isoText " "
  | s => s.quoted

theorem equal_comm (a b : Scalar) : a.equal b = b.equal a := by
  cases a <;> cases b <;>
    simp [equal, asInt?, Bool.beq_comm, Binary64.equal_comm, DateTime.equal]

end Scalar

/-- The two kinds of sequence: a list, and the tuple that freezing makes of it. -/
inductive SeqKind where
  | list
  | tuple
deriving DecidableEq, Repr, Inhabited

/-- A value of any kind. -/
inductive Value where
  | scalar (s : Scalar)
  | seq (kind : SeqKind) (items : List Value)
  | set (items : List Scalar)
  /-- A mapping that is not (yet) a node, with keys of any kind. -/
  | mapping (entries : List (Value × Value))
  | node (id : NodeId)
  | deferred (id : DeferredId)
deriving Repr, Inhabited

namespace Value

/-- Induction on a value through what stands inside it. -/
@[elab_as_elim, induction_eliminator]
theorem induction {motive : Value → Prop}
    (scalar : ∀ s, motive (.scalar s))
    (seq : ∀ kind items, (∀ v ∈ items, motive v) → motive (.seq kind items))
    (set : ∀ items, motive (.set items))
    (mapping : ∀ entries, (∀ e ∈ entries, motive e.1 ∧ motive e.2) → motive (.mapping entries))
    (node : ∀ id, motive (.node id))
    (deferred : ∀ id, motive (.deferred id)) (v : Value) : motive v :=
  @Value.rec motive (fun items ↦ ∀ v ∈ items, motive v)
    (fun entries ↦ ∀ e ∈ entries, motive e.1 ∧ motive e.2) (fun e ↦ motive e.1 ∧ motive e.2)
    scalar seq set mapping node deferred
    (fun _ h ↦ absurd h List.not_mem_nil)
    (fun _ _ hv hrest w hw ↦ (List.mem_cons.mp hw).elim (fun h ↦ h ▸ hv) (hrest w))
    (fun _ h ↦ absurd h List.not_mem_nil)
    (fun _ _ he hrest e h ↦ (List.mem_cons.mp h).elim (fun h ↦ h ▸ he) (hrest e))
    (fun _ _ hk hv ↦ ⟨hk, hv⟩) v

/-- The absent value. -/
@[match_pattern] abbrev null : Value := .scalar .null

/-- A truth value. -/
@[match_pattern] abbrev bool (b : Bool) : Value := .scalar (.bool b)

/-- An integer. -/
@[match_pattern] abbrev int (n : Int) : Value := .scalar (.int n)

/-- A text. -/
@[match_pattern] abbrev text (s : String) : Value := .scalar (.text s)

/-- A list. -/
@[match_pattern] abbrev list (items : List Value) : Value := .seq .list items

/-- A tuple. -/
@[match_pattern] abbrev tuple (items : List Value) : Value := .seq .tuple items

/-- The text of a text value. -/
def text? : Value → Option String
  | .text s => some s
  | _ => none

/-- The name of the value's kind. -/
def kindName : Value → String
  | .scalar s => s.kindName
  | .seq .list _ => "list"
  | .seq .tuple _ => "tuple"
  | .set _ => "set"
  | .mapping _ => "dict"
  | .node _ => "Node"
  | .deferred _ => "Deferred"

/-- The name of the value's kind, with the family that dates belong to. -/
def qualifiedKindName : Value → String
  | .scalar (.date _) => "datetime.date"
  | .scalar (.time _) => "datetime.datetime"
  | v => v.kindName

mutual

/-- The kind of the part, if any, that keeps a value from being a key: keys do not hold
collections that can change, and no nodes. -/
def unhashable? : Value → Option String
  | .scalar _ => none
  | .seq .list _ => some "list"
  | .seq .tuple items => unhashableItem? items
  | .set _ => some "set"
  | .mapping _ => some "dict"
  | .node _ => some "Node"
  | .deferred _ => none
termination_by structural x => x

private def unhashableItem? : List Value → Option String
  | [] => none
  | v :: rest => (unhashable? v).orElse fun _ ↦ unhashableItem? rest
termination_by structural x => x

end

mutual

/-- Equality of keys. Keys hold no nodes, so it needs no forest. -/
def keyEqual : Value → Value → Bool
  | .scalar a, .scalar b => a.sameOrEqual b
  | .seq j xs, .seq k ys => j == k && keysEqual xs ys
  | .deferred a, .deferred b => a == b
  | _, _ => false
termination_by structural x => x

private def keysEqual : List Value → List Value → Bool
  | [], [] => true
  | x :: xs, y :: ys => keyEqual x y && keysEqual xs ys
  | _, _ => false
termination_by structural x => x

end

/-- Puts an entry into a mapping: over the value of an equal key, or at the end. -/
def insertEntry (key value : Value) : List (Value × Value) → List (Value × Value)
  | [] => [(key, value)]
  | (k, v) :: rest =>
    if keyEqual k key then (k, value) :: rest else (k, v) :: insertEntry key value rest

/-- The value of a key of a mapping. -/
def lookupEntry? (key : Value) (entries : List (Value × Value)) : Option Value :=
  (entries.find? fun e ↦ keyEqual e.1 key).map (·.2)

/-- The mapping that a list of pairs describes; of equal keys the first gives the place and the
last the value. -/
def mappingOf (pairs : List (Value × Value)) : Value :=
  .mapping (pairs.foldl (fun entries (k, v) ↦ insertEntry k v entries) [])

end Value

end LayeredConfig
