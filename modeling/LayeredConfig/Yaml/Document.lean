import LayeredConfig.Calendar.Date
import LayeredConfig.Number.Numeral
import LayeredConfig.Text.Base64
import LayeredConfig.Text.CaseMap
import LayeredConfig.Yaml.Node

/-!
# Values of a YAML document

How the nodes of a document become values. A scalar is read according to its type, a merge key
brings in the pairs of other mappings in front of a mapping's own, and a later pair with an equal
key replaces the value of an earlier one.

## Which fault comes first

A document can have several faults. Collections are filled level by level, the root first, and a
scalar is read when the collection that holds it is filled; `Node.fault?` looks for faults in that
order, and `Node.toValue` builds the value once there are none.
-/

namespace LayeredConfig

namespace Yaml

/-- Why a document has no value. -/
inductive BuildFault where
  | document (fault : Fault)
  /-- A node contains itself. -/
  | endless
deriving DecidableEq, Repr, Inhabited

private def unreadable {α : Type} : Except BuildFault α := .error (.document .malformed)

private def unusable {α : Type} (fault : DocumentFault) : Except BuildFault α :=
  .error (.document (.value fault))

/-- The value, or the fault. -/
private def orFault {α : Type} (fault : DocumentFault) : Option α → Except BuildFault α
  | some a => .ok a
  | none => unusable fault

namespace Node

/-- Whether the node has the given type. -/
def hasTag (t : Tag) : Node → Bool
  | .scalar tag _ => tag == t
  | .sequence tag _ => tag == t
  | .mapping tag _ => tag == t
  | .loop => false

mutual

/-- The text of a scalar. A mapping with a default key stands for the scalar under it. -/
def scalarText : Node → Except BuildFault String
  | .scalar _ text => .ok text
  | .sequence .. => unreadable
  | .mapping _ pairs => defaultText pairs
  | .loop => .error .endless
termination_by structural x => x

private def defaultText : List (Node × Node) → Except BuildFault String
  | [] => unreadable
  | (key, value) :: rest => if key.hasTag .value then scalarText value else defaultText rest
termination_by structural x => x

end

end Node

/-! ## Scalars -/

/-- The sign of a number and the text behind it; the text is not empty. -/
private def signed (cs : List Char) : Except BuildFault (Bool × List Char) :=
  match cs with
  | [] => unusable .emptyNumber
  | '-' :: rest => .ok (true, rest)
  | '+' :: rest => .ok (false, rest)
  | cs => .ok (false, cs)

/-- The pieces of a text between colons. -/
private def colonPieces (cs : List Char) : List (List Char) :=
  ((String.ofList cs).splitOn ":").map String.toList

/-- The integer that a text denotes. -/
def readInt (text : String) : Except BuildFault Int := do
  let (negative, cs) ← signed (text.toList.filter (· != '_'))
  let numeral := fun base cs ↦ orFault .valueOutOfRange (Numeral.int? base cs)
  let n ← match cs with
    | [] => unusable .emptyNumber
    | ['0'] => .ok 0
    | '0' :: 'b' :: rest => numeral 2 rest
    | '0' :: 'x' :: rest => numeral 16 rest
    | '0' :: rest => numeral 8 ('0' :: rest)
    | cs =>
      if cs.contains ':' then do
        let pieces ← (colonPieces cs).mapM (numeral 10)
        .ok (pieces.foldl (fun n d ↦ 60 * n + d) 0)
      else numeral 10 cs
  return if negative then -n else n

/-- The sum of numbers in sixties, the last one counting once; each product and sum is rounded. -/
private def sixtieths (numbers : List Binary64) : Binary64 :=
  (numbers.reverse.foldl (fun (total, base) x ↦
    (total.add (x.mul (.ofInt base)), base * 60)) (Binary64.zero false, (1 : Int))).1

/-- The floating-point number that a text denotes. -/
def readFloat (text : String) : Except BuildFault Binary64 := do
  let (negative, cs) ← signed (lowerCase (String.ofList (text.toList.filter (· != '_')))).toList
  let numeral := fun cs ↦ orFault .valueOutOfRange (Numeral.float? cs)
  if cs == ".nan".toList then return .nan 0
  let x ←
    if cs == ".inf".toList then pure (.infinite false)
    else if cs.contains ':' then sixtieths <$> (colonPieces cs).mapM numeral
    else numeral cs
  return if negative then x.neg else x

/-- The truth values by name. -/
def truthNames : List (String × Bool) := [
  ("yes", true), ("no", false), ("true", true), ("false", false), ("on", true), ("off", false)]

/-- The number that ASCII digits denote. -/
private def digitsValue (cs : List Char) : Nat :=
  cs.foldl (fun n c ↦ 10 * n + (c.toNat - 48)) 0

/-- The distance from universal time that a timestamp names, in seconds. -/
private def zoneOffset : Option (Bool × List Char × List Char) → Int
  | none => 0
  | some (negative, hours, minutes) =>
    let seconds : Int := digitsValue hours * 3600 + digitsValue minutes * 60
    if negative then -seconds else seconds

/-- The date or time that a text denotes. -/
def readTimestamp (text : String) : Except BuildFault Scalar := do
  match TimestampFields.ofText? text.toList with
  | none => unusable .malformedTimestamp
  | some t =>
    let date := Date.of? (digitsValue t.year) (digitsValue t.month) (digitsValue t.day)
    match t.clock with
    | none => .date <$> orFault .valueOutOfRange date
    | some (hour, minute, second, fraction) =>
      let microsecond := digitsValue ((fraction ++ List.replicate 6 '0').take 6)
      let offset := t.zone.map zoneOffset
      orFault .valueOutOfRange do
        let time ← DateTime.of? (← date) (digitsValue hour) (digitsValue minute)
          (digitsValue second) microsecond offset
        return .time time

/-- The bytes that a text denotes in base64. -/
def readBinary (text : String) : Except BuildFault (List UInt8) :=
  if text.toList.all fun c ↦ c.toNat < 0x80 then
    match Base64.decodeLenient? text.toList with
    | some bytes => .ok bytes
    | none => unreadable
  else unreadable

/-- What a text stands for as a scalar of the given type. -/
def readScalar (tag : Tag) (text : String) : Except BuildFault Scalar :=
  match tag with
  | .null => .ok .null
  | .bool =>
    match truthNames.lookup (lowerCase text) with
    | some b => .ok (.bool b)
    | none => unusable .unknownTruthValue
  | .int => .int <$> readInt text
  | .float => .float <$> readFloat text
  | .binary => .bytes <$> readBinary text
  | .timestamp => readTimestamp text
  | .str => .ok (.text text)
  | _ => unreadable

/-- Whether nodes of the type are collections. -/
def Tag.isCollection : Tag → Bool
  | .seq => true
  | .map => true
  | .set => true
  | .omap => true
  | .pairs => true
  | _ => false

namespace Node

/-- The type of a node; a loop counts as a mapping. -/
def tag : Node → Tag
  | .scalar tag _ => tag
  | .sequence tag _ => tag
  | .mapping tag _ => tag
  | .loop => .map

/-! ## Merging -/

mutual

/-- The pairs of a mapping: those that its merge keys bring in, and its own. A default key counts
as a text. -/
def flatten : List (Node × Node) → Except BuildFault (List (Node × Node) × List (Node × Node))
  | [] => .ok ([], [])
  | (key, value) :: rest => do
    if key.hasTag .merge then
      let here ← mergeSource value
      let (merged, own) ← flatten rest
      return (here ++ merged, own)
    else
      let key := match key with
        | .scalar .value text => .scalar .str text
        | key => key
      let (merged, own) ← flatten rest
      return (merged, (key, value) :: own)
termination_by structural x => x

/-- The pairs that a merge key brings in: those of a mapping, or of several, the first of which
comes last. -/
private def mergeSource : Node → Except BuildFault (List (Node × Node))
  | .scalar .. => unreadable
  | .mapping _ pairs => do
    let (merged, own) ← flatten pairs
    return merged ++ own
  | .sequence _ items => mergeItems items
  | .loop => .error .endless
termination_by structural x => x

private def mergeItems : List Node → Except BuildFault (List (Node × Node))
  | [] => .ok []
  | item :: rest => do
    let here ← mergeMapping item
    return (← mergeItems rest) ++ here
termination_by structural x => x

private def mergeMapping : Node → Except BuildFault (List (Node × Node))
  | .mapping _ pairs => do
    let (merged, own) ← flatten pairs
    return merged ++ own
  | .loop => .error .endless
  | _ => unreadable
termination_by structural x => x

end

/-- The pairs of a mapping in the order in which they are read. -/
def allPairs (pairs : List (Node × Node)) : Except BuildFault (List (Node × Node)) := do
  let (merged, own) ← flatten pairs
  return merged ++ own

mutual

/-- The number of nodes around the innermost one. -/
def height : Node → Nat
  | .scalar .. => 1
  | .sequence _ items => heightItems items + 1
  | .mapping _ pairs => heightPairs pairs + 1
  | .loop => 1
termination_by structural x => x

private def heightItems : List Node → Nat
  | [] => 0
  | n :: rest => max n.height (heightItems rest)
termination_by structural x => x

private def heightPairs : List (Node × Node) → Nat
  | [] => 0
  | (k, v) :: rest => max (max k.height v.height) (heightPairs rest)
termination_by structural x => x

end

/-! ## Faults -/

/-- What the parts of a node are when it is filled. -/
inductive Parts where
  | items (nodes : List Node)
  /-- Pairs whose keys are keys of a mapping or a set. -/
  | keyed (pairs : List (Node × Node))
  /-- Mappings of one pair each, which make a list of pairs. -/
  | singles (nodes : List Node)

/-- The only pair of a mapping. -/
private def singlePair : Node → Except BuildFault (Node × Node)
  | .mapping _ [pair] => .ok pair
  | .loop => .error .endless
  | _ => unreadable

/-- The parts of a collection, whose shape has to fit its type. -/
def parts (n : Node) : Except BuildFault Parts :=
  match n.tag, n with
  | .seq, .sequence _ items => .ok (.items items)
  | .map, .mapping _ pairs => .keyed <$> allPairs pairs
  | .set, .mapping _ pairs => .keyed <$> allPairs pairs
  | .omap, .sequence _ items => .ok (.singles items)
  | .pairs, .sequence _ items => .ok (.singles items)
  | _, _ => unreadable

/-- Looks at a node where it stands: a scalar is read, a collection is put off. -/
def glance (n : Node) : Except BuildFault (List Node) :=
  match n with
  | .loop => .ok []
  | n =>
    if n.tag.isCollection then .ok [n] else do
      discard (readScalar n.tag (← n.scalarText))
      return []

/-- Looks at a key, which may not be a collection. -/
private def glanceKey (n : Node) : Except BuildFault Unit := do
  match n with
  | .loop => unreadable
  | n => if n.tag.isCollection then unreadable else discard n.glance

/-- Looks at the parts of a collection, and gives the collections among them. -/
def glanceParts (n : Node) : Except BuildFault (List Node) := do
  match ← n.parts with
  | .items nodes => return (← nodes.mapM glance).flatten
  | .keyed pairs =>
    return (← pairs.mapM fun (k, v) ↦ do
      glanceKey k
      v.glance).flatten
  | .singles nodes =>
    return (← nodes.mapM fun n ↦ do
      let (k, v) ← singlePair n
      return (← k.glance) ++ (← v.glance)).flatten

/-- The first fault in the collections and below them, level by level. -/
def firstFault : (levels : Nat) → List Node → Except BuildFault Unit
  | 0, _ => .ok ()
  | _, [] => .ok ()
  | levels + 1, nodes => do firstFault levels (← nodes.mapM glanceParts).flatten

/-! ## Values -/

/-- The value of a node that has the given height at most. -/
def build : (height : Nat) → Node → Except BuildFault Value
  | 0, _ => .error .endless
  | _, .loop => .error .endless
  | height + 1, n => do
    if !n.tag.isCollection then return .scalar (← readScalar n.tag (← n.scalarText))
    match ← n.parts with
    | .items nodes => return .list (← nodes.mapM (build height))
    | .keyed pairs =>
      let pairs ← pairs.mapM fun (k, v) ↦ return (← build height k, ← build height v)
      match n.tag, Value.mappingOf pairs with
      | .set, .mapping entries => return .set (entries.filterMap fun (k, _) ↦
          match k with
          | .scalar s => some s
          | _ => none)
      | _, v => return v
    | .singles nodes =>
      return .list (← nodes.mapM fun n ↦ do
        let (k, v) ← singlePair n
        return .tuple [← build height k, ← build height v])

/-- The value of a node. -/
def toValue (n : Node) : Except BuildFault Value := do
  firstFault (n.height + 1) (← n.glance)
  build (n.height + 1) n

end Node

/-- The value of the document that a text holds; nothing if it holds none. -/
def load (text : String) : Except BuildFault Value :=
  match Node.ofText text.toList with
  | .error fault => .error (.document fault)
  | .ok none => .ok .null
  | .ok (some n) => n.toValue

end Yaml

end LayeredConfig
