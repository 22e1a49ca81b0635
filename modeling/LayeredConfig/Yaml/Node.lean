import LayeredConfig.Yaml.Schema
import LayeredConfig.Yaml.Token

/-!
# Nodes of a YAML document

What a document says once its layout is gone: a tree of scalars, sequences and mappings, each with
its type. An alias stands for the node with its anchor and is replaced by it; an alias inside the
node that it stands for cannot be, and is kept as `loop`.

A text holds at most one document. Nodes are read from tokens by recursive descent, one function
per kind of collection. Each call reads a token before it goes down again, so the number of tokens
bounds the depth.
-/

namespace LayeredConfig

namespace Yaml

/-- A node of a document. -/
inductive Node where
  | scalar (tag : Tag) (text : String)
  | sequence (tag : Tag) (items : List Node)
  | mapping (tag : Tag) (pairs : List (Node × Node))
  /-- An alias to a node that contains it. -/
  | loop
deriving Repr, Inhabited

namespace Node

/-- What is left to read, and what was declared so far. -/
structure Source where
  tokens : List Token
  /-- The fault behind the last token. -/
  ending : Fault
  /-- The anchored nodes, nothing for one that is still being read. -/
  anchors : List (String × Option Node)
  /-- What the handles of tags stand for. -/
  handles : List (String × String)

/-- A step of reading nodes. -/
abbrev ReadM := StateT Source (Except Fault)

/-- The next token. -/
def peek : ReadM Token := do
  let s ← get
  match s.tokens with
  | t :: _ => return t
  | [] => throw s.ending

/-- Goes behind the next token. -/
def skip : ReadM Unit := modify fun s ↦ { s with tokens := s.tokens.drop 1 }

private def malformed {α : Type} : ReadM α := throw .malformed

/-- The node that stands where none is written. -/
def blank : Node := .scalar .null ""

/-- The handles that every document knows. -/
def standardHandles : List (String × String) := [("!", "!"), ("!!", standardPrefix)]

/-- What is written in front of a node. -/
structure Properties where
  anchor : Option String
  /-- The full name of the tag. -/
  tag : Option String

/-- The full name of a tag. -/
def resolveTag (handle : Option String) (suffix : String) : ReadM String := do
  match handle with
  | none => return suffix
  | some handle =>
    match (← get).handles.lookup handle with
    | some start => return start ++ suffix
    | none => malformed

/-- The anchor and the tag in front of a node, in either order. -/
def properties : ReadM Properties := do
  match ← peek with
  | .anchor name =>
    skip
    match ← peek with
    | .tag handle suffix =>
      skip
      return ⟨some name, some (← resolveTag handle suffix)⟩
    | _ => return ⟨some name, none⟩
  | .tag handle suffix =>
    skip
    match ← peek with
    | .anchor name =>
      skip
      return ⟨some name, some (← resolveTag handle suffix)⟩
    | _ => return ⟨none, some (← resolveTag handle suffix)⟩
  | _ => return ⟨none, none⟩

/-- The type of a scalar: as it is tagged, or by its spelling if it is plain or its tag is `!`. -/
def scalarTag (tag : Option String) (plain : Bool) (text : String) : Tag :=
  match tag with
  | none => if plain then implicitTag text else .str
  | some "!" => implicitTag text
  | some name => Tag.ofName name

/-- The type of a collection: as it is tagged, or the usual one. -/
def collectionTag (tag : Option String) (usual : Tag) : Tag :=
  match tag with
  | none => usual
  | some "!" => usual
  | some name => Tag.ofName name

/-- Declares an anchor; none is declared twice. -/
def declare (anchor : Option String) : ReadM Unit := do
  match anchor with
  | none => pure ()
  | some name =>
    if (← get).anchors.any (·.1 == name) then malformed
    modify fun s ↦ { s with anchors := (name, none) :: s.anchors }

/-- Completes the node of an anchor. -/
def complete (anchor : Option String) (n : Node) : ReadM Node := do
  match anchor with
  | none => return n
  | some name =>
    modify fun s ↦ { s with anchors := (name, some n) :: s.anchors }
    return n

/-- The node that an alias stands for. -/
def ofAlias (name : String) : ReadM Node := do
  match (← get).anchors.lookup name with
  | some (some n) => return n
  | some none => return .loop
  | none => malformed

/-- Where a node is read: which block collections may start there. -/
inductive Place where
  | flow
  | block
  /-- A block in which a sequence need not be indented. -/
  | blockOrSequence
deriving DecidableEq, Repr, Inhabited

mutual

/-- A node. -/
def read (place : Place) : (depth : Nat) → ReadM Node
  | 0 => malformed
  | depth + 1 => do
    if let .alias name ← peek then
      skip
      return ← ofAlias name
    let p ← properties
    let block := place != .flow
    match ← peek with
    | .blockEntry =>
      if place == .blockOrSequence then
        declare p.anchor
        let items ← readIndentless depth
        complete p.anchor (.sequence (collectionTag p.tag .seq) items)
      else readEmpty p
    | .scalar text plain =>
      declare p.anchor
      skip
      complete p.anchor (.scalar (scalarTag p.tag plain text) text)
    | .flowSequenceStart =>
      declare p.anchor
      skip
      let items ← readFlowItems true depth
      complete p.anchor (.sequence (collectionTag p.tag .seq) items)
    | .flowMappingStart =>
      declare p.anchor
      skip
      let pairs ← readFlowPairs true depth
      complete p.anchor (.mapping (collectionTag p.tag .map) pairs)
    | .blockSequenceStart =>
      if block then
        declare p.anchor
        skip
        let items ← readBlockItems depth
        complete p.anchor (.sequence (collectionTag p.tag .seq) items)
      else readEmpty p
    | .blockMappingStart =>
      if block then
        declare p.anchor
        skip
        let pairs ← readBlockPairs depth
        complete p.anchor (.mapping (collectionTag p.tag .map) pairs)
      else readEmpty p
    | _ => readEmpty p

/-- A node of which only the properties are written. -/
private def readEmpty (p : Properties) : ReadM Node := do
  if p.anchor.isNone && p.tag.isNone then malformed
  declare p.anchor
  complete p.anchor (.scalar (scalarTag p.tag true "") "")

/-- A node, or the blank one in front of a token that ends it. -/
private def readUnless (ends : Token → Bool) (place : Place) : (depth : Nat) → ReadM Node
  | 0 => malformed
  | depth + 1 => do if ends (← peek) then return blank else read place depth

/-- The items of a block sequence. -/
private def readBlockItems : (depth : Nat) → ReadM (List Node)
  | 0 => malformed
  | depth + 1 => do
    match ← peek with
    | .blockEntry =>
      skip
      let item ← readUnless (fun t ↦ t == .blockEntry || t == .blockEnd) .block depth
      return item :: (← readBlockItems depth)
    | .blockEnd =>
      skip
      return []
    | _ => malformed

/-- The items of a sequence that is not indented. -/
private def readIndentless : (depth : Nat) → ReadM (List Node)
  | 0 => malformed
  | depth + 1 => do
    match ← peek with
    | .blockEntry =>
      skip
      let item ← readUnless
        (fun t ↦ t == .blockEntry || t == .key || t == .value || t == .blockEnd) .block depth
      return item :: (← readIndentless depth)
    | _ => return []

/-- The pairs of a block mapping. -/
private def readBlockPairs : (depth : Nat) → ReadM (List (Node × Node))
  | 0 => malformed
  | depth + 1 => do
    let ends := fun t ↦ t == .key || t == .value || t == .blockEnd
    match ← peek with
    | .key =>
      skip
      let key ← readUnless ends .blockOrSequence depth
      let value ← readValue ends .blockOrSequence depth
      return (key, value) :: (← readBlockPairs depth)
    | .blockEnd =>
      skip
      return []
    | _ => malformed

/-- The value behind a key, blank if there is none. -/
private def readValue (ends : Token → Bool) (place : Place) : (depth : Nat) → ReadM Node
  | 0 => malformed
  | depth + 1 => do
    match ← peek with
    | .value =>
      skip
      readUnless ends place depth
    | _ => return blank

/-- The items of a flow sequence; a key among them makes a mapping of one pair. -/
private def readFlowItems (first : Bool) : (depth : Nat) → ReadM (List Node)
  | 0 => malformed
  | depth + 1 => do
    if (← peek) == .flowSequenceEnd then
      skip
      return []
    if !first then
      if (← peek) == .flowEntry then skip else malformed
    match ← peek with
    | .key =>
      skip
      let key ← readUnless
        (fun t ↦ t == .value || t == .flowEntry || t == .flowSequenceEnd) .flow depth
      let value ← readValue (fun t ↦ t == .flowEntry || t == .flowSequenceEnd) .flow depth
      return .mapping .map [(key, value)] :: (← readFlowItems false depth)
    | .flowSequenceEnd =>
      skip
      return []
    | _ =>
      let item ← read .flow depth
      return item :: (← readFlowItems false depth)

/-- The pairs of a flow mapping; a node without a key mark has a blank value. -/
private def readFlowPairs (first : Bool) : (depth : Nat) → ReadM (List (Node × Node))
  | 0 => malformed
  | depth + 1 => do
    if (← peek) == .flowMappingEnd then
      skip
      return []
    if !first then
      if (← peek) == .flowEntry then skip else malformed
    match ← peek with
    | .key =>
      skip
      let key ← readUnless
        (fun t ↦ t == .value || t == .flowEntry || t == .flowMappingEnd) .flow depth
      let value ← readValue (fun t ↦ t == .flowEntry || t == .flowMappingEnd) .flow depth
      return (key, value) :: (← readFlowPairs false depth)
    | .flowMappingEnd =>
      skip
      return []
    | _ =>
      let key ← read .flow depth
      return (key, blank) :: (← readFlowPairs false depth)

end

/-! ## Documents -/

/-- The directives in front of a document. A handle is declared once, and the version is one of
the first. -/
def readDirectives (version : Bool) (declared : List (String × String)) :
    (steps : Nat) → ReadM (List (String × String))
  | 0 => malformed
  | steps + 1 => do
    match ← peek with
    | .directive d =>
      skip
      match d with
      | .version major =>
        if version || major != 1 then malformed
        readDirectives true declared steps
      | .tagHandle handle resolved =>
        if declared.any (·.1 == handle) then malformed
        readDirectives version ((handle, resolved) :: declared) steps
      | .other => readDirectives version declared steps
    | _ => return declared

/-- Goes behind the marks that end documents. -/
def skipEnds : (steps : Nat) → ReadM Unit
  | 0 => pure ()
  | steps + 1 => do
    if (← peek) == .documentEnd then
      skip
      skipEnds steps

/-- The root of a document whose start is written. -/
def readExplicit (depth : Nat) : ReadM Node := do
  let declared ← readDirectives false [] depth
  modify fun s ↦ { s with handles := declared ++ standardHandles }
  if (← peek) != .documentStart then malformed
  skip
  readUnless
    (fun t ↦ match t with
      | .directive _ => true
      | .documentStart => true
      | .documentEnd => true
      | .streamEnd => true
      | _ => false)
    .block depth

/-- The root of the only document, if there is one. -/
def readDocument (depth : Nat) : ReadM (Option Node) := do
  skip
  let explicit := match ← peek with
    | .directive _ => true
    | .documentStart => true
    | _ => false
  if (← peek) == .streamEnd then return none
  let root ← if explicit then readExplicit depth else read .block depth
  discard peek
  skipEnds depth
  if (← peek) != .streamEnd then malformed
  return some root

/-- The root of the document that a text holds. -/
def ofText (cs : List Char) : Except Fault (Option Node) :=
  let (tokens, fault) := tokens cs
  match tokens with
  | [] => .error (fault.getD .malformed)
  | tokens =>
    (readDocument (3 * tokens.length + 3)).run'
      ⟨tokens, fault.getD .malformed, [], standardHandles⟩

end Node

end Yaml

end LayeredConfig
