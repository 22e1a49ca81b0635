import LayeredConfig.Template.Part

/-!
# Filling in a template

What the parts of a template come to, given what its names stand for. A name that stands for
nothing leaves nothing in the result, except as the parameter of a filter, where it is an error.
A relation whose sides cannot be compared does not hold, whatever goes wrong while it is looked
at.

Values that are no markup are escaped unless a tag switches escaping off.
-/

namespace LayeredConfig

namespace Template

/-- What the names of a template stand for at a place. -/
structure Bindings where
  /-- The bindings of the tags around the place, the innermost first. -/
  frames : List (Entries Datum)
  /-- What the template was given. -/
  given : List (Value × Value)
  /-- Whether values are escaped. -/
  escaping : Bool
deriving Inhabited

namespace Bindings

/-- The names that stand for a constant in every template. -/
def constants : Entries Datum :=
  [("True", .value (.bool true)), ("False", .value (.bool false)), ("None", .value .null)]

/-- What a name stands for. A given integer key counts as the name that spells it. -/
def find? (b : Bindings) (name : String) : Option Datum :=
  (b.frames.findSome? fun frame ↦ frame.find? name).orElse fun _ ↦
    ((Value.lookupEntry? (.text name) b.given).map Datum.value).orElse fun _ ↦
      (constants.find? name).orElse fun _ ↦
        ((Numeral.int? 10 name.toList).bind fun i ↦ Value.lookupEntry? (.int i) b.given).map .value

/-- Binds a name in the innermost frame. -/
def put (b : Bindings) (name : String) (d : Datum) : Bindings :=
  match b.frames with
  | frame :: rest => { b with frames := frame.put name d :: rest }
  | [] => { b with frames := [[(name, d)]] }

/-- The bindings inside a tag that makes its own. -/
def within (b : Bindings) (frame : Entries Datum) : Bindings :=
  { b with frames := frame :: b.frames }

end Bindings

/-- What an operand stands for. -/
def Operand.find? (b : Bindings) : Operand → Eval (Option Datum)
  | .markup s => return some (.markup s)
  | .number x => return some (.value (.scalar x))
  | .path [] => return none
  | .path (name :: rest) => do
    match b.find? name with
    | some d => (← d.settle).walk? rest
    | none => return none

/-- What a parameter stands for, which has to be something. -/
def Operand.require (b : Bindings) (o : Operand) : Eval Datum := do
  match ← o.find? b with
  | some d => return d
  | none => throw (.template .missingVariable)

/-! ## Filters -/

namespace Datum

/-- The integer that a datum stands for; a fraction is cut off. -/
def wholeNumber? : Datum → Eval (Option Int)
  | .markup s => return Numeral.int? 10 s.toList
  | .value v =>
    match v with
    | .text s => return Numeral.int? 10 s.toList
    | .scalar (.bytes bs) => return Numeral.int? 10 (bs.map fun b ↦ Char.ofNat b.toNat)
    | .scalar (.float (.infinite _)) => throw (.template .tooLarge)
    | .scalar (.float x) => return x.truncate?
    | .scalar s => return s.asInt?
    | _ => return none
  | .view .. => return none

private def isNumber : Datum → Bool
  | .value (.scalar (.float _)) => true
  | .value (.scalar s) => s.asInt?.isSome
  | _ => false

/-- Two data put together: texts, lists, tuples or bytes one behind the other. Two numbers of which
one stands for no integer make a NaN. Everything else leaves nothing. -/
def join (a b : Datum) : Datum :=
  match a, b with
  | .markup s, .markup t => .markup (s ++ t)
  | .value (.seq j xs), .value (.seq k ys) => if j = k then .value (.seq j (xs ++ ys)) else missing
  | .value (.scalar (.bytes xs)), .value (.scalar (.bytes ys)) =>
    .value (.scalar (.bytes (xs ++ ys)))
  | a, b =>
    match a.text?, b.text? with
    | some s, some t => .text (s ++ t)
    | _, _ => if a.isNumber && b.isNumber then .value (.scalar (.float (.nan 0))) else missing

/-- The sum of two integers, or the two data put together. -/
def sum (a b : Datum) : Eval Datum := do
  match ← a.wholeNumber? with
  | none => return a.join b
  | some m =>
    match ← b.wholeNumber? with
    | none => return a.join b
    | some n => return .value (.int (m + n))

/-- The number of elements; 0 for what has none. -/
def length (d : Datum) : Eval Nat := return ((← d.elements?).map List.length).getD 0

/-- The first element; nothing of an empty text or sequence. -/
def first : Datum → Eval Datum
  | .markup s => return .text (String.ofList (s.toList.take 1))
  | .text s => return .text (String.ofList (s.toList.take 1))
  | .value (.scalar (.bytes (b :: _))) => return .value (.int b.toNat)
  | .value (.scalar (.bytes [])) => return missing
  | .value (.seq _ (v :: _)) => return .value v
  | .value (.seq _ []) => return missing
  | .value (.mapping entries) =>
    match Value.lookupEntry? (.int 0) entries with
    | some v => return .value v
    | none => throw (.template .missingItem)
  | .value (.node n) => .value <$> Node.get n (.int 0)
  | _ => throw (.template .wrongKind)

end Datum

/-- Applies a filter. -/
def Filter.apply (b : Bindings) (d : Datum) : Filter → Eval Datum
  | .default fallback => do
    let other ← fallback.require b
    return if ← d.truthy then d else other
  | .defaultIfNull fallback => do
    let other ← fallback.require b
    return match d with
      | .value .null => other
      | d => d
  | .upper => return .text (upperCase (← d.display))
  | .lower =>
    match d with
    | .markup s => return .markup (lowerCase s)
    | d => return .text (lowerCase (← d.display))
  | .length => return .value (.int (← d.length))
  | .add summand => do d.sum (← summand.require b)
  | .escape =>
    match d with
    | .markup s => return .markup s
    | d => return .markup (escapeMarkup (← d.display))
  | .safe => return .markup (← d.display)
  | .first => d.first
  | .cut needle => do
    match (← needle.require b).text? with
    | none => throw (.template .wrongKind)
    | some s =>
      let text := String.ofList (replaceAll s.toList [] (← d.display).toList)
      return match d with
        | .markup _ => if s = ";" then .text text else .markup text
        | _ => .text text

/-- What an expression stands for; `none` if its operand stands for nothing and there are no
filters to say otherwise. -/
def Expression.find (b : Bindings) (fallback : Datum) (e : Expression) : Eval Datum := do
  e.filters.foldlM (Filter.apply b) ((← e.operand.find? b).getD fallback)

/-- What an expression stands for in the result. -/
def Expression.resolve (b : Bindings) (e : Expression) : Eval Datum := e.find b .missing

/-- What an expression stands for in a test or a loop. -/
def Expression.resolveOrNull (b : Bindings) (e : Expression) : Eval Datum := e.find b (.value .null)

/-! ## Tests -/

/-- Whether two data are one and the same thing. -/
def Datum.same : Datum → Datum → Bool
  | .value (.scalar .null), .value (.scalar .null) => true
  | .value (.bool a), .value (.bool b) => a == b
  | .value (.int a), .value (.int b) => a == b
  | .value (.node a), .value (.node b) => a == b
  | _, _ => false

/-- Whether a relation holds; `none` if it cannot be asked. -/
def Relation.holds? (a b : Datum) : Relation → Eval (Option Bool)
  | .within => a.occurs? b
  | .notWithin => return (← a.occurs? b).map (!·)
  | .same => return some (a.same b)
  | .notSame => return some (!a.same b)
  | .equal => some <$> equalValues a.toValue b.toValue
  | .notEqual => return some (!(← equalValues a.toValue b.toValue))
  | .greater => ordered fun o ↦ o == .gt
  | .atLeast => ordered fun o ↦ o != .lt
  | .less => ordered fun o ↦ o == .lt
  | .atMost => ordered fun o ↦ o != .gt
where
  /-- Whether the order of the data, if they have one, is as wanted. -/
  ordered (wanted : Ordering → Bool) : Eval (Option Bool) := do
    let m ← get
    return ((m.view a.toValue).order? (m.view b.toValue)).map fun o ↦ (o.map wanted).getD false

/-- What a test stands for. -/
def Test.find (b : Bindings) : Test → Eval Datum
  | .operand e => e.resolveOrNull b
  | .not t => guarded do return .value (.bool (!(← (← t.find b).truthy)))
  | .and s t => guarded do
    let first ← s.find b
    if ← first.truthy then t.find b else return first
  | .or s t => guarded do
    let first ← s.find b
    if ← first.truthy then return first else t.find b
  | .related r s t => guarded do
    let first ← s.find b
    let second ← t.find b
    return .value (.bool ((← r.holds? first second).getD false))
where
  /-- A failure counts as false. -/
  guarded (x : Eval Datum) : Eval Datum :=
    tryCatch x fun _ ↦ return .value (.bool false)

/-- Whether a test holds. -/
def Test.holds (b : Bindings) (t : Test) : Eval Bool := do
  tryCatch (do (← t.find b).truthy) fun
    | .template .missingVariable => return false
    | f => throw f

/-! ## Parts -/

/-- A part of the filling: what it reads and may rebind are the names. -/
abbrev Filling := StateT Bindings Eval

/-- The text without the blanks between the end of one element and the start of the next. `gap`
holds the blanks since the end of an element, in reverse. -/
def closeGaps (gap : Option (List Char)) : List Char → List Char
  | [] => (gap.getD []).reverse
  | c :: rest =>
    match gap with
    | none => c :: closeGaps (if c = '>' then some [] else none) rest
    | some blanks =>
      if isBlank c then closeGaps (some (c :: blanks)) rest
      else if c = '<' then c :: closeGaps none rest
      else blanks.reverse ++ c :: closeGaps (if c = '>' then some [] else none) rest

/-- The state of a loop at one of its rounds. -/
def loopState (outer : Value) (round count : Nat) : Value :=
  .mapping [
    (.text "parentloop", outer),
    (.text "counter0", .int round),
    (.text "counter", .int (round + 1)),
    (.text "revcounter", .int (count - round : Nat)),
    (.text "revcounter0", .int (count - round - 1 : Nat)),
    (.text "first", .bool (round = 0)),
    (.text "last", .bool (round + 1 = count))]

/-- What the variables of a loop stand for in one round. Several variables share the elements of
the item, which has to have as many. -/
def loopVariables (names : List String) (item : Value) : Eval (Entries Datum) := do
  match names with
  | [name] => return [(name, .value item)]
  | names =>
    match ← (Datum.value item).elements? with
    | none => throw (.template .wrongValue)
    | some elements =>
      if elements.length ≠ names.length then throw (.template .wrongValue)
      return (names.zip elements).foldl (fun frame (name, v) ↦ frame.put name (.value v)) []

/-- What a loop runs through. Nothing is run through as if it were empty. -/
def loopItems (backwards : Bool) (d : Datum) : Eval (List Value) := do
  match d with
  | .value .null => return []
  | d =>
    match ← d.elements? with
    | none => throw (.template .wrongKind)
    | some items => return if backwards then items.reverse else items

/-- Why a template cannot be included: there are no others. -/
def inclusionFault (d : Datum) : Eval Failure := do
  if !(← d.truthy) then return .template .missingTemplate
  match ← d.elements? with
  | some _ => return .template .missingTemplate
  | none => return .template .wrongKind

/-- Runs a filling with other bindings and returns to the old ones. -/
def Filling.inside {α : Type} (change : Bindings → Bindings) (x : Filling α) : Filling α := do
  let outer ← get
  set (change outer)
  let result ← x
  set outer
  return result

/-- The first candidate that counts as set, as it is written into the result. -/
def firstSet (b : Bindings) : List Expression → Eval String
  | [] => return ""
  | e :: rest => do
    let d ← e.resolveOrNull b
    if ← d.truthy then d.written b.escaping else firstSet b rest

mutual

/-- What a part comes to. -/
def Part.fill : Part → Filling String
  | .text cs => return String.ofList cs
  | .expression e => do
    let b ← get
    (do (← e.resolve b).written b.escaping : Eval String)
  | .choice branches otherwise => do
    match ← fillBranches branches with
    | some text => return text
    | none => fillParts otherwise
  | .loop names backwards source body empty =>
    Filling.inside (·.within []) do
      let items ← (do loopItems backwards (← source.resolveOrNull (← get)) : Filling (List Value))
      if items.isEmpty then fillParts empty else
        let outer := (((← get).find? "forloop").map Datum.toValue).getD (.mapping [])
        let rounds ← items.zipIdx.mapM fun (item, round) ↦ do
          let frame ← (loopVariables names item : Eval (Entries Datum))
          modify fun b ↦ b.put "forloop" (.value (loopState outer round items.length))
          match names with
          | [_] =>
            modify fun b ↦ frame.foldl (fun b (name, d) ↦ b.put name d) b
            fillParts body
          | _ => Filling.inside (·.within frame) (fillParts body)
        return String.join rounds
  | .binding bindings body => do
    let b ← get
    let frame ← (bindings.mapM fun (name, e) ↦ do return (name, ← e.resolve b) :
      Eval (Entries Datum))
    Filling.inside (·.within frame) (fillParts body)
  | .escaping on body => do
    let before := (← get).escaping
    modify fun b ↦ { b with escaping := on }
    let text ← fillParts body
    modify fun b ↦ { b with escaping := before }
    return text
  | .spaceless body => do
    let text ← fillParts body
    return String.ofList (closeGaps none (trimChars text.toList))
  | .firstOf candidates name => do
    let b ← get
    let text ← (firstSet b candidates : Eval String)
    match name with
    | none => return text
    | some name =>
      modify fun b ↦ b.put name (if b.escaping then .markup text else .text text)
      return ""
  | .inclusion source => do
    throw (← (do inclusionFault (← source.resolve (← get)) : Filling Failure))
  | .extension parent => do
    let d ← (do parent.resolve (← get) : Filling Datum)
    let named ← (d.truthy : Eval Bool)
    throw (.template (if named then .missingTemplate else .namelessParent))
  | .silent => return ""
termination_by structural x => x

/-- What parts come to together. -/
def fillParts : List Part → Filling String
  | [] => return ""
  | part :: rest => do
    let text ← part.fill
    return text ++ (← fillParts rest)
termination_by structural x => x

/-- What the first branch whose test holds comes to, if there is one. -/
def fillBranches : List (Test × List Part) → Filling (Option String)
  | [] => return none
  | (test, body) :: rest => do
    let b ← get
    if ← (test.holds b : Eval Bool) then some <$> fillParts body else fillBranches rest
termination_by structural x => x

end

/-- What a template comes to, given what its names stand for. Values are escaped. -/
def fill (parts : List Part) (given : List (Value × Value)) : Eval String := do
  return (← (fillParts parts).run ⟨[[]], given, true⟩).1

end Template

end LayeredConfig
