import LayeredConfig.Entries
import LayeredConfig.Template.Test
import LayeredConfig.Template.Token

/-!
# Parts of a template

The tree that the tokens of a template form. Tags that hold other parts are closed by a tag of
their own, and a conditional tag is divided by `elif` and `else`, a loop by `empty`.

The tree is built in one pass over the tokens with a stack of open tags (`Draft`), so it needs no
look-ahead, and a token that fits nowhere is refused where it stands.
-/

namespace LayeredConfig

namespace Template

/-- A part of a template. -/
inductive Part where
  | text (cs : List Char)
  | expression (e : Expression)
  | choice (branches : List (Test × List Part)) (otherwise : List Part)
  | loop (names : List String) (backwards : Bool) (source : Expression) (body empty : List Part)
  | binding (bindings : Entries Expression) (body : List Part)
  | escaping (on : Bool) (body : List Part)
  | spaceless (body : List Part)
  | firstOf (candidates : List Expression) (name : Option String)
  | inclusion (source : Expression)
  | extension (parent : Expression)
  /-- A tag that leaves nothing in the result. -/
  | silent
deriving Inhabited

/-- A tag that waits for its closing tag, with what was already read of it. -/
inductive OpenTag where
  /-- The branches so far and the test of the current one; without a test it is the last. -/
  | choice (branches : List (Test × List Part)) (test : Option Test)
  /-- The body is known when the parts for an empty loop are being read. -/
  | loop (names : List String) (backwards : Bool) (source : Expression) (body : Option (List Part))
  | binding (bindings : Entries Expression)
  | escaping (on : Bool)
  | spaceless
  | verbatim
  | remark
  /-- The parts behind a tag that names a parent; it extends to the end. -/
  | extension (parent : Expression)
deriving Inhabited

/-- A template that is being read. Parts are kept in reverse. -/
structure Draft where
  /-- The open tags, the innermost first, each with the parts in front of it. -/
  stack : List (OpenTag × List Part)
  /-- The parts of the innermost open tag. -/
  parts : List Part
deriving Inhabited

namespace Draft

/-- Adds a part. -/
def add (d : Draft) (p : Part) : Draft := { d with parts := p :: d.parts }

/-- Opens a tag. -/
def enter (d : Draft) (tag : OpenTag) : Draft := ⟨(tag, d.parts) :: d.stack, []⟩

/-- Replaces the innermost open tag and starts its next section. -/
def proceed (tag : OpenTag) (before : List Part) (rest : List (OpenTag × List Part)) : Draft :=
  ⟨(tag, before) :: rest, []⟩

/-- Closes the innermost open tag. -/
def leave (part : Part) (before : List Part) (rest : List (OpenTag × List Part)) : Draft :=
  ⟨rest, part :: before⟩

end Draft

/-! ## Opening tags -/

/-- The name and the value of a word such as `name=value`. -/
def assignment? (word : List Char) : Option (String × List Char) :=
  match word.takeWhile isWordChar, word.dropWhile isWordChar with
  | [], _ => none
  | name, '=' :: c :: value => some (String.ofList name, c :: value)
  | _, _ => none

/-- Assignments at the start of the words, and the words behind them. -/
def assignments? : List (List Char) → Option (Entries Expression × List (List Char))
  | [] => some ([], [])
  | word :: rest =>
    match assignment? word with
    | none => some ([], word :: rest)
    | some (name, value) => do
      let e ← Expression.ofChars? value
      let (bindings, rest) ← assignments? rest
      return ((name, e) :: bindings, rest)

/-- Bindings such as `value as name and value as name`, and the words behind them. -/
def renamings? : List (List Char) → Option (Entries Expression × List (List Char))
  | value :: as :: name :: rest =>
    if as = "as".toList then do
      let binding := (String.ofList name, ← Expression.ofChars? value)
      match rest with
      | [] => return ([binding], [])
      | joint :: rest =>
        if joint = "and".toList then
          let (bindings, rest) ← renamings? rest
          return (binding :: bindings, rest)
        else return ([binding], joint :: rest)
    else some ([], value :: as :: name :: rest)
  | words => some ([], words)

/-- The bindings that make up the words. A name that is bound twice keeps its first place and its
last value. -/
def bindings? (words : List (List Char)) : Option (Entries Expression) := do
  let (bindings, rest) ← if (words.head?.bind assignment?).isSome then assignments? words
    else renamings? words
  if bindings.isEmpty ∨ !rest.isEmpty then none
  return bindings.foldl (fun all (name, e) ↦ all.put name e) []

/-- The variables of a loop: texts between commas. -/
def loopNames? (words : List (List Char)) : Option (List String) :=
  let joined := [' '].intercalate words
  let isSpace (c : Char) : Bool := c == ' '
  let strip (cs : List Char) := ((cs.dropWhile isSpace).reverse.dropWhile isSpace).reverse
  let names := (splitAt (· == ',') joined).map strip
  let refused : List Char := [' ', '"', '\'', '|']
  if names.any fun name ↦ name.isEmpty || name.any refused.contains then none
  else some (names.map String.ofList)

/-- The loop that the words behind `for` describe. -/
def loop? (words : List (List Char)) : Option OpenTag := do
  if words.length < 3 then none
  let backwards := words.getLast? = some "reversed".toList
  let words := if backwards then words.dropLast else words
  let source ← words.getLast?
  let before := words.dropLast
  if before.getLast? ≠ some "in".toList then none
  return .loop (← loopNames? before.dropLast) backwards (← Expression.ofChars? source) none

/-- The part that a tag `firstof` is. -/
def firstOf? (words : List (List Char)) : Option Part := do
  let (candidates, name) :=
    match words.reverse with
    | name :: as :: before =>
      if as = "as".toList then (before.reverse, some (String.ofList name)) else (words, none)
    | _ => (words, none)
  if words.isEmpty then none
  return .firstOf (← candidates.mapM Expression.ofChars?) name

/-- The marks that can be written by name. -/
def markNames : List (String × String) := [
  ("openblock", "\x7b%"), ("closeblock", "%\x7d"), ("openvariable", "\x7b\x7b"),
  ("closevariable", "\x7d\x7d"), ("openbrace", "\x7b"), ("closebrace", "\x7d"),
  ("opencomment", "\x7b#"), ("closecomment", "#\x7d")]

/-- Whether the words behind an included template are its options, each given at most once. -/
def inclusionOptions (seenBindings seenOnly : Bool) : (fuel : Nat) → List (List Char) → Bool
  | _, [] => true
  | 0, _ :: _ => false
  | fuel + 1, option :: rest =>
    if option = "with".toList ∧ !seenBindings then
      match assignments? rest with
      | some (_ :: _, rest) => inclusionOptions true seenOnly fuel rest
      | _ => false
    else if option = "only".toList ∧ !seenOnly then inclusionOptions seenBindings true fuel rest
    else false

/-- What a tag adds: a whole part, or an open tag. -/
inductive Opening where
  | part (p : Part)
  | tag (t : OpenTag)

/-- What the tag with the given first word and content adds. -/
def opening? (command : String) (content : List Char) : Option Opening :=
  let arguments := (words content).tail
  match command with
  | "if" => (Test.ofWords? arguments).map fun test ↦ .tag (.choice [] (some test))
  | "for" => (loop? arguments).map .tag
  | "with" => (bindings? arguments).map fun bindings ↦ .tag (.binding bindings)
  | "comment" => some (.tag .remark)
  | "verbatim" => some (.tag .verbatim)
  | "spaceless" => some (.tag .spaceless)
  | "autoescape" =>
    match (plainWords content).tail.map String.ofList with
    | ["on"] => some (.tag (.escaping true))
    | ["off"] => some (.tag (.escaping false))
    | _ => none
  | "firstof" => (firstOf? arguments).map .part
  | "templatetag" =>
    match (plainWords content).tail.map String.ofList with
    | [name] => (List.lookup name markNames).map fun mark ↦ .part (.text mark.toList)
    | _ => none
  | "load" => if (plainWords content).tail.isEmpty then some (.part .silent) else none
  | "include" =>
    match arguments with
    | source :: options =>
      if inclusionOptions false false options.length options then
        (Expression.ofChars? source).map fun e ↦ .part (.inclusion e)
      else none
    | [] => none
  | "extends" =>
    match arguments with
    | [parent] => (Expression.ofChars? parent).map fun e ↦ .tag (.extension e)
    | _ => none
  | _ => none

/-! ## Reading the tokens -/

namespace Draft

/-- Whether the part is plain text. -/
private def isText : Part → Bool
  | .text _ => true
  | _ => false

/-- What becomes of a draft at a tag that may divide or close the innermost open tag. The outer
`none` says that the tag does neither, the inner one that it is refused. -/
def divide? (d : Draft) (command : String) (content : List Char) : Option (Option Draft) :=
  match d.stack with
  | [] => none
  | (tag, before) :: rest =>
    let inside := d.parts.reverse
    match tag, command with
    | .choice branches (some test), "elif" =>
      some ((Test.ofWords? (words content).tail).map fun next ↦
        proceed (.choice (branches ++ [(test, inside)]) (some next)) before rest)
    | .choice branches (some test), "else" =>
      some (if content = command.toList then
        some (proceed (.choice (branches ++ [(test, inside)]) none) before rest) else none)
    | .choice branches (some test), "endif" =>
      some (if content = command.toList then
        some (leave (.choice (branches ++ [(test, inside)]) []) before rest) else none)
    | .choice branches none, "endif" =>
      some (if content = command.toList then
        some (leave (.choice branches inside) before rest) else none)
    | .loop names backwards source none, "empty" =>
      some (some (if content = command.toList then
        proceed (.loop names backwards source (some inside)) before rest
        else leave (.loop names backwards source inside []) before rest))
    | .loop names backwards source none, "endfor" =>
      some (some (leave (.loop names backwards source inside []) before rest))
    | .loop names backwards source (some body), "endfor" =>
      some (some (leave (.loop names backwards source body inside) before rest))
    | .binding bindings, "endwith" => some (some (leave (.binding bindings inside) before rest))
    | .escaping on, "endautoescape" => some (some (leave (.escaping on inside) before rest))
    | .spaceless, "endspaceless" => some (some (leave (.spaceless inside) before rest))
    | .verbatim, "endverbatim" => some (some (leave (.binding [] inside) before rest))
    | _, _ => none

/-- The draft after one more token. -/
def step? (d : Draft) (token : Token) : Option Draft :=
  match d.stack, token with
  | (.remark, before) :: rest, token =>
    some (if token = .tag "endcomment".toList then leave .silent before rest else d)
  | _, .text cs => some (d.add (.text cs))
  | _, .remark => some d
  | _, .expression content => (Expression.ofChars? content).map fun e ↦ d.add (.expression e)
  | _, .tag content => do
    let command := String.ofList (← (plainWords content).head?)
    match d.divide? command content with
    | some outcome => outcome
    | none =>
      match ← opening? command content with
      | .part p => return d.add p
      | .tag (.extension parent) =>
        if d.stack.isEmpty ∧ d.parts.all isText then return d.enter (.extension parent) else none
      | .tag tag => return d.enter tag

/-- The parts of a draft in which every tag is closed. -/
def finish? (d : Draft) : Option (List Part) :=
  match d.stack with
  | [] => some d.parts.reverse
  | [(.extension parent, before)] => some (before.reverse ++ [.extension parent])
  | _ => none

end Draft

/-- The parts of a template, if its text is well-formed. -/
def parts? (text : String) : Option (List Part) := do
  (← (tokens text).foldlM Draft.step? ⟨[], []⟩).finish?

end Template

end LayeredConfig
