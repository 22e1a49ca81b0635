import LayeredConfig.Yaml.Scalar

/-!
# Tokens of a YAML text

A YAML text is a sequence of tokens in which the indentation has become explicit: the start and
the end of block collections are tokens of their own.

## Simple keys

A key needs no mark in front; that something was a key shows only at the colon behind it. The
lexer remembers, for each level of flow collections, the last place where such a key may have
started, and puts the key token there when the colon comes. A place is forgotten at the end of the
line and after 1024 characters. So a token can be handed out only when no remembered place stands
at it; `Lexer.run` hands out tokens as early as that allows, which decides whether a fault in the
tokens or one found in the text further on comes first.
-/

namespace LayeredConfig

namespace Yaml

/-- What a directive says. -/
inductive Directive where
  | version (major : Nat)
  | tagHandle (handle resolved : String)
  | other
deriving DecidableEq, Repr, Inhabited

/-- A token. -/
inductive Token where
  | streamStart
  | streamEnd
  | directive (d : Directive)
  | documentStart
  | documentEnd
  | blockSequenceStart
  | blockMappingStart
  | blockEnd
  | flowSequenceStart
  | flowSequenceEnd
  | flowMappingStart
  | flowMappingEnd
  | blockEntry
  | flowEntry
  | key
  | value
  | alias (name : String)
  | anchor (name : String)
  /-- A tag; without a handle the suffix is the whole tag. -/
  | tag (handle : Option String) (suffix : String)
  | scalar (text : String) (plain : Bool)
deriving DecidableEq, Repr, Inhabited

/-! ## Names, tags and directives -/

/-- The name behind the indicator of an anchor or an alias. -/
def anchorName (r : Reader) : Except Fault (String × Reader) :=
  let (name, r) := r.step.span isNameChar
  let c := r.head
  if !name.isEmpty && (isBlankOrBreak c || "?:,]\x7d%@\x60".toList.contains c) then
    .ok (String.ofList name, r)
  else .error .malformed

/-- The handle of a tag: `!`, `!!`, or a name between exclamation marks. -/
def tagHandle (r : Reader) : Except Fault (String × Reader) :=
  if r.head != '!' then .error .malformed
  else if r.peek 1 == ' ' then .ok ("!", r.step)
  else
    let (name, r') := r.step.span isNameChar
    if r'.head == '!' then .ok (String.ofList ('!' :: name ++ ['!']), r'.step)
    else .error .malformed

/-- The bytes of percent escapes, two hexadecimal digits each. -/
def uriBytes : (steps : Nat) → Reader → Except Fault (List UInt8 × Reader)
  | 0, r => .ok ([], r)
  | steps + 1, r =>
    if r.head != '%' then .ok ([], r) else
      let digits := (r.step.rest.take 2)
      if digits.length = 2 ∧ digits.all isHexDigit then do
        let (rest, r) ← uriBytes steps (r.advance 3)
        return (UInt8.ofNat (hexValue digits) :: rest, r)
      else .error .malformed

private def isUriChar (c : Char) : Bool :=
  c.isAlphanum || "-;/?:@&=+$,_.!~*'()[]".toList.contains c

/-- The characters of a tag's suffix, escapes decoded. -/
def tagUri : (steps : Nat) → Reader → Except Fault (List Char × Reader)
  | 0, r => .ok ([], r)
  | steps + 1, r =>
    let (plain, r) := r.span isUriChar
    if r.head == '%' then do
      let (bytes, r) ← uriBytes (r.rest.length + 1) r
      match String.fromUTF8? ⟨bytes.toArray⟩ with
      | none => .error .malformed
      | some s =>
        let (rest, r) ← tagUri steps r
        return (plain ++ s.toList ++ rest, r)
    else .ok (plain, r)

/-- A suffix that is not empty. -/
def tagSuffix (r : Reader) : Except Fault (String × Reader) := do
  let (cs, next) ← tagUri (r.rest.length + 1) r
  if cs.isEmpty && next.index == r.index then throw .malformed
  return (String.ofList cs, next)

/-- A tag; the reader is at its first exclamation mark. -/
def tagToken (r : Reader) : Except Fault (Token × Reader) := do
  let c := r.peek 1
  let (token, r) ←
    if c == '<' then do
      let (suffix, r) ← tagSuffix (r.advance 2)
      if r.head != '>' then throw .malformed
      pure (Token.tag none suffix, r.step)
    else if isBlankOrBreak c then pure (Token.tag none "!", r.step)
    else do
      let word := r.step.rest.takeWhile fun c ↦ !isSpaceOrBreak c
      if word.contains '!' then
        let (handle, r) ← tagHandle r
        let (suffix, r) ← tagSuffix r
        pure (Token.tag (some handle) suffix, r)
      else
        let (suffix, r) ← tagSuffix r.step
        pure (Token.tag (some "!") suffix, r)
  if isSpaceOrBreak r.head then return (token, r) else throw .malformed

/-- A decimal number. -/
private def versionNumber (r : Reader) : Except Fault (Nat × Reader) :=
  let (digits, r) := r.span Char.isDigit
  if digits.isEmpty then .error .malformed
  else if 4300 < digits.length then .error (.value .valueOutOfRange)
  else .ok (digits.foldl (fun n c ↦ 10 * n + (c.toNat - 48)) 0, r)

/-- A directive; the reader is at its percent sign. -/
def directiveToken (r : Reader) : Except Fault (Token × Reader) := do
  let (name, r) := r.step.span isNameChar
  if name.isEmpty || !isSpaceOrBreak r.head then throw .malformed
  let (directive, r) ←
    if name == "YAML".toList then do
      let (major, r) ← versionNumber r.skipSpaces
      if r.head != '.' then throw .malformed
      let (_, r) ← versionNumber r.step
      if !isSpaceOrBreak r.head then throw .malformed
      pure (Directive.version major, r)
    else if name == "TAG".toList then do
      let (handle, r) ← tagHandle r.skipSpaces
      if r.head != ' ' then throw .malformed
      let (resolved, r) ← tagSuffix r.skipSpaces
      if !isSpaceOrBreak r.head then throw .malformed
      pure (Directive.tagHandle handle resolved, r)
    else pure (Directive.other, (r.span fun c ↦ !isBreakOrEnd c).2)
  return (.directive directive, ← r.finishLine)

/-! ## The lexer -/

/-- A place where a simple key may have started. -/
structure SimpleKey where
  /-- The number of the token that starts there. -/
  token : Nat
  /-- Whether nothing else may stand there. -/
  required : Bool
  index : Nat
  line : Nat
  column : Nat
deriving Repr, Inhabited

/-- The state of the lexer. -/
structure Lexer where
  reader : Reader
  /-- Whether the end of the text was reached. -/
  finished : Bool
  /-- How many flow collections are open. -/
  flowLevel : Nat
  /-- The tokens found and not yet handed out. -/
  queue : List Token
  /-- The number of tokens handed out. -/
  taken : Nat
  /-- The column of the innermost block collection. -/
  indent : Int
  /-- The columns of the block collections around it. -/
  outer : List Int
  /-- Whether a simple key may start here. -/
  keyAllowed : Bool
  /-- The places where one may have started, by flow level. -/
  keys : List (Nat × SimpleKey)
deriving Repr, Inhabited

namespace Lexer

/-- A step of the lexer. -/
abbrev LexM := StateT Lexer (Except Fault)

/-- The lexer at the start of a text. -/
def ofText (cs : List Char) : Lexer :=
  ⟨Reader.ofText cs, false, 0, [.streamStart], 0, -1, [], true, []⟩

private def malformed {α : Type} : LexM α := throw .malformed

private def push (t : Token) : LexM Unit := modify fun l ↦ { l with queue := l.queue ++ [t] }

private def setReader (r : Reader) : LexM Unit := modify fun l ↦ { l with reader := r }

private def allowKey (allowed : Bool) : LexM Unit := modify fun l ↦ { l with keyAllowed := allowed }

/-- Whether a remembered place is out of reach. -/
def isStale (r : Reader) (k : SimpleKey) : Bool := k.line != r.line || 1024 < r.index - k.index

/-- Forgets the places that are out of reach. -/
def dropStaleKeys : LexM Unit := do
  let l ← get
  if l.keys.any fun (_, k) ↦ isStale l.reader k && k.required then malformed
  set { l with keys := l.keys.filter fun (_, k) ↦ !isStale l.reader k }

/-- Forgets the place of the current flow level. -/
def dropKey : LexM Unit := do
  let l ← get
  match l.keys.lookup l.flowLevel with
  | none => pure ()
  | some k =>
    if k.required then malformed
    set { l with keys := l.keys.filter (·.1 != l.flowLevel) }

/-- Remembers that a simple key may start here. -/
def saveKey : LexM Unit := do
  if (← get).keyAllowed then
    dropKey
    let l ← get
    let r := l.reader
    let required := l.flowLevel = 0 ∧ l.indent = r.column
    let k : SimpleKey := ⟨l.taken + l.queue.length, required, r.index, r.line, r.column⟩
    set { l with keys := l.keys ++ [(l.flowLevel, k)] }

/-- Ends the block collections that are indented further than the column. -/
def unwind (column : Int) : LexM Unit := do
  let l ← get
  if l.flowLevel = 0 then set (close l.outer l)
where
  /-- Ends one collection after the other. -/
  close : List Int → Lexer → Lexer
    | [], l => l
    | previous :: rest, l =>
      if column < l.indent then
        close rest { l with indent := previous, outer := rest, queue := l.queue ++ [.blockEnd] }
      else l

/-- Starts a block collection at the column if none of it is open; whether it did. -/
def addIndent (column : Nat) : LexM Bool := do
  let l ← get
  if l.indent < column then
    set { l with indent := column, outer := l.indent :: l.outer }
    return true
  else return false

/-- A token of one character. -/
private def single (t : Token) : LexM Unit := do
  setReader (← get).reader.step
  push t

private def fetchStreamEnd : LexM Unit := do
  unwind (-1)
  dropKey
  push .streamEnd
  modify fun l ↦ { l with keyAllowed := false, keys := [], finished := true }

private def fetchDirective : LexM Unit := do
  unwind (-1)
  dropKey
  allowKey false
  let (t, r) ← directiveToken (← get).reader
  setReader r
  push t

private def fetchSeparator (t : Token) : LexM Unit := do
  unwind (-1)
  dropKey
  allowKey false
  setReader ((← get).reader.advance 3)
  push t

private def fetchFlowStart (t : Token) : LexM Unit := do
  saveKey
  modify fun l ↦ { l with flowLevel := l.flowLevel + 1, keyAllowed := true }
  single t

private def fetchFlowEnd (t : Token) : LexM Unit := do
  dropKey
  modify fun l ↦ { l with flowLevel := l.flowLevel - 1, keyAllowed := false }
  single t

private def fetchFlowEntry : LexM Unit := do
  allowKey true
  dropKey
  single .flowEntry

private def fetchBlockEntry : LexM Unit := do
  let l ← get
  if l.flowLevel = 0 then
    if !l.keyAllowed then malformed
    if ← addIndent l.reader.column then push .blockSequenceStart
  allowKey true
  dropKey
  single .blockEntry

private def fetchKey : LexM Unit := do
  let l ← get
  if l.flowLevel = 0 then
    if !l.keyAllowed then malformed
    if ← addIndent l.reader.column then push .blockMappingStart
  allowKey (l.flowLevel = 0)
  dropKey
  single .key

/-- Puts a token among those not yet handed out, by its number. -/
private def insertToken (number : Nat) (t : Token) : LexM Unit :=
  modify fun l ↦
    let at_ := number - l.taken
    { l with queue := l.queue.take at_ ++ t :: l.queue.drop at_ }

private def fetchValue : LexM Unit := do
  let l ← get
  match l.keys.lookup l.flowLevel with
  | some k =>
    set { l with keys := l.keys.filter (·.1 != l.flowLevel) }
    insertToken k.token .key
    if l.flowLevel = 0 then
      if ← addIndent k.column then insertToken k.token .blockMappingStart
    allowKey false
  | none =>
    if l.flowLevel = 0 then
      if !l.keyAllowed then malformed
      if ← addIndent l.reader.column then push .blockMappingStart
    allowKey (l.flowLevel = 0)
    dropKey
  single .value

private def fetchAnchor (make : String → Token) : LexM Unit := do
  saveKey
  allowKey false
  let (name, r) ← anchorName (← get).reader
  setReader r
  push (make name)

private def fetchTag : LexM Unit := do
  saveKey
  allowKey false
  let (t, r) ← tagToken (← get).reader
  setReader r
  push t

private def fetchBlockScalar (folded : Bool) : LexM Unit := do
  allowKey true
  dropKey
  let l ← get
  let (text, r) ← blockScalar folded l.indent l.reader
  setReader r
  push (.scalar (String.ofList text) false)

private def fetchQuoted (double : Bool) : LexM Unit := do
  saveKey
  allowKey false
  let (text, r) ← quotedScalar double (← get).reader
  setReader r
  push (.scalar (String.ofList text) false)

private def fetchPlain : LexM Unit := do
  saveKey
  let l ← get
  let (text, newLine, r) := plainScalar (0 < l.flowLevel) (l.indent + 1) l.reader
  set { l with keyAllowed := newLine, reader := r }
  push (.scalar (String.ofList text) true)

/-- Whether a plain scalar may start here. -/
def startsPlain (flow : Bool) (r : Reader) : Bool :=
  let c := r.head
  !(isBlankOrBreak c || "-?:,[]\x7b\x7d#&*!|>'\"%@\x60".toList.contains c) ||
    (!isBlankOrBreak (r.peek 1) && (c == '-' || (!flow && (c == '?' || c == ':'))))

/-- Finds the next token, which may bring others with it. -/
def fetch : LexM Unit := do
  let l ← get
  let start := l.reader
  let start := if start.index = 0 ∧ start.head = '\ufeff' then start.step else start
  let (newLine, r) := start.toNextToken (start.rest.length + 1)
  set { l with reader := r, keyAllowed := l.keyAllowed || (newLine && l.flowLevel = 0) }
  dropStaleKeys
  unwind r.column
  let flow := 0 < (← get).flowLevel
  let c := r.head
  let spaced := isBlankOrBreak (r.peek 1)
  if c == endMark then fetchStreamEnd
  else if c == '%' && r.column == 0 then fetchDirective
  else if c == '-' && r.column == 0 && r.atSeparator then fetchSeparator .documentStart
  else if c == '.' && r.column == 0 && r.atSeparator then fetchSeparator .documentEnd
  else if c == '[' then fetchFlowStart .flowSequenceStart
  else if c == '\x7b' then fetchFlowStart .flowMappingStart
  else if c == ']' then fetchFlowEnd .flowSequenceEnd
  else if c == '\x7d' then fetchFlowEnd .flowMappingEnd
  else if c == ',' then fetchFlowEntry
  else if c == '-' && spaced then fetchBlockEntry
  else if c == '?' && (flow || spaced) then fetchKey
  else if c == ':' && (flow || spaced) then fetchValue
  else if c == '*' then fetchAnchor .alias
  else if c == '&' then fetchAnchor .anchor
  else if c == '!' then fetchTag
  else if c == '|' && !flow then fetchBlockScalar false
  else if c == '>' && !flow then fetchBlockScalar true
  else if c == '\'' then fetchQuoted false
  else if c == '"' then fetchQuoted true
  else if startsPlain flow r then fetchPlain
  else malformed

/-- Whether the next token cannot be handed out yet. -/
def needsMore : LexM Bool := do
  let l ← get
  if l.finished then return false
  if l.queue.isEmpty then return true
  dropStaleKeys
  let l ← get
  return l.keys.any fun (_, k) ↦ k.token == l.taken && l.keys.all fun (_, k') ↦ k.token ≤ k'.token

/-- The tokens handed out, those in `done` in reverse order before the rest, and the fault that
ends them, if one does. -/
def run : (steps : Nat) → (done : List Token) → Lexer → List Token × Option Fault
  | 0, done, _ => (done.reverse, some .malformed)
  | steps + 1, done, l =>
    match needsMore l with
    | .error fault => (done.reverse, some fault)
    | .ok (true, l) =>
      match fetch l with
      | .error fault => (done.reverse, some fault)
      | .ok ((), l) => run steps done l
    | .ok (false, l) =>
      match l.queue with
      | [] => (done.reverse, none)
      | t :: rest => run steps (t :: done) { l with queue := rest, taken := l.taken + 1 }

end Lexer

/-- Whether a YAML text may hold the character. -/
def isAllowed (c : Char) : Bool :=
  c == '\t' || c == '\n' || c == '\r' || (' ' ≤ c && c ≤ '~') || c == '\u0085' ||
    ('\u00a0' ≤ c && c ≤ '\ufffd') || '\uffff' < c

/-- The tokens of a text, and the fault that ends them, if one does. A fetch reads at least one
character and brings at most five tokens with it. -/
def tokens (cs : List Char) : List Token × Option Fault :=
  if cs.all isAllowed then Lexer.run (6 * (cs.length + 3)) [] (Lexer.ofText cs)
  else ([], some .malformed)

end Yaml

end LayeredConfig
