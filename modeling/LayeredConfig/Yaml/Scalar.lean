import LayeredConfig.Yaml.Reader

/-!
# Scalars of a YAML text

The four ways to write a text in YAML. A plain scalar and a quoted one may run over several lines,
which are then joined by spaces, an empty line standing for a line break. A block scalar keeps its
lines, or folds them the same way, below its header.

Every loop counts down from the length of the rest of the text, since each round reads at least
one character.
-/

namespace LayeredConfig

namespace Yaml

/-! ## Quoted scalars -/

/-- The characters of escapes that stand for one character. -/
def escapes : List (Char × Char) := [
  ('0', '\x00'), ('a', '\x07'), ('b', '\x08'), ('t', '\t'), ('\t', '\t'), ('n', '\n'),
  ('v', '\x0b'), ('f', '\x0c'), ('r', '\r'), ('e', '\x1b'), (' ', ' '), ('"', '"'),
  ('\\', '\\'), ('/', '/'), ('N', '\u0085'), ('_', '\u00a0'), ('L', '\u2028'), ('P', '\u2029')]

/-- The number of hexadecimal digits of an escape by code point. -/
def escapeLength? (c : Char) : Option Nat :=
  if c == 'x' then some 2 else if c == 'u' then some 4 else if c == 'U' then some 8 else none

/-- The character of a code point. -/
def charOfCode (code : Nat) : Except Fault Char :=
  if 0x7fffffff < code then .error (.value .tooLarge)
  else if 0x10ffff < code then .error (.value .valueOutOfRange)
  else .ok (Char.ofNat code)

/-- The line breaks that follow, with the spaces and tabs between them left out. A document
separator may not stand inside a scalar. -/
def quotedBreaks : (steps : Nat) → Reader → Except Fault (List Char × Reader)
  | 0, r => .ok ([], r)
  | steps + 1, r =>
    if r.atSeparator then .error .malformed else
      let (_, r) := r.span fun c ↦ c == ' ' || c == '\t'
      match r.lineBreak with
      | ([], _) => .ok ([], r)
      | (line, r) => do
        let (rest, r) ← quotedBreaks steps r
        return (line ++ rest, r)

/-- The blanks and line breaks that follow, as they count inside a quoted scalar. -/
def quotedBlanks (r : Reader) : Except Fault (List Char × Reader) :=
  let (blanks, r) := r.span fun c ↦ c == ' ' || c == '\t'
  if r.head == endMark then .error .malformed
  else match r.lineBreak with
    | ([], _) => .ok (blanks, r)
    | (line, r) => do
      let (breaks, r) ← quotedBreaks (r.rest.length + 1) r
      let start := if line != ['\n'] then line else if breaks.isEmpty then [' '] else []
      return (start ++ breaks, r)

/-- What an escape stands for; the reader is behind the backslash. -/
def quotedEscape (r : Reader) : Except Fault (List Char × Reader) :=
  let c := r.head
  match escapes.lookup c, escapeLength? c with
  | some plain, _ => .ok ([plain], r.step)
  | none, some length =>
    let digits := r.step.rest.take length
    if digits.length = length ∧ digits.all isHexDigit then do
      let code ← charOfCode (hexValue digits)
      return ([code], r.advance (length + 1))
    else .error .malformed
  | none, none =>
    match r.lineBreak with
    | ([], _) => .error .malformed
    | (_, r) => quotedBreaks (r.rest.length + 1) r

/-- The characters up to the next blank, line break or closing quote. -/
def quotedWord (double : Bool) : (steps : Nat) → Reader → Except Fault (List Char × Reader)
  | 0, r => .ok ([], r)
  | steps + 1, r => do
    let (plain, r) := r.span fun c ↦ !(c == '\'' || c == '"' || c == '\\' || isBlankOrBreak c)
    let c := r.head
    if !double && c == '\'' && r.peek 1 == '\'' then
      let (rest, r) ← quotedWord double steps (r.advance 2)
      return (plain ++ '\'' :: rest, r)
    else if (double && c == '\'') || (!double && (c == '"' || c == '\\')) then
      let (rest, r) ← quotedWord double steps r.step
      return (plain ++ c :: rest, r)
    else if double && c == '\\' then
      let (escaped, r) ← quotedEscape r.step
      let (rest, r) ← quotedWord double steps r
      return (plain ++ escaped ++ rest, r)
    else return (plain, r)

/-- Words and blanks up to the closing quote. -/
def quotedRest (double : Bool) : (steps : Nat) → Reader → Except Fault (List Char × Reader)
  | 0, _ => .error .malformed
  | steps + 1, r => do
    let (word, r) ← quotedWord double (r.rest.length + 1) r
    if r.head == (if double then '"' else '\'') then return (word, r.step)
    let (blanks, r) ← quotedBlanks r
    let (rest, r) ← quotedRest double steps r
    return (word ++ blanks ++ rest, r)

/-- A quoted scalar; the reader is at the opening quote. -/
def quotedScalar (double : Bool) (r : Reader) : Except Fault (List Char × Reader) :=
  quotedRest double (r.rest.length + 1) r.step

/-! ## Plain scalars -/

private def isFlowIndicator (c : Char) : Bool :=
  c == ',' || c == '[' || c == ']' || c == '\x7b' || c == '\x7d'

/-- The length of a piece of a plain scalar: up to a blank, to a colon that ends a key, or, inside
a flow collection, to an indicator. -/
def plainLength (flow : Bool) : List Char → Nat
  | [] => 0
  | c :: rest =>
    let next := rest.headD endMark
    if isBlankOrBreak c ||
        (c == ':' && (isBlankOrBreak next || (flow && isFlowIndicator next))) ||
        (flow && (c == '?' || isFlowIndicator c)) then 0
    else 1 + plainLength flow rest

/-- The line breaks behind the first one, up to a word or a document separator; `none` at a
separator. -/
def plainBreaks : (steps : Nat) → Reader → Option (List Char) × Reader
  | 0, r => (some [], r)
  | steps + 1, r =>
    if r.atSeparator then (none, r) else
      let r := r.skipSpaces
      match r.lineBreak with
      | ([], _) => (some [], r)
      | (line, r) =>
        let (rest, r) := plainBreaks steps r
        (rest.map (line ++ ·), r)

/-- What stands between two pieces of a plain scalar. -/
structure PlainGap where
  /-- The characters that join the pieces; without any, the scalar ends. -/
  joint : List Char
  /-- Whether a line ended. -/
  newLine : Bool
  reader : Reader

/-- The spaces and line breaks behind a piece of a plain scalar. -/
def plainGap (r : Reader) : PlainGap :=
  let (spaces, r) := r.span (· == ' ')
  match r.lineBreak with
  | ([], _) => ⟨spaces, false, r⟩
  | (line, r) =>
    match plainBreaks (r.rest.length + 1) r with
    | (none, r) => ⟨[], true, r⟩
    | (some breaks, r) =>
      ⟨(if line != ['\n'] then line else if breaks.isEmpty then [' '] else []) ++ breaks, true, r⟩

/-- The pieces of a plain scalar behind `joint`, and whether the reader is behind the end of a
line. -/
def plainPieces (flow : Bool) (indent : Int) :
    (steps : Nat) → (joint : List Char) → (newLine : Bool) → Reader → List Char × Bool × Reader
  | 0, _, newLine, r => ([], newLine, r)
  | steps + 1, joint, newLine, r =>
    let length := if r.head == '#' then 0 else plainLength flow r.rest
    if length = 0 then ([], newLine, r) else
      let piece := r.rest.take length
      let gap := plainGap (r.advance length)
      if gap.joint.isEmpty || gap.reader.head == '#' ||
          (!flow && (gap.reader.column : Int) < indent) then
        (joint ++ piece, gap.newLine, gap.reader)
      else
        let (rest, newLine, r) := plainPieces flow indent steps gap.joint gap.newLine gap.reader
        (joint ++ piece ++ rest, newLine, r)

/-- A plain scalar whose further lines are indented by at least `indent`, and whether the reader
is behind the end of a line. -/
def plainScalar (flow : Bool) (indent : Int) (r : Reader) : List Char × Bool × Reader :=
  plainPieces flow indent (r.rest.length + 1) [] false r

/-! ## Block scalars -/

/-- What happens to the line breaks at the end of a block scalar. -/
inductive Chomping where
  | strip
  | clip
  | keep
deriving DecidableEq, Repr, Inhabited

private def chomping? (c : Char) : Option Chomping :=
  if c == '+' then some .keep else if c == '-' then some .strip else none

private def increment? (c : Char) : Except Fault (Option Nat) :=
  if c == '0' then .error .malformed
  else if c.isDigit then .ok (some (c.toNat - 48))
  else .ok none

/-- The indicators of a block scalar's header, in either order. -/
def blockIndicators (r : Reader) : Except Fault (Chomping × Option Nat × Reader) := do
  let (chomping, increment, r) ← match chomping? r.head with
    | some chomping => do
      let r := r.step
      match ← increment? r.head with
      | some n => pure (chomping, some n, r.step)
      | none => pure (chomping, none, r)
    | none => do
      match ← increment? r.head with
      | some n =>
        let r := r.step
        match chomping? r.head with
        | some chomping => pure (chomping, some n, r.step)
        | none => pure (Chomping.clip, some n, r)
      | none => pure (Chomping.clip, none, r)
  if isSpaceOrBreak r.head then return (chomping, increment, r) else .error .malformed

/-- The empty lines in front of a block scalar, and the greatest column of a space among them. -/
def blockIndentation : (steps : Nat) → (greatest : Nat) → Reader → List Char × Nat × Reader
  | 0, greatest, r => ([], greatest, r)
  | steps + 1, greatest, r =>
    if r.head == ' ' then
      let r := r.step
      blockIndentation steps (max greatest r.column) r
    else
      match r.lineBreak with
      | ([], _) => ([], greatest, r)
      | (line, r) =>
        let (rest, greatest, r) := blockIndentation steps greatest r
        (line ++ rest, greatest, r)

/-- The reader behind spaces that come before the column of the indentation. -/
def skipIndent (indent : Nat) : (steps : Nat) → Reader → Reader
  | 0, r => r
  | steps + 1, r =>
    if r.column < indent && r.head == ' ' then skipIndent indent steps r.step else r

/-- The empty lines that follow, and the indentation of the next line. -/
def blockBreaks (indent : Nat) : (steps : Nat) → Reader → List Char × Reader
  | 0, r => ([], r)
  | steps + 1, r =>
    let r := skipIndent indent indent r
    match r.lineBreak with
    | ([], _) => ([], r)
    | (line, r) =>
      let (rest, r) := blockBreaks indent steps r
      (line ++ rest, r)

/-- The lines of a block scalar, given the empty lines in front of the next one. The result is
the text so far, the last line break and the empty lines behind it. -/
def blockLines (folded : Bool) (indent : Nat) :
    (steps : Nat) → (breaks : List Char) → Reader → List Char × List Char × List Char × Reader
  | 0, breaks, r => ([], [], breaks, r)
  | steps + 1, breaks, r =>
    if r.column ≠ indent ∨ r.head = endMark then ([], [], breaks, r) else
      let blank := fun c : Char ↦ c == ' ' || c == '\t'
      let leadingBlank := blank r.head
      let (line, r) := r.span fun c ↦ !isBreakOrEnd c
      let (lineEnd, r) := r.lineBreak
      let (next, r) := blockBreaks indent (r.rest.length + 1) r
      if r.column = indent ∧ r.head ≠ endMark then
        let joint :=
          if folded && lineEnd == ['\n'] && !leadingBlank && !blank r.head then
            if next.isEmpty then [' '] else []
          else lineEnd
        let (rest, lastEnd, trailing, r) := blockLines folded indent steps next r
        (breaks ++ line ++ joint ++ rest, lastEnd, trailing, r)
      else (breaks ++ line, lineEnd, next, r)

/-- A block scalar inside a collection of the given indentation; the reader is at the indicator of
its style. -/
def blockScalar (folded : Bool) (parentIndent : Int) (r : Reader) :
    Except Fault (List Char × Reader) := do
  let (chomping, increment, r) ← blockIndicators r.step
  let r ← r.finishLine
  let least := (max (parentIndent + 1) 1).toNat
  let (breaks, indent, r) := match increment with
    | none =>
      let (breaks, greatest, r) := blockIndentation (r.rest.length + 1) 0 r
      (breaks, max least greatest, r)
    | some n =>
      let indent := least + n - 1
      let (breaks, r) := blockBreaks indent (r.rest.length + 1) r
      (breaks, indent, r)
  let (text, lastEnd, trailing, r) := blockLines folded indent (r.rest.length + 1) breaks r
  let ending := match chomping with
    | .strip => []
    | .clip => lastEnd
    | .keep => lastEnd ++ trailing
  return (text ++ ending, r)

end Yaml

end LayeredConfig
