import LayeredConfig.Failure

/-!
# Reading a YAML text

A reader is the rest of a text together with its place: the number of characters before it, the
line, and the column. The end of the text reads as the null character, which no text contains.

The line breaks of YAML 1.1 are the carriage return, the line feed, the next line character and
the two Unicode separators.
-/

namespace LayeredConfig

namespace Yaml

/-- Why a text is no YAML document. -/
inductive Fault where
  /-- The text breaks the rules of YAML. -/
  | malformed
  /-- The text is YAML, but one of its scalars cannot be made into a value. -/
  | value (fault : DocumentFault)
deriving DecidableEq, Repr, Inhabited

/-- The character that stands for the end of the text. -/
def endMark : Char := '\x00'

/-- Whether the character ends a line. -/
def isBreak (c : Char) : Bool :=
  c == '\r' || c == '\n' || c == '\u0085' || c == '\u2028' || c == '\u2029'

/-- Whether the character ends a line or the text. -/
def isBreakOrEnd (c : Char) : Bool := c == endMark || isBreak c

/-- Whether the character is a space or ends a line or the text. -/
def isSpaceOrBreak (c : Char) : Bool := c == ' ' || isBreakOrEnd c

/-- Whether the character is a space or a tab or ends a line or the text. -/
def isBlankOrBreak (c : Char) : Bool := c == '\t' || isSpaceOrBreak c

/-- Whether the character may stand in the name of an anchor or a directive. -/
def isNameChar (c : Char) : Bool := c.isAlphanum || c == '-' || c == '_'

/-- Whether the character is a hexadecimal digit. -/
def isHexDigit (c : Char) : Bool := c.isDigit || ('a' ≤ c && c ≤ 'f') || ('A' ≤ c && c ≤ 'F')

/-- The number that hexadecimal digits denote. -/
def hexValue (cs : List Char) : Nat :=
  cs.foldl (fun n c ↦
    16 * n + (if c.isDigit then c.toNat - 48 else if 'a' ≤ c then c.toNat - 87 else c.toNat - 55)) 0

/-- The rest of a text and its place. -/
structure Reader where
  rest : List Char
  index : Nat
  line : Nat
  column : Nat
deriving Repr, Inhabited

namespace Reader

/-- The reader at the start of a text. -/
def ofText (cs : List Char) : Reader := ⟨cs, 0, 0, 0⟩

/-- The character `k` places ahead. -/
def peek (r : Reader) (k : Nat) : Char := r.rest.getD k endMark

/-- The next character. -/
def head (r : Reader) : Char := r.peek 0

/-- The reader behind the next character. A carriage return before a line feed does not end the
line, and a byte order mark takes no column. -/
def step (r : Reader) : Reader :=
  match r.rest with
  | [] => r
  | c :: rest =>
    let r' := { r with rest := rest, index := r.index + 1 }
    if c == '\r' && rest.head? == some '\n' then { r' with column := r.column + 1 }
    else if isBreak c then { r' with line := r.line + 1, column := 0 }
    else if c == '\ufeff' then r'
    else { r' with column := r.column + 1 }

/-- The reader `n` characters further. -/
def advance (r : Reader) : (n : Nat) → Reader
  | 0 => r
  | n + 1 => r.step.advance n

/-- The longest run of characters with a property, and the reader behind it. -/
def span (r : Reader) (p : Char → Bool) : List Char × Reader :=
  let taken := r.rest.takeWhile p
  (taken, r.advance taken.length)

/-- The reader behind a run of spaces. -/
def skipSpaces (r : Reader) : Reader := (r.span (· == ' ')).2

/-- The reader behind a comment, if one starts here. -/
def skipComment (r : Reader) : Reader :=
  if r.head == '#' then (r.span fun c ↦ !isBreakOrEnd c).2 else r

/-- A line break as it is kept in a scalar, and the reader behind it; nothing and the same reader
if no line ends here. -/
def lineBreak (r : Reader) : List Char × Reader :=
  let c := r.head
  if c == '\r' && r.peek 1 == '\n' then (['\n'], r.advance 2)
  else if c == '\r' || c == '\n' || c == '\u0085' then (['\n'], r.step)
  else if c == '\u2028' || c == '\u2029' then ([c], r.step)
  else ([], r)

/-- Whether `---` or `...` stands here by itself. -/
def atSeparator (r : Reader) : Bool :=
  let marker := r.rest.take 3
  (marker == ['-', '-', '-'] || marker == ['.', '.', '.']) && isBlankOrBreak (r.peek 3)

/-- The rest of a line that may hold spaces and a comment only, and the reader on the next
line. -/
def finishLine (r : Reader) : Except Fault Reader :=
  let r := r.skipSpaces.skipComment
  if isBreakOrEnd r.head then .ok r.lineBreak.2 else .error .malformed

/-- The reader at the next token, behind spaces, comments and line breaks, and whether a line
ended on the way; `steps` bounds the number of lines. -/
def toNextToken : (steps : Nat) → Reader → Bool × Reader
  | 0, r => (false, r)
  | steps + 1, r =>
    let r := r.skipSpaces.skipComment
    match r.lineBreak with
    | ([], _) => (false, r)
    | (_, next) => (true, (toNextToken steps next).2)

end Reader

end Yaml

end LayeredConfig
