import LayeredConfig.Yaml.Reader

/-!
# Implicit types

A plain scalar without a tag gets its type from its spelling. The spellings are those of YAML 1.1:
truth values as words, integers in four bases and in sixties, floating-point numbers with a point,
timestamps, the empty value, the merge key `<<` and the default key `=`. A spelling counts also
with a line feed behind it. Everything else is a text.
-/

namespace LayeredConfig

namespace Yaml

/-- The types that a node can have; a tag that is none of them is kept. -/
inductive Tag where
  | null
  | bool
  | int
  | float
  | binary
  | timestamp
  | str
  | seq
  | map
  | set
  | omap
  | pairs
  | merge
  | value
  | unknown (name : String)
deriving DecidableEq, Repr, Inhabited

/-- What the names of the standard types start with. -/
def standardPrefix : String := "tag:yaml.org,2002:"

/-- The names of the types that have a construction, behind the common start. -/
def tagNames : List (String × Tag) := [
  ("null", .null), ("bool", .bool), ("int", .int), ("float", .float), ("binary", .binary),
  ("timestamp", .timestamp), ("str", .str), ("seq", .seq), ("map", .map), ("set", .set),
  ("omap", .omap), ("pairs", .pairs), ("merge", .merge), ("value", .value)]

/-- The type with the given full name. -/
def Tag.ofName (name : String) : Tag :=
  match tagNames.find? fun (short, _) ↦ standardPrefix ++ short == name with
  | some (_, tag) => tag
  | none => .unknown name

/-! ## Spellings -/

namespace Spelling

/-- Whether a text has one of the spellings. -/
private def oneOf (words : List String) (cs : List Char) : Bool := words.contains (String.ofList cs)

/-- Whether the text is a truth value. -/
def isBool : List Char → Bool := oneOf [
  "yes", "Yes", "YES", "no", "No", "NO", "true", "True", "TRUE", "false", "False", "FALSE",
  "on", "On", "ON", "off", "Off", "OFF"]

/-- Whether the text is the empty value. -/
def isNull : List Char → Bool := oneOf ["", "~", "null", "Null", "NULL"]

/-- The text without a sign in front. -/
def unsigned : List Char → List Char
  | '-' :: cs => cs
  | '+' :: cs => cs
  | cs => cs

private def isDigitOrLow (c : Char) : Bool := c.isDigit || c == '_'

/-- The text behind one or more groups of a colon and a number below sixty; `none` if there is no
group. A second digit belongs to a group only if the first is below six. -/
def sixties? : List Char → Option (List Char)
  | ':' :: d :: e :: rest =>
    if d.isDigit then
      if d < '6' && e.isDigit then some ((sixties? rest).getD rest)
      else some ((sixties? (e :: rest)).getD (e :: rest))
    else none
  | [':', d] => if d.isDigit then some [] else none
  | _ => none

/-- Whether the text is an exponent with a sign. -/
def isExponent : List Char → Bool
  | e :: sign :: digits =>
    (e == 'e' || e == 'E') && (sign == '-' || sign == '+') && !digits.isEmpty &&
      digits.all Char.isDigit
  | _ => false

/-- Whether the text is nothing or an exponent with a sign. -/
private def endsDecimal (cs : List Char) : Bool := cs.isEmpty || isExponent cs

/-- Whether the text is an integer. -/
def isInt (cs : List Char) : Bool :=
  match unsigned cs with
  | ['0'] => true
  | '0' :: 'b' :: rest => !rest.isEmpty && rest.all fun c ↦ c == '0' || c == '1' || c == '_'
  | '0' :: 'x' :: rest => !rest.isEmpty && rest.all fun c ↦ isHexDigit c || c == '_'
  | '0' :: rest => rest.all fun c ↦ ('0' ≤ c && c ≤ '7') || c == '_'
  | c :: rest =>
    '1' ≤ c && c ≤ '9' &&
      (let tail := rest.dropWhile isDigitOrLow
       tail.isEmpty || sixties? tail == some [])
  | [] => false

/-- Whether the text is a floating-point number. -/
def isFloat (cs : List Char) : Bool :=
  oneOf [".nan", ".NaN", ".NAN"] cs ||
  (match unsigned cs with
   | '.' :: rest =>
     oneOf ["inf", "Inf", "INF"] rest ||
       (cs.head? == some '.' && (rest.head?.any Char.isDigit) &&
         endsDecimal (rest.dropWhile isDigitOrLow))
   | c :: rest =>
     c.isDigit &&
       (match rest.dropWhile isDigitOrLow with
        | '.' :: fraction => endsDecimal (fraction.dropWhile isDigitOrLow)
        | tail =>
          match sixties? tail with
          | some ('.' :: fraction) => fraction.all isDigitOrLow
          | _ => false)
   | [] => false)

/-- The rest behind a run of `least` to `most` digits, as many as there are. -/
def digits? (least most : Nat) (cs : List Char) : Option (List Char × List Char) :=
  let run := (cs.take most).takeWhile Char.isDigit
  if least ≤ run.length then some (run, cs.drop run.length) else none

/-- The rest behind an expected character. -/
def expect? (c : Char) : List Char → Option (List Char)
  | d :: rest => if d == c then some rest else none
  | [] => none

end Spelling

/-- The fields of a timestamp as they are written. -/
structure TimestampFields where
  year : List Char
  month : List Char
  day : List Char
  /-- Hour, minute, second and the digits of a fraction. -/
  clock : Option (List Char × List Char × List Char × List Char)
  /-- Nothing, universal time, or a sign with hours and minutes. -/
  zone : Option (Option (Bool × List Char × List Char))
deriving Repr, Inhabited

namespace TimestampFields

open Spelling

/-- The zone that makes up the rest of a text. -/
def zone? (cs : List Char) : Option (Option (Option (Bool × List Char × List Char))) :=
  match cs.dropWhile fun c ↦ c == ' ' || c == '\t' with
  | [] => if cs.isEmpty then some none else none
  | ['Z'] => some (some none)
  | sign :: rest => do
    guard (sign == '-' || sign == '+')
    let (hours, rest) ← digits? 1 2 rest
    match rest with
    | [] => return some (some (sign == '-', hours, []))
    | ':' :: rest => do
      let (minutes, rest) ← digits? 2 2 rest
      guard rest.isEmpty
      return some (some (sign == '-', hours, minutes))
    | _ => none

/-- The fields of a text that is laid out as a timestamp. -/
def ofText? (cs : List Char) : Option TimestampFields := do
  let (year, cs) ← digits? 4 4 cs
  let (month, cs) ← digits? 1 2 (← expect? '-' cs)
  let (day, cs) ← digits? 1 2 (← expect? '-' cs)
  if cs.isEmpty then return ⟨year, month, day, none, none⟩
  let cs ← match cs with
    | 'T' :: rest => some rest
    | 't' :: rest => some rest
    | c :: rest =>
      if c == ' ' || c == '\t' then some (rest.dropWhile fun c ↦ c == ' ' || c == '\t') else none
    | [] => none
  let (hour, cs) ← digits? 1 2 cs
  let (minute, cs) ← digits? 2 2 (← expect? ':' cs)
  let (second, cs) ← digits? 2 2 (← expect? ':' cs)
  let (fraction, cs) := match cs with
    | '.' :: rest => rest.span Char.isDigit
    | cs => ([], cs)
  let zone ← zone? cs
  return ⟨year, month, day, some (hour, minute, second, fraction), zone⟩

/-- Whether a plain scalar with these fields is a timestamp: a date alone has two digits for month
and day. -/
def isImplicit (t : TimestampFields) : Bool :=
  t.clock.isSome || (t.month.length == 2 && t.day.length == 2)

end TimestampFields

/-- The type of a plain scalar. -/
def implicitTag (text : String) : Tag :=
  let cs := text.toList
  let cs := if 1 < cs.length && cs.getLast? == some '\n' then cs.dropLast else cs
  if Spelling.isBool cs then .bool
  else if Spelling.isFloat cs then .float
  else if Spelling.isInt cs then .int
  else if cs == ['<', '<'] then .merge
  else if Spelling.isNull cs then .null
  else if (TimestampFields.ofText? cs).any TimestampFields.isImplicit then .timestamp
  else if cs == ['='] then .value
  else if cs == ['!'] || cs == ['&'] || cs == ['*'] then .unknown (standardPrefix ++ "yaml")
  else .str

end Yaml

end LayeredConfig
