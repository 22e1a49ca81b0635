import LayeredConfig.Template.Datum
import LayeredConfig.Template.Word

/-!
# Expressions of a template

An expression is an operand and a chain of filters, as in `env.HOME|default:"/"|upper`. An operand
is a quoted text, a number, or a path of names. A quoted text is markup, so it is never escaped.

Blanks may stand around the bar of a filter and nowhere else. The number of parameters of a filter
is part of the grammar, so a wrong number is found when the template is read.
-/

namespace LayeredConfig

namespace Template

/-- What an expression starts with, and what filters take as parameter. -/
inductive Operand where
  | markup (s : String)
  | number (x : Scalar)
  | path (names : List String)
deriving Repr, Inhabited

/-- A change of a datum. -/
inductive Filter where
  | default (fallback : Operand)
  | defaultIfNull (fallback : Operand)
  | upper
  | lower
  | length
  | add (summand : Operand)
  | escape
  | safe
  | first
  | cut (needle : Operand)
deriving Repr, Inhabited

/-- An operand and the filters behind it. -/
structure Expression where
  operand : Operand
  filters : List Filter
deriving Repr, Inhabited

/-- The text between quotes, a backslash taken off quotes and backslashes. -/
def unquote (quoted : List Char) : List Char :=
  let inside := quoted.tail.dropLast
  let quote := quoted.headD '"'
  replaceAll ['\\', '\\'] ['\\'] (replaceAll ['\\', quote] [quote] inside)

/-- The number that a name is, if it is one. A point at the end makes it a name. -/
def numberName? (cs : List Char) : Option Scalar :=
  if cs.contains '.' || cs.contains 'e' || cs.contains 'E' then
    if cs.getLast? = some '.' then none else (Numeral.float? cs).map .float
  else (Numeral.int? 10 cs).map .int

/-- The operand that a name stands for. Names do not start with an underscore at any place of a
path, and they hold no signs. -/
def Operand.ofName? (cs : List Char) : Option Operand :=
  match numberName? cs with
  | some x => some (.number x)
  | none =>
    let names := splitAt (· == '.') cs
    if (names.any fun name ↦ name.head? = some '_') || cs.contains '+' || cs.contains '-' then none
    else some (.path (names.map String.ofList))

/-- A text marked for localization. It stays as it is, but every `%` is doubled. -/
private def localized? : List Char → Option (Operand × List Char)
  | '_' :: '(' :: rest => do
    let (quoted, after) ← quotedText? rest
    match after with
    | ')' :: after =>
      let text := replaceAll ['%'] ['%', '%'] (unquote quoted)
      return (.markup (String.ofList text), after)
    | _ => none
  | _ => none

/-- The text of a name at the start, and what follows: letters, digits, underscores and points, or
a number with a sign. -/
private def nameText (cs : List Char) : List Char × List Char :=
  let isPart (c : Char) : Bool := isWordChar c || c == '.'
  match cs with
  | sign :: digit :: rest =>
    if (sign = '+' ∨ sign = '-') ∧ (decimalDigit? digit).isSome then
      let isDigit (c : Char) : Bool := (decimalDigit? c).isSome || c == '.' || c == 'e'
      (sign :: digit :: rest.takeWhile isDigit, rest.dropWhile isDigit)
    else (cs.takeWhile isPart, cs.dropWhile isPart)
  | _ => (cs.takeWhile isPart, cs.dropWhile isPart)

/-- The operand at the start of a text, and what follows. -/
def operand? (cs : List Char) : Option (Operand × List Char) :=
  match localized? cs with
  | some found => some found
  | none =>
    match quotedText? cs with
    | some (quoted, after) => some (.markup (String.ofList (unquote quoted)), after)
    | none =>
      match nameText cs with
      | ([], _) => none
      | (name, after) => (Operand.ofName? name).map (·, after)

/-- The filter with the given name and parameter. -/
def Filter.ofName? (name : String) (parameter : Option Operand) : Option Filter :=
  match name, parameter with
  | "default", some p => some (.default p)
  | "default_if_none", some p => some (.defaultIfNull p)
  | "upper", none => some .upper
  | "lower", none => some .lower
  | "length", none => some .length
  | "add", some p => some (.add p)
  | "escape", none => some .escape
  | "safe", none => some .safe
  | "first", none => some .first
  | "cut", some p => some (.cut p)
  | _, _ => none

/-- The filters that make up the rest of an expression. -/
def filters? : (fuel : Nat) → List Char → Option (List Filter)
  | _, [] => some []
  | 0, _ :: _ => none
  | fuel + 1, c :: cs =>
    match trimStart (c :: cs) with
    | '|' :: rest =>
      let rest := trimStart rest
      let name := String.ofList (rest.takeWhile isWordChar)
      let behind := rest.dropWhile isWordChar
      match behind with
      | ':' :: rest => do
        let (parameter, after) ← operand? rest
        return (← Filter.ofName? name (some parameter)) :: (← filters? fuel after)
      | after => do return (← Filter.ofName? name none) :: (← filters? fuel after)
    | _ => none

/-- The expression that a text is. -/
def Expression.ofChars? (cs : List Char) : Option Expression := do
  let (operand, after) ← operand? cs
  return ⟨operand, ← filters? after.length after⟩

end Template

end LayeredConfig
