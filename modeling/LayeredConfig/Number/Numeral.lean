import LayeredConfig.Number.Binary64
import LayeredConfig.Text.Alphanumeric
import LayeredConfig.Text.Blank

/-!
# Numerals

How a text is read as an integer or as a floating-point number. Blanks around the numeral do not
matter, a sign may stand in front, and single underscores may stand between digits. Decimal digits
of any script count. An integer in another base may repeat its base as `0x`, `0o` or `0b`.
-/

namespace LayeredConfig

namespace Numeral

/-- The value of a digit in bases up to 36. -/
def digit? (c : Char) : Option Nat :=
  if 'a' ≤ c ∧ c ≤ 'z' then some (c.toNat - 87)
  else if 'A' ≤ c ∧ c ≤ 'Z' then some (c.toNat - 55)
  else decimalDigit? c

/-- The value of a digit below the base. -/
def digitBelow? (base : Nat) (c : Char) : Option Nat := (digit? c).filter (· < base)

/-- A sign in front, and what follows. -/
def splitSign : List Char → Bool × List Char
  | '-' :: cs => (true, cs)
  | '+' :: cs => (false, cs)
  | cs => (false, cs)

/-- The most decimal digits that an integer may have. -/
def maxDecimalDigits : Nat := 4300

/-- The digits of a text that consists of digits with single underscores between them. -/
def digits? (base : Nat) : List Char → Option (List Nat)
  | [] => none
  | [c] => (digitBelow? base c).map ([·])
  | c :: '_' :: rest => do return (← digitBelow? base c) :: (← digits? base rest)
  | c :: rest => do return (← digitBelow? base c) :: (← digits? base rest)

/-- The number with the given digits, the most significant first. -/
def ofDigits (base : Nat) (digits : List Nat) : Nat := digits.foldl (fun n d ↦ base * n + d) 0

/-- The letter that repeats a base behind a zero. -/
def baseLetter? (base : Nat) : Option Char :=
  if base = 16 then some 'x' else if base = 8 then some 'o' else if base = 2 then some 'b' else none

/-- A text without the repetition of its base; one underscore may follow it. -/
def dropBase (base : Nat) : List Char → List Char
  | '0' :: letter :: rest =>
    if baseLetter? base = some letter.toLower then
      match rest with
      | '_' :: rest => rest
      | rest => rest
    else '0' :: letter :: rest
  | cs => cs

/-- The integer that a text denotes in a base. -/
def int? (base : Nat) (cs : List Char) : Option Int := do
  let (negative, cs) := splitSign (trimChars cs)
  let digits ← digits? base (dropBase base cs)
  if base = 10 ∧ maxDecimalDigits < digits.length then none
  let n : Int := ofDigits base digits
  return if negative then -n else n

/-- Decimal digits with single underscores between them at the start of a text, and what
follows. An underscore that no digit follows is left where it is. -/
def spanDigits : List Char → List Nat × List Char
  | [] => ([], [])
  | [c] =>
    match decimalDigit? c with
    | some d => ([d], [])
    | none => ([], [c])
  | c :: '_' :: next :: rest =>
    match decimalDigit? c, decimalDigit? next with
    | some d, some _ =>
      let (ds, rest) := spanDigits (next :: rest)
      (d :: ds, rest)
    | some d, none => ([d], '_' :: next :: rest)
    | none, _ => ([], c :: '_' :: next :: rest)
  | c :: rest =>
    match decimalDigit? c with
    | some d =>
      let (ds, rest) := spanDigits rest
      (d :: ds, rest)
    | none => ([], c :: rest)

/-- The exponent that makes up the rest of a decimal numeral. -/
def exponent? : List Char → Option Int
  | [] => some 0
  | e :: cs =>
    if e = 'e' ∨ e = 'E' then
      let (negative, cs) := splitSign cs
      match spanDigits cs with
      | ([], _) => none
      | (ds, []) => some (if negative then -(ofDigits 10 ds : Int) else ofDigits 10 ds)
      | _ => none
    else none

/-- The floating-point number that a decimal numeral without sign denotes. -/
def unsignedFloat? (negative : Bool) (cs : List Char) : Option Binary64 := do
  let lower := cs.map Char.toLower
  if lower = "inf".toList ∨ lower = "infinity".toList then return .infinite negative
  if lower = "nan".toList then return .nan 0
  let (whole, rest) := spanDigits cs
  let (fraction, rest) := match rest with
    | '.' :: rest => spanDigits rest
    | rest => ([], rest)
  if whole.isEmpty ∧ fraction.isEmpty then none
  let exponent ← exponent? rest
  return .ofDecimal negative (ofDigits 10 (whole ++ fraction)) (exponent - fraction.length)

/-- The floating-point number that a text denotes. -/
def float? (cs : List Char) : Option Binary64 :=
  let (negative, cs) := splitSign (trimChars cs)
  unsignedFloat? negative cs

end Numeral

end LayeredConfig
