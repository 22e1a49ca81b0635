import LayeredConfig.Calendar.Date

/-!
# Reading the ISO layout

`Date.ofIso?` and `DateTime.ofIso?` read what `isoText` writes: the date, the letter `T`, the
clock, an optional fraction of a second in six digits, and an optional distance from universal
time.
-/

namespace LayeredConfig

namespace Iso

/-- The value of a run of ASCII digits. -/
def digitsValue (cs : List Char) : Nat :=
  cs.foldl (fun n c ↦ 10 * n + (c.toNat - '0'.toNat)) 0

/-- A number of exactly `width` digits at the start, and what follows. -/
def number? (width : Nat) (cs : List Char) : Option (Nat × List Char) :=
  let digits := cs.take width
  if digits.length = width ∧ digits.all Char.isDigit then some (digitsValue digits, cs.drop width)
  else none

/-- The rest behind an expected character. -/
def expect? (c : Char) : List Char → Option (List Char)
  | d :: rest => if d = c then some rest else none
  | [] => none

/-- A date at the start, and what follows. -/
def date? (cs : List Char) : Option (Date × List Char) := do
  let (year, cs) ← number? 4 cs
  let (month, cs) ← number? 2 (← expect? '-' cs)
  let (day, cs) ← number? 2 (← expect? '-' cs)
  return (← Date.of? year month day, cs)

/-- An optional fraction at the start, in microseconds. -/
def fraction? : List Char → Option (Nat × List Char)
  | '.' :: cs => number? 6 cs
  | cs => some (0, cs)

/-- The distance from universal time that makes up the rest of the text. -/
def offset? : List Char → Option (Option Int)
  | [] => some none
  | sign :: cs => do
    guard (sign = '+' ∨ sign = '-')
    let (hours, cs) ← number? 2 cs
    let (minutes, cs) ← number? 2 (← expect? ':' cs)
    let seconds ← match cs with
      | [] => some 0
      | cs => do
        let (seconds, cs) ← number? 2 (← expect? ':' cs)
        if cs.isEmpty then some seconds else none
    let total : Int := (hours * 3600 + minutes * 60 + seconds : Nat)
    return some (if sign = '-' then -total else total)

end Iso

/-- The date written as `year-month-day`. -/
def Date.ofIso? (s : String) : Option Date := do
  let (date, rest) ← Iso.date? s.toList
  if rest.isEmpty then some date else none

/-- The time written in the ISO layout. -/
def DateTime.ofIso? (s : String) : Option DateTime := do
  let (date, cs) ← Iso.date? s.toList
  let (hour, cs) ← Iso.number? 2 (← Iso.expect? 'T' cs)
  let (minute, cs) ← Iso.number? 2 (← Iso.expect? ':' cs)
  let (second, cs) ← Iso.number? 2 (← Iso.expect? ':' cs)
  let (microsecond, cs) ← Iso.fraction? cs
  DateTime.of? date hour minute second microsecond (← Iso.offset? cs)

end LayeredConfig
