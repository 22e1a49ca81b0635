import LayeredConfig.Number.Binary64

/-!
# The shortest decimal of a floating-point number

A finite number is written with the fewest digits that read back as the same number, and among
those with the digits nearest to it.

## Finding the digits

The numbers that round to `m · 2 ^ e` form an interval; its ends belong to it exactly when `m` is
even. For one digit, two digits and so on up to seventeen, the two neighbours of the value on the
decimal grid of that many digits are tested against the interval in exact integer arithmetic. The
first grid with a hit gives the fewest digits, because a grid that has a point in the interval has
a neighbour of the value in it.

## Writing them

The layout is a record (`DecimalLayout`): between two powers of ten the digits are written in
positional notation with at least one place behind the point, elsewhere with an exponent of at
least two digits and a sign.
-/

namespace LayeredConfig

namespace Binary64

/-- The decimal digits of a number, without leading zeros. -/
def decimalText (n : Nat) : List Char := Nat.toDigits 10 n

/-- The value and the half-way points to its neighbours, all as multiples of `2 ^ unit`. -/
structure Interval where
  low : Nat
  value : Nat
  high : Nat
  unit : Int
  /-- Whether the ends round to the value. -/
  closed : Bool

/-- The interval of the numbers that round to `m · 2 ^ e`. Below a power of two the neighbour is
half as far away. -/
def interval (m : Nat) (e : Int) : Interval :=
  { low := if m = normalLeast ∧ minExponent < e then 4 * m - 1 else 4 * m - 2
    value := 4 * m
    high := 4 * m + 2
    unit := e - 2
    closed := m % 2 = 0 }

/-- A multiple of `2 ^ unit`, scaled so that it compares with decimals `c · 10 ^ k`. -/
private def scaleBinary (unit k : Int) (x : Nat) : Nat := raiseDecimal (raise x unit) (-k)

/-- A decimal `c · 10 ^ k`, scaled so that it compares with multiples of `2 ^ unit`. -/
private def scaleDecimal (unit k : Int) (c : Nat) : Nat := raise (raiseDecimal c k) (-unit)

/-- Whether `c · 10 ^ k` lies in the interval. -/
def Interval.holds (i : Interval) (k : Int) (c : Nat) : Bool :=
  let x := scaleDecimal i.unit k c
  let low := scaleBinary i.unit k i.low
  let high := scaleBinary i.unit k i.high
  if i.closed then low ≤ x && x ≤ high else low < x && x < high

/-- The greatest point of the grid of `10 ^ k` that is not above the value. -/
def Interval.floor (i : Interval) (k : Int) : Nat :=
  scaleBinary i.unit k i.value / scaleDecimal i.unit k 1

/-- The neighbour of the value on the grid of `10 ^ k` that reads back, the nearer of two. -/
def Interval.pick? (i : Interval) (k : Int) : Option Nat :=
  let c := i.floor k
  match i.holds k c, i.holds k (c + 1) with
  | true, true =>
    let below := scaleBinary i.unit k i.value - scaleDecimal i.unit k c
    let above := scaleDecimal i.unit k (c + 1) - scaleBinary i.unit k i.value
    some (if below < above then c else if above < below then c + 1 else c + c % 2)
  | true, false => some c
  | false, true => some (c + 1)
  | false, false => none

/-- The exponent of the leading decimal digit of the value. -/
def Interval.magnitude (i : Interval) : Int :=
  let guess : Int := ((i.value.log2 + i.unit) * 30103).fdiv 100000
  if i.floor guess = 0 then guess - 1
  else if 10 ≤ i.floor guess then guess + 1
  else guess

/-- The shortest digits, trying `fuel` more lengths from `length` on. -/
private def Interval.search (i : Interval) (magnitude : Int) : Nat → Nat → Nat × Int
  | 0, length => (i.floor (magnitude - length), magnitude - length)
  | fuel + 1, length =>
    let k := magnitude - length
    match i.pick? k with
    | some c => (c, k)
    | none => i.search magnitude fuel (length + 1)

/-- The shortest decimal `digits · 10 ^ exponent` that reads back as the positive number
`m · 2 ^ e`. -/
def shortest (m : Nat) (e : Int) : Nat × Int :=
  let i := interval m e
  i.search i.magnitude 17 0

/-- Where a decimal changes from positional notation to an exponent. -/
structure DecimalLayout where
  /-- The least position of the point, relative to the digits, that is written out. -/
  leastPoint : Int
  /-- The greatest such position. -/
  greatestPoint : Int
  /-- The least number of digits of an exponent. -/
  exponentDigits : Nat

/-- Numbers from `0.0001` up to, but excluding, `10 ^ 16` are written out. -/
def layout : DecimalLayout := ⟨-3, 16, 2⟩

private def padLeft (width : Nat) (cs : List Char) : List Char :=
  List.replicate (width - cs.length) '0' ++ cs

/-- The digits with the point at the given position. -/
def DecimalLayout.write (l : DecimalLayout) (digits : List Char) (point : Int) : List Char :=
  if l.leastPoint ≤ point ∧ point ≤ l.greatestPoint then
    if point ≤ 0 then '0' :: '.' :: List.replicate (-point).toNat '0' ++ digits
    else if digits.length ≤ point then
      digits ++ List.replicate (point.toNat - digits.length) '0' ++ ['.', '0']
    else digits.take point.toNat ++ '.' :: digits.drop point.toNat
  else
    let exponent := point - 1
    let fraction := match digits.tail with
      | [] => []
      | rest => '.' :: rest
    digits.take 1 ++ fraction ++ 'e' :: (if exponent < 0 then '-' else '+') ::
      padLeft l.exponentDigits (decimalText exponent.natAbs)

/-- Digits without the zeros at their end. -/
private def stripZeros (digits : List Char) : List Char :=
  (digits.reverse.dropWhile (· == '0')).reverse

/-- The shortest digits of a positive number without zeros at their end, and the position of the
point relative to them. -/
def digitsAndPoint (m : Nat) (e : Int) : List Char × Int :=
  let (c, k) := shortest m e
  let digits := decimalText c
  (stripZeros digits, digits.length + k)

private def signText (negative : Bool) : List Char := if negative then ['-'] else []

/-- The written form of a number. -/
def toText : Binary64 → String
  | .nan _ => "nan"
  | .infinite negative => if negative then "-inf" else "inf"
  | .finite negative m e =>
    if m = 0 then String.ofList (signText negative ++ ['0', '.', '0']) else
      let (digits, point) := digitsAndPoint m e
      String.ofList (signText negative ++ layout.write digits point)

/-- The most places that a number may take when it is written without an exponent. -/
def maxPlainPlaces : Nat := 200

/-- Digits without a point, or with the point inside or in front of them. -/
private def writePlain (digits : List Char) (point : Int) : List Char :=
  if point ≤ 0 then '0' :: '.' :: List.replicate (-point).toNat '0' ++ digits
  else if digits.length ≤ point then
    digits ++ List.replicate (point.toNat - digits.length) '0'
  else digits.take point.toNat ++ '.' :: digits.drop point.toNat

/-- The written form of a number, without an exponent where that does not take too many places. -/
def toPlainText (x : Binary64) : String :=
  match x with
  | .finite negative m e =>
    let (digits, point) := digitsAndPoint m e
    if m = 0 ∨ (layout.leastPoint ≤ point ∧ point ≤ layout.greatestPoint) ∨
        maxPlainPlaces < (point - digits.length).natAbs + digits.length then x.toText
    else String.ofList (signText negative ++ writePlain digits point)
  | x => x.toText

end Binary64

end LayeredConfig
