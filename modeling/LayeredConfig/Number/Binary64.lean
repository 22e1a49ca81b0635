/-!
# Binary floating-point numbers

A floating-point number of 64 bits, kept as what it denotes and not as a machine word, so that
every operation is exact integer arithmetic followed by one rounding. A finite number is
`± significand · 2 ^ exponent` in canonical form: the significand lies below `2 ^ 53`, and it is
at least `2 ^ 52` unless the exponent is the least one, `-1074`.

## Equality

As numbers, the two zeros are equal and a NaN equals nothing, itself included. A NaN carries a
mark that tells one occurrence from another; only a collection that compares its items looks at
it (`LayeredConfig.Scalar.sameOrEqual`).

## Rounding

`ofRatio` rounds a quotient of natural numbers to the nearest number and a tie to the even
significand. Sums, products and decimal texts are first computed exactly as such a quotient.
-/

namespace LayeredConfig

/-- A floating-point number of 64 bits. -/
inductive Binary64 where
  | finite (negative : Bool) (significand : Nat) (exponent : Int)
  | infinite (negative : Bool)
  | nan (mark : Nat)
deriving DecidableEq, Repr, Inhabited

namespace Binary64

/-- The exponent of the smallest positive number. -/
def minExponent : Int := -1074

/-- The exponent of the largest finite numbers. -/
def maxExponent : Int := 971

/-- The least significand of a number above the least exponent, `2 ^ 52`. Every significand lies
below twice this number. -/
def normalLeast : Nat := 1 <<< 52

/-- The product of a number and `2 ^ k`, or the number itself if `k` is negative. -/
def raise (n : Nat) (k : Int) : Nat := n <<< k.toNat

/-- The product of a number and `10 ^ k`, or the number itself if `k` is negative. -/
def raiseDecimal (n : Nat) (k : Int) : Nat := n * Nat.pow 10 k.toNat

/-- A zero of the given sign. -/
def zero (negative : Bool) : Binary64 := .finite negative 0 minExponent

/-- A quotient rounded to a natural number, a half to the even one. -/
def divHalfEven (num den : Nat) : Nat :=
  let q := num / den
  let twice := 2 * (num % den)
  if twice < den then q else if den < twice then q + 1 else q + q % 2

theorem divHalfEven_bounds (num den : Nat) :
    num / den ≤ divHalfEven num den ∧ divHalfEven num den ≤ num / den + 1 := by
  unfold divHalfEven
  dsimp only
  split
  · omega
  · split <;> omega

/-- The quotient `num / den` divided by `2 ^ exponent`, as a quotient again. -/
def unscale (num den : Nat) (exponent : Int) : Nat × Nat :=
  (raise num (-exponent), raise den exponent)

/-- The number nearest to `± num / den`. -/
def ofRatio (negative : Bool) (num den : Nat) : Binary64 :=
  if num = 0 ∨ den = 0 then zero negative else
    let guess : Int := (num.log2 : Int) - den.log2 - 53
    let (n, d) := unscale num den guess
    let exponent := max minExponent (if n / d < 2 * normalLeast then guess else guess + 1)
    let (n, d) := unscale num den exponent
    let significand := divHalfEven n d
    let (significand, exponent) :=
      if significand = 2 * normalLeast then (normalLeast, exponent + 1)
      else (significand, exponent)
    if maxExponent < exponent then .infinite negative else .finite negative significand exponent

/-- The number nearest to `± significand · 2 ^ exponent`. -/
def ofScaled (negative : Bool) (significand : Nat) (exponent : Int) : Binary64 :=
  ofRatio negative (raise significand exponent) (raise 1 (-exponent))

/-- The number nearest to an integer. -/
def ofInt (n : Int) : Binary64 := ofRatio (n < 0) n.natAbs 1

/-- The number nearest to `± digits · 10 ^ exponent`. Exponents far outside the range of finite
numbers are answered without computing the power. -/
def ofDecimal (negative : Bool) (digits : Nat) (exponent : Int) : Binary64 :=
  if digits = 0 then zero negative
  else if 400 < exponent then .infinite negative
  else if exponent + digits.log2 / 3 + 1 < -400 then zero negative
  else ofRatio negative (raiseDecimal digits exponent) (raiseDecimal 1 (-exponent))

/-- Whether the sign bit is set; a NaN counts as positive. -/
def isNegative : Binary64 → Bool
  | .finite negative _ _ => negative
  | .infinite negative => negative
  | .nan _ => false

/-- The same number with the opposite sign. -/
def neg : Binary64 → Binary64
  | .finite negative m e => .finite (!negative) m e
  | .infinite negative => .infinite (!negative)
  | .nan mark => .nan mark

/-- The signed significand of a finite number. -/
def signed (negative : Bool) (m : Nat) : Int := if negative then -(m : Int) else m

/-- The product, rounded once. -/
def mul : Binary64 → Binary64 → Binary64
  | .finite s m e, .finite t n f => ofScaled (s != t) (m * n) (e + f)
  | .nan mark, _ => .nan mark
  | _, .nan mark => .nan mark
  | .infinite s, .finite t n _ => if n = 0 then .nan 0 else .infinite (s != t)
  | .finite s m _, .infinite t => if m = 0 then .nan 0 else .infinite (s != t)
  | .infinite s, .infinite t => .infinite (s != t)

/-- The sum, rounded once. A sum that cancels is a positive zero unless both numbers are
negative. -/
def add : Binary64 → Binary64 → Binary64
  | .finite s m e, .finite t n f =>
    let low := min e f
    let total := signed s (raise m (e - low)) + signed t (raise n (f - low))
    if total = 0 then zero (s && t) else ofScaled (total < 0) total.natAbs low
  | .nan mark, _ => .nan mark
  | _, .nan mark => .nan mark
  | .infinite s, .infinite t => if s = t then .infinite s else .nan 0
  | .infinite s, _ => .infinite s
  | _, .infinite t => .infinite t

/-- Equality of numbers. -/
def equal : Binary64 → Binary64 → Bool
  | .finite s m e, .finite t n f => (m == 0 && n == 0) || (s == t && m == n && e == f)
  | .infinite s, .infinite t => s == t
  | _, _ => false

/-- Equality of a number and an integer. -/
def equalInt : Binary64 → Int → Bool
  | .finite s m e, k => signed s (raise m e) == k * raise 1 (-e)
  | _, _ => false

/-- Whether the number is a zero of either sign. -/
def isZero : Binary64 → Bool
  | .finite _ m _ => m == 0
  | _ => false

/-- The integer part of a finite number, toward zero. -/
def truncate? : Binary64 → Option Int
  | .finite s m e => some (signed s (raise m e / raise 1 (-e)))
  | _ => none

/-- The smallest integer that is not below the number; infinities and NaN have none. -/
def ceiling? (x : Binary64) : Option Int :=
  x.truncate?.map fun n ↦ if x.equalInt n || x.isNegative then n else n + 1

/-- Whether two finite or infinite numbers stand in ascending order; false with a NaN. -/
def less : Binary64 → Binary64 → Bool
  | .finite s m e, .finite t n f =>
    let low := min e f
    signed s (raise m (e - low)) < signed t (raise n (f - low))
  | .infinite s, .infinite t => s && !t
  | .infinite s, .finite .. => s
  | .finite .., .infinite t => !t
  | _, _ => false

theorem equal_refl_finite (s : Bool) (m : Nat) (e : Int) :
    equal (.finite s m e) (.finite s m e) = true := by simp [equal]

theorem equal_nan (k : Nat) (x : Binary64) : equal (.nan k) x = false := by cases x <;> rfl

theorem equal_comm (x y : Binary64) : equal x y = equal y x := by
  cases x <;> cases y <;> simp [equal, Bool.and_comm, Bool.beq_comm]

end Binary64

end LayeredConfig
