import LayeredConfig.Template.Expression

/-!
# Tests of a template

What a conditional tag decides on: expressions joined by comparisons, `not`, `and` and `or`, which
bind ever less tightly in this order, `in` standing between the comparisons and `not`. Everything
groups to the left, and there are no parentheses.
-/

namespace LayeredConfig

namespace Template

/-- A relation between two data. -/
inductive Relation where
  | within
  | notWithin
  | same
  | notSame
  | equal
  | notEqual
  | greater
  | atLeast
  | less
  | atMost
deriving DecidableEq, Repr, Inhabited

/-- What a conditional tag decides on. -/
inductive Test where
  | operand (e : Expression)
  | not (t : Test)
  | and (a b : Test)
  | or (a b : Test)
  | related (r : Relation) (a b : Test)
deriving Repr, Inhabited

/-- A word of a test. -/
inductive TestWord where
  | operand (e : Expression)
  | not
  | and
  | or
  | relation (r : Relation)
deriving Repr, Inhabited

namespace TestWord

/-- The operator that a word is. -/
def operator? (word : String) : Option TestWord :=
  match word with
  | "or" => some .or
  | "and" => some .and
  | "not" => some .not
  | "in" => some (.relation .within)
  | "is" => some (.relation .same)
  | "==" => some (.relation .equal)
  | "!=" => some (.relation .notEqual)
  | ">" => some (.relation .greater)
  | ">=" => some (.relation .atLeast)
  | "<" => some (.relation .less)
  | "<=" => some (.relation .atMost)
  | _ => none

/-- The word of a test that a word of a tag is. -/
def ofChars? (cs : List Char) : Option TestWord :=
  match operator? (String.ofList cs) with
  | some word => some word
  | none => (Expression.ofChars? cs).map .operand

/-- The words of a test; `is not` and `not in` are one word each. -/
def ofWords? : List (List Char) → Option (List TestWord)
  | [] => some []
  | first :: second :: rest => do
    if first = "is".toList ∧ second = "not".toList then
      return .relation .notSame :: (← ofWords? rest)
    else if first = "not".toList ∧ second = "in".toList then
      return .relation .notWithin :: (← ofWords? rest)
    else return (← ofChars? first) :: (← ofWords? (second :: rest))
  | [word] => (ofChars? word).map ([·])

/-- How tightly an operator binds; an operand ends what stands before it. -/
def power : TestWord → Nat
  | .operand _ => 0
  | .or => 6
  | .and => 7
  | .not => 8
  | .relation .within => 9
  | .relation .notWithin => 9
  | .relation _ => 10

/-- The test that an operator between two tests makes; `not` stands between none. -/
def join? : TestWord → Test → Test → Option Test
  | .or, a, b => some (.or a b)
  | .and, a, b => some (.and a b)
  | .relation r, a, b => some (.related r a b)
  | _, _, _ => none

end TestWord

mutual

/-- The test at the start of the words, as far as operators bind more tightly than `power`. -/
def testAbove? : (fuel : Nat) → (power : Nat) → List TestWord → Option (Test × List TestWord)
  | 0, _, _ => none
  | fuel + 1, power, .operand e :: rest => continueTest? fuel power (.operand e) rest
  | fuel + 1, power, .not :: rest => do
    let (inner, rest) ← testAbove? fuel (TestWord.power .not) rest
    continueTest? fuel power (.not inner) rest
  | _ + 1, _, _ => none

/-- The test that starts with the given one. -/
def continueTest? : (fuel : Nat) → (power : Nat) → Test → List TestWord →
    Option (Test × List TestWord)
  | 0, _, _, _ => none
  | _ + 1, _, left, [] => some (left, [])
  | fuel + 1, power, left, word :: rest =>
    if power < word.power then do
      let (right, rest) ← testAbove? fuel word.power rest
      continueTest? fuel power (← word.join? left right) rest
    else some (left, word :: rest)

end

/-- The test that the words of a tag are. -/
def Test.ofWords? (words : List (List Char)) : Option Test := do
  let words ← TestWord.ofWords? words
  match ← testAbove? (2 * words.length + 2) 0 words with
  | (test, []) => return test
  | _ => none

end Template

end LayeredConfig
