/-!
# Tables of code points

A class of characters is a list of closed ranges of code points. A table answers one question,
whether it holds a character, so a class reads as data and never as a chain of comparisons.
-/

namespace LayeredConfig

/-- A class of characters as closed ranges of code points. -/
structure RangeTable where
  ranges : List (Nat × Nat)

/-- Whether one of the ranges holds the character. -/
def RangeTable.holds (t : RangeTable) (c : Char) : Bool :=
  t.ranges.any fun (first, last) ↦ first ≤ c.toNat && c.toNat ≤ last

theorem RangeTable.holds_iff (t : RangeTable) (c : Char) :
    t.holds c = true ↔ ∃ r ∈ t.ranges, r.1 ≤ c.toNat ∧ c.toNat ≤ r.2 := by
  simp only [RangeTable.holds, List.any_eq_true, Bool.and_eq_true, decide_eq_true_eq]

end LayeredConfig
