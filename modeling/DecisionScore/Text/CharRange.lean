/-! # Classes of characters by ranges

A class of characters is a table of disjoint ranges of code points in increasing order;
`CharClass.contains` finds a character by bisection. -/

namespace DecisionScore.Text

/-- Disjoint inclusive ranges of code points, in increasing order. -/
structure CharClass where
  ranges : Array (Nat × Nat)

namespace CharClass

/-- Looks for a code point among the ranges from `lo` up to but not including `hi`. -/
def search (c : CharClass) (x : Nat) : Nat → Nat → Nat → Bool
  | 0, _, _ => false
  | fuel + 1, lo, hi =>
    if hi ≤ lo then false
    else
      let mid := (lo + hi) / 2
      match c.ranges[mid]? with
      | none => false
      | some (first, last) =>
        if x < first then search c x fuel lo mid
        else if last < x then search c x fuel (mid + 1) hi
        else true

/-- Whether a character lies in one of the ranges. -/
def contains (c : CharClass) (x : Char) : Bool :=
  c.search x.toNat (c.ranges.size + 1) 0 c.ranges.size

end CharClass

end DecisionScore.Text
