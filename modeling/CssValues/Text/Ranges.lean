/-!
# Sets of code points

A set of code points is written as its maximal ranges in increasing order.
-/

namespace CssValues.Text

/-- Ranges of code points, ends included, in increasing order. -/
abbrev CodeRanges := List (Nat × Nat)

/-- Whether `n` lies in one of the ranges. The search stops at the first range above `n`. -/
def CodeRanges.has : CodeRanges → Nat → Bool
  | [], _ => false
  | (first, last) :: rest, n =>
    if n < first then false else if n ≤ last then true else CodeRanges.has rest n

end CssValues.Text
