/-!
# Ranges of characters

Sets of characters as ascending lists of ranges of code points.
-/

namespace Exemplar

/-- Whether a code point lies in one of the ranges, which ascend. -/
def inRanges : List (Nat × Nat) → Nat → Bool
  | [], _ => false
  | (low, high) :: rest, n => if n < low then false else n ≤ high || inRanges rest n

end Exemplar
