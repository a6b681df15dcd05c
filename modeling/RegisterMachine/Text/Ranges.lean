/-!
# Sets of characters as ranges

A property of characters is kept as a list of closed ranges of code points, ascending and apart, and
looked up by a linear pass that stops at the first range reaching the character.
-/

namespace RegisterMachine.Text

/-- Whether `n` lies in one of the closed ranges, which are in ascending order. -/
def inRanges : List (Nat × Nat) → Nat → Bool
  | [], _ => false
  | (lo, hi) :: rest, n => if n ≤ hi then lo ≤ n else inRanges rest n

end RegisterMachine.Text
