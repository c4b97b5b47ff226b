/-! Membership of a code point in a table of closed ranges. -/
namespace BasicMachine

/-- The table is in increasing order, so the search ends at the first range beyond the point. -/
def inRanges : List (Nat × Nat) → Nat → Bool
  | [], _ => false
  | (a, b) :: rest, n => if n < a then false else if n ≤ b then true else inRanges rest n

end BasicMachine
