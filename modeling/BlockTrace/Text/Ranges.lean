/-! Sets of code points given by their ranges. -/
namespace BlockTrace.Text

/-- Closed ranges of code points in increasing order. -/
abbrev Ranges := List (Nat × Nat)

/-- Whether one of the ranges holds `n`; the search stops at the first range above it. -/
def Ranges.covers : Ranges → Nat → Bool
  | [], _ => false
  | (low, high) :: rest, n => if n < low then false else n ≤ high || Ranges.covers rest n

end BlockTrace.Text
