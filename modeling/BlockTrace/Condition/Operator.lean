/-! The six comparisons. -/
namespace BlockTrace.Condition

inductive Operator
  | equal
  | notEqual
  | atMost
  | atLeast
  | below
  | above
  deriving DecidableEq, Repr

namespace Operator

/-- The operators in the order that decides between two that stand at the same place: a symbol of
two characters comes before its first character alone. -/
def searchOrder : List Operator :=
  [equal, notEqual, atMost, atLeast, below, above]

def symbol : Operator → String
  | equal => "=="
  | notEqual => "!="
  | atMost => "<="
  | atLeast => ">="
  | below => "<"
  | above => ">"

def holds : Operator → Int32 → Int32 → Bool
  | equal, a, b => a = b
  | notEqual, a, b => a ≠ b
  | atMost, a, b => a ≤ b
  | atLeast, a, b => b ≤ a
  | below, a, b => a < b
  | above, a, b => b < a

end Operator

end BlockTrace.Condition
