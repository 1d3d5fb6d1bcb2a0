import BlockTrace.Condition.Operator
import BlockTrace.Text.Blank

/-! A condition cut in two at its first operator. -/
namespace BlockTrace.Condition
open Text (trim trimLeft)

def occurrence? (pattern : List Char) : List Char → Option Nat
  | [] => if pattern.isEmpty then some 0 else none
  | c :: rest =>
    if pattern.isPrefixOf (c :: rest) then some 0
    else (occurrence? pattern rest).map (· + 1)

/-- Of two places the one further left, and at the same index the first of the two. -/
def earlier (a b : Nat × Operator) : Nat × Operator :=
  if b.1 < a.1 then b else a

def firstOperator? (text : List Char) : Option (Nat × Operator) :=
  let found := Operator.searchOrder.filterMap fun op =>
    (occurrence? op.symbol.toList text).map fun index => (index, op)
  match found with
  | [] => none
  | first :: rest => some (rest.foldl earlier first)

/-- Two operands without the blanks around them, and where each starts in the whole text. An
operand that is all blank starts where its part of the text ends. -/
structure Comparison where
  left : List Char
  operator : Operator
  right : List Char
  leftOffset : Nat
  rightOffset : Nat
  deriving DecidableEq, Repr

def Comparison.split? (text : List Char) : Option Comparison :=
  -- All places are counted in characters. Counting them in bytes and turning only the offsets into
  -- characters at the end comes to the same, since a text is cut between characters.
  (firstOperator? text).map fun (index, operator) =>
    let before := text.take index
    let rightStart := index + operator.symbol.length
    let after := text.drop rightStart
    { left := trim before
      operator
      right := trim after
      leftOffset := before.length - (trimLeft before).length
      rightOffset := rightStart + (after.length - (trimLeft after).length) }

end BlockTrace.Condition
