import BlockTrace.Condition.Comparison
import BlockTrace.Expression.Evaluation

/-! The truth of a condition. -/
namespace BlockTrace.Condition
open Expression (Variables)

inductive Fault
  | missingOperator
  | expression (fault : Expression.Fault)
  deriving DecidableEq, Repr

namespace Fault

def message : Fault → String
  | missingOperator => "Invalid condition"
  | expression fault => fault.message

def code : Fault → String
  | missingOperator => "CD001"
  | expression fault => fault.code

def dump : Fault → String
  | missingOperator => "MissingOperator"
  | expression fault => "Expression(" ++ fault.dump ++ ")"

end Fault

/-- The value of an operand that starts at `offset` of the condition. -/
def operand (vars : Variables) (text : List Char) (offset : Nat) : Except Fault Int32 :=
  (Expression.evaluate vars text).mapError fun fault => .expression (fault.shift offset)

/-- Compares the operands; the left one is evaluated first. -/
def Comparison.evaluate (vars : Variables) (c : Comparison) : Except Fault Bool := do
  let a ← operand vars c.left c.leftOffset
  let b ← operand vars c.right c.rightOffset
  return c.operator.holds a b

def evaluate (vars : Variables) (text : List Char) : Except Fault Bool :=
  match Comparison.split? text with
  | none => .error .missingOperator
  | some comparison => comparison.evaluate vars

end BlockTrace.Condition
