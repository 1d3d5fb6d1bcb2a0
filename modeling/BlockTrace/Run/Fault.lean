import BlockTrace.Condition.Evaluation
import BlockTrace.Program.Parameters
import BlockTrace.Store.Basic

/-! Every way in which a run can abort. -/
namespace BlockTrace.Run
open Program (Key Parameters)

inductive Fault
  | missingParameter (key : Key)
  | invalidNumber (key : Key)
  | unknownOperation (name : String)
  | emptyVariableName
  | store (fault : Store.Fault)
  | expression (fault : Expression.Fault)
  | condition (fault : Condition.Fault)
  | budgetExceeded (limit : Nat)
  | interrupted
  deriving DecidableEq, Repr

namespace Fault

def message : Fault → String
  | missingParameter key => "Missing " ++ key.description
  | invalidNumber key => "Invalid " ++ key.description
  | unknownOperation name => "Unknown operation '" ++ name ++ "'"
  | emptyVariableName => "Empty variable name"
  | store fault => fault.message
  | expression fault => fault.message
  | condition fault => fault.message
  | budgetExceeded limit => "Iteration budget of " ++ toString limit ++ " exceeded"
  | interrupted => "Execution interrupted"

def code : Fault → String
  | missingParameter _ => "RT001"
  | invalidNumber _ => "RT002"
  | unknownOperation _ => "RT003"
  | emptyVariableName => "RT004"
  | store fault => fault.code
  | expression fault => fault.code
  | condition fault => fault.code
  | budgetExceeded _ => "RT011"
  | interrupted => "RT012"

end Fault

def require (p : Parameters) (key : Key) : Except Fault String :=
  match p.get? key with
  | some text => .ok text
  | none => .error (.missingParameter key)

/-- The parameter as an integer; without one the run aborts with `fault`. -/
def requireInteger (p : Parameters) (key : Key) (fault : Fault) : Except Fault Int32 :=
  match p.integer? key with
  | some value => .ok value
  | none => .error fault

def evaluate (store : Store) (text : String) : Except Fault Int32 :=
  (Expression.evaluate store.vars text.toList).mapError .expression

def test (store : Store) (text : String) : Except Fault Bool :=
  (Condition.evaluate store.vars text.toList).mapError .condition

end BlockTrace.Run
