import BlockTrace.Condition.Evaluation
import BlockTrace.Report.Layout

/-! The three ways to show a fault of an expression or of a condition. -/
namespace BlockTrace.Report

inductive Style
  -- All fields of the fault.
  | dump
  -- The message alone.
  | plain
  -- A report over the text.
  | pretty
  deriving DecidableEq, Repr

def title : Expression.Cause → String
  | .unexpectedEnd => "Expression ended early"
  | .unexpectedCharacter .. => "Encountered a character that cannot start a factor"
  | .trailingInput _ => "Expression continues after a complete parse"
  | .unclosedGroup => "Missing closing parenthesis"
  | .unknownVariable _ => "Attempted to read a variable that has not been declared"
  | .divisionByZero => "Division by zero"
  | .moduloByZero => "Modulo by zero"

def label : Expression.Cause → String
  | .unexpectedEnd => "Expected a number, a variable or `(` here"
  | .unexpectedCharacter found _ =>
    Colour.mark.paint found.toString ++ " is not a number, a variable or `(`"
  | .trailingInput _ => "Unexpected input starts here"
  | .unclosedGroup => "This group is never closed"
  | .unknownVariable name => Colour.name.paint name ++ " has not been declared"
  | .divisionByZero => "This divisor evaluates to zero"
  | .moduloByZero => "This divisor evaluates to zero"

def ofExpression (name : String) (text : List Char) (fault : Expression.Fault) : Notice :=
  { code := fault.code, title := title fault.cause, name, text, span := fault.span,
    label := label fault.cause }

def ofCondition (name : String) (text : List Char) : Condition.Fault → Notice
  | .missingOperator =>
    let symbols := Condition.Operator.searchOrder.map fun op => Colour.symbol.paint op.symbol
    { code := Condition.Fault.missingOperator.code
      title := "Condition does not contain a comparison operator"
      name, text, span := ⟨0, text.length⟩
      label := "Expected one of " ++ " ".intercalate symbols }
  | .expression fault => ofExpression name text fault

def showExpression (style : Style) (name : String) (text : List Char) (fault : Expression.Fault) :
    String :=
  match style with
  | .dump => fault.dump
  | .plain => fault.message
  | .pretty => (ofExpression name text fault).render

def showCondition (style : Style) (name : String) (text : List Char) (fault : Condition.Fault) :
    String :=
  match style with
  | .dump => fault.dump
  | .plain => fault.message
  | .pretty => (ofCondition name text fault).render

end BlockTrace.Report
