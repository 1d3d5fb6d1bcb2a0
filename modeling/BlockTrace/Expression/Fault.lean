import BlockTrace.Text.Quoted
import BlockTrace.Text.Span

/-! What can be wrong with an expression, and where. -/
namespace BlockTrace.Expression
open Text (Span)

inductive Cause
  | unexpectedEnd
  | unexpectedCharacter (found : Char) (position : Nat)
  | trailingInput (position : Nat)
  | unclosedGroup
  | unknownVariable (name : String)
  | divisionByZero
  | moduloByZero
  deriving DecidableEq, Repr

/-- A cause with the characters that it is about. -/
structure Fault where
  cause : Cause
  span : Span
  deriving DecidableEq, Repr

def Cause.message : Cause → String
  | .unexpectedEnd => "Unexpected end of expression"
  | .unexpectedCharacter found position =>
    "Unexpected character '" ++ found.toString ++ "' at position " ++ toString position
  | .trailingInput position => "Unexpected character at position " ++ toString position
  | .unclosedGroup => "Missing closing parenthesis"
  | .unknownVariable name => "Unknown variable '" ++ name ++ "'"
  | .divisionByZero => "Division by zero"
  | .moduloByZero => "Modulo by zero"

def Cause.code : Cause → String
  | .unexpectedEnd => "EX001"
  | .unexpectedCharacter .. => "EX002"
  | .trailingInput _ => "EX003"
  | .unclosedGroup => "EX004"
  | .unknownVariable _ => "EX005"
  | .divisionByZero => "EX006"
  | .moduloByZero => "EX007"

def Cause.dump : Cause → String
  | .unexpectedEnd => "UnexpectedEnd"
  | .unexpectedCharacter found position =>
    "UnexpectedCharacter \x7b found: " ++ Text.quotedChar found ++
      ", position: " ++ toString position ++ " \x7d"
  | .trailingInput position =>
    "UnexpectedTrailingInput \x7b position: " ++ toString position ++ " \x7d"
  | .unclosedGroup => "UnclosedParenthesis"
  | .unknownVariable name => "UnknownVariable(" ++ Text.quoted name ++ ")"
  | .divisionByZero => "DivisionByZero"
  | .moduloByZero => "ModuloByZero"

namespace Fault

def message (fault : Fault) : String :=
  fault.cause.message

def code (fault : Fault) : String :=
  fault.cause.code

/-- Moves the span. Positions in the message stay those of the text that was evaluated. -/
def shift (fault : Fault) (offset : Nat) : Fault :=
  { fault with span := fault.span.shift offset }

def dump (fault : Fault) : String :=
  "ExpressionError \x7b kind: " ++ fault.cause.dump ++ ", span: Span \x7b start: " ++
    toString fault.span.start ++ ", length: " ++ toString fault.span.length ++ " \x7d \x7d"

end Fault

end BlockTrace.Expression
