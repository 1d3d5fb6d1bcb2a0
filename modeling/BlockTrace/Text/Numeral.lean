/-! Integers written in decimal, read with a check of their range. -/
namespace BlockTrace.Text

inductive NumeralFault
  | empty
  | invalidDigit
  | tooLarge
  | tooSmall
  deriving DecidableEq, Repr

def NumeralFault.message : NumeralFault → String
  | .empty => "cannot parse integer from empty string"
  | .invalidDigit => "invalid digit found in string"
  | .tooLarge => "number too large to fit in target type"
  | .tooSmall => "number too small to fit in target type"

def digitValue (c : Char) : Nat :=
  c.toNat - '0'.toNat

/-- Reads on after the digits worth `value`. The first character that is no digit, or that takes
the value past `limit`, decides the fault. -/
def magnitude (limit : Nat) (overflow : NumeralFault) : Nat → List Char → Except NumeralFault Nat
  | value, [] => .ok value
  | value, c :: rest =>
    if c.isDigit then
      if value * 10 + digitValue c ≤ limit then
        magnitude limit overflow (value * 10 + digitValue c) rest
      else .error overflow
    else .error .invalidDigit

/-- Reads an integer of at most `limit`, with an optional plus sign. -/
def readUnsigned (limit : Nat) : List Char → Except NumeralFault Nat
  | [] => .error .empty
  | ['+'] => .error .invalidDigit
  | '+' :: digits => magnitude limit .tooLarge 0 digits
  | digits => magnitude limit .tooLarge 0 digits

/-- Reads a signed integer of 32 bits, with an optional sign. -/
def readSigned : List Char → Except NumeralFault Int32
  | [] => .error .empty
  | ['+'] => .error .invalidDigit
  | ['-'] => .error .invalidDigit
  | '+' :: digits => (magnitude 0x7FFFFFFF .tooLarge 0 digits).map Int32.ofNat
  | '-' :: digits => (magnitude 0x80000000 .tooSmall 0 digits).map fun n => Int32.ofInt (-n)
  | digits => (magnitude 0x7FFFFFFF .tooLarge 0 digits).map Int32.ofNat

end BlockTrace.Text
