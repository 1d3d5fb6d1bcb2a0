import BlockTrace.Expression.Fault
import BlockTrace.Text.Alphanumeric
import BlockTrace.Text.Cursor
import BlockTrace.Text.Numeral
import Std.Data.ExtTreeMap

/-! Arithmetic over named variables, evaluated while it is read.

    expression := term (('+' | '-') term)*
    term       := factor (('*' | '/' | '%') factor)*
    factor     := integer | identifier | '(' expression ')'

Blanks may stand before every token and at the end. Values are signed 32-bit integers and wrap. -/
namespace BlockTrace.Expression
open Text (Cursor Span)

abbrev Variables := Std.ExtTreeMap String Int32

inductive AddOp
  | plus
  | minus
  deriving DecidableEq, Repr

namespace AddOp

def ofChar? : Char → Option AddOp
  | '+' => some plus
  | '-' => some minus
  | _ => none

def apply : AddOp → Int32 → Int32 → Int32
  | plus, a, b => a + b
  | minus, a, b => a - b

end AddOp

inductive MulOp
  | times
  | divide
  | modulo
  deriving DecidableEq, Repr

namespace MulOp

def ofChar? : Char → Option MulOp
  | '*' => some times
  | '/' => some divide
  | '%' => some modulo
  | _ => none

/-- Division goes toward zero and the remainder has the sign of the dividend; the least value
divided by -1 is itself, with remainder zero. -/
def apply : MulOp → Int32 → Int32 → Except Cause Int32
  | times, a, b => .ok (a * b)
  | divide, a, b => if b = 0 then .error .divisionByZero else .ok (a / b)
  | modulo, a, b => if b = 0 then .error .moduloByZero else .ok (a % b)

end MulOp

def isNameStart (c : Char) : Bool :=
  c.isAlpha || c = '_'

def isNameRest (c : Char) : Bool :=
  Text.isAlphanumeric c || c = '_'

/-- The value of a run of digits, wrapped at every digit. -/
def literalValue (digits : List Char) : Int32 :=
  digits.foldl (fun value c => value * 10 + Int32.ofNat (Text.digitValue c)) 0

/-- A value, and a cursor with fewer than `bound` unread characters. -/
structure Reading (bound : Nat) where
  value : Int32
  next : Cursor
  shorter : next.rest.length < bound

def Reading.widen {m n : Nat} (r : Reading m) (h : m ≤ n) : Reading n :=
  ⟨r.value, r.next, Nat.lt_of_lt_of_le r.shorter h⟩

theorem isNameRest_of_isNameStart {c : Char} (h : isNameStart c) : isNameRest c := by
  simp only [isNameStart, Bool.or_eq_true] at h
  rcases h with h | h
  · simp [isNameRest, Text.isAlphanumeric_of_isAlpha h]
  · simp [isNameRest, h]

def number (c : Cursor) {first : Char} {rest : List Char} (hr : c.rest = first :: rest)
    (hd : first.isDigit) : Reading c.rest.length :=
  ⟨literalValue (c.takeWhile Char.isDigit).1, (c.takeWhile Char.isDigit).2,
    Cursor.takeWhile_shorter hr hd⟩

/-- Reads the name at the cursor, which stands at its first letter, and looks it up. -/
def lookup (vars : Variables) (c : Cursor) {first : Char} {rest : List Char}
    (hr : c.rest = first :: rest) (hs : isNameStart first) : Except Fault (Reading c.rest.length) :=
  let name := String.ofList (c.takeWhile isNameRest).1
  let next := (c.takeWhile isNameRest).2
  match vars[name]? with
  | some value =>
    .ok ⟨value, next, Cursor.takeWhile_shorter hr (isNameRest_of_isNameStart hs)⟩
  | none => .error ⟨.unknownVariable name, Span.between c.offset next.offset⟩

mutual

def expression (vars : Variables) (c : Cursor) : Except Fault (Reading c.rest.length) := do
  let first ← term vars c
  have := first.shorter
  let total ← sum vars first.value first.next
  return total.widen first.shorter
termination_by (c.rest.length, 3)

/-- Goes on with `+ term` and `- term` as long as there are any. -/
def sum (vars : Variables) (value : Int32) (c : Cursor) :
    Except Fault (Reading (c.rest.length + 1)) :=
  match h : c.skipBlanks.accept? AddOp.ofChar? with
  | none => .ok ⟨value, c.skipBlanks, Nat.lt_succ_of_le c.skipBlanks_le⟩
  | some (op, d) => do
    have hd := Nat.lt_of_lt_of_le (Cursor.accept?_shorter h) c.skipBlanks_le
    let operand ← term vars d
    have := operand.shorter
    let total ← sum vars (op.apply value operand.value) operand.next
    return total.widen (by omega)
termination_by (c.rest.length, 0)

def term (vars : Variables) (c : Cursor) : Except Fault (Reading c.rest.length) := do
  let first ← factor vars c
  have := first.shorter
  let total ← product vars first.value first.next
  return total.widen first.shorter
termination_by (c.rest.length, 2)

/-- Goes on with `* factor`, `/ factor` and `% factor` as long as there are any. -/
def product (vars : Variables) (value : Int32) (c : Cursor) :
    Except Fault (Reading (c.rest.length + 1)) :=
  match h : c.skipBlanks.accept? MulOp.ofChar? with
  | none => .ok ⟨value, c.skipBlanks, Nat.lt_succ_of_le c.skipBlanks_le⟩
  | some (op, d) => do
    have hd := Nat.lt_of_lt_of_le (Cursor.accept?_shorter h) c.skipBlanks_le
    let operand ← factor vars d
    have := operand.shorter
    match op.apply value operand.value with
    | .error cause =>
      .error ⟨cause, Span.between d.skipBlanks.offset operand.next.offset⟩
    | .ok result =>
      let total ← product vars result operand.next
      return total.widen (by omega)
termination_by (c.rest.length, 0)

def factor (vars : Variables) (c : Cursor) : Except Fault (Reading c.rest.length) :=
  let d := c.skipBlanks
  have hd : d.rest.length ≤ c.rest.length := c.skipBlanks_le
  match h : d.rest with
  | [] => .error ⟨.unexpectedEnd, ⟨d.offset, 0⟩⟩
  | first :: rest =>
    if first = '(' then do
      have hr : rest.length < c.rest.length := by simp [h] at hd; omega
      let inner ← expression vars ⟨rest, d.offset + 1⟩
      let e := inner.next.skipBlanks
      match hn : e.next? with
      | none => .error ⟨.unclosedGroup, Span.between d.offset e.offset⟩
      | some (mark, after) =>
        if mark = ')' then
          .ok ⟨inner.value, after, by
            have h1 := Cursor.next?_shorter hn
            have h2 : e.rest.length ≤ inner.next.rest.length := inner.next.skipBlanks_le
            have h3 : inner.next.rest.length < rest.length := inner.shorter
            omega⟩
        else .error ⟨.unclosedGroup, Span.between d.offset after.offset⟩
    else if hdigit : first.isDigit then .ok ((number d h hdigit).widen hd)
    else if hs : isNameStart first then (lookup vars d h hs).map (·.widen hd)
    else .error ⟨.unexpectedCharacter first d.offset, Span.single d.offset⟩
termination_by (c.rest.length, 1)

end

def evaluate (vars : Variables) (text : List Char) : Except Fault Int32 := do
  let result ← expression vars (Cursor.start text)
  let c := result.next.skipBlanks
  match c.rest with
  | [] => return result.value
  | _ :: _ => .error ⟨.trailingInput c.offset, Span.single c.offset⟩

end BlockTrace.Expression
