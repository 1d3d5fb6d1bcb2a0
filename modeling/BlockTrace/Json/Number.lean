import BlockTrace.Json.Text
import BlockTrace.Json.Value

/-! Numbers of JSON text: how they are written, and what they are worth. -/
namespace BlockTrace.Json
open Decimal (Double)

/-- The digits of a number. The exponent comes with whether it is negative. -/
structure NumberText where
  negative : Bool
  whole : List Char
  fraction : Option (List Char)
  exponent : Option (Bool × List Char)
  deriving DecidableEq, Repr

def fraction : (text : List Char) → Except Fault (Parsed (Option (List Char)) (text.length + 1))
  | '.' :: rest =>
    (someDigits rest).map fun r => (r.map some).relax.relax
  | text => .ok (Parsed.before none text)

def signedDigits : Reader Fault (Bool × List Char)
  | '+' :: rest =>
    (someDigits rest).map fun r => (r.map (false, ·)).relax
  | '-' :: rest =>
    (someDigits rest).map fun r => (r.map (true, ·)).relax
  | text => (someDigits text).map fun r => r.map (false, ·)

def exponent :
    (text : List Char) → Except Fault (Parsed (Option (Bool × List Char)) (text.length + 1))
  | [] => .ok (Parsed.before none [])
  | c :: rest =>
    if c = 'e' ∨ c = 'E' then
      (signedDigits rest).map fun r => (r.map some).relax.relax
    else .ok (Parsed.before none (c :: rest))

/-- Reads a number after its sign. A zero in front stands alone. -/
def numberText (negative : Bool) : Reader Fault NumberText := fun text => do
  let whole ← someDigits text
  if 1 < whole.value.length ∧ whole.value.head? = some '0' then .error .malformed
  else
    let part ← fraction whole.rest
    let power ← exponent part.rest
    return ⟨⟨negative, whole.value, part.value, power.value⟩, power.rest, by
      have := whole.shorter
      have := part.shorter
      have := power.shorter
      omega⟩

/-- Appends digits to a number as long as it stays within `limit`. What is left over begins with
the first digit that does not fit. -/
def absorb (limit : Nat) : (value : Nat) → List Char → Nat × List Char
  | value, [] => (value, [])
  | value, c :: rest =>
    if value * 10 + Text.digitValue c ≤ limit then
      absorb limit (value * 10 + Text.digitValue c) rest
    else (value, c :: rest)

namespace NumberText

/-- The integer that is written, if there is no more than that and 64 bits hold it. A negative
zero is no integer. -/
def integer? (t : NumberText) : Option Int :=
  match t.fraction, t.exponent with
  | none, none =>
    match absorb 0xFFFFFFFFFFFFFFFF 0 t.whole with
    | (value, []) =>
      if t.negative then
        if 1 ≤ value ∧ value ≤ 0x8000000000000000 then some (-(value : Int)) else none
      else some value
    | (_, _ :: _) => none
  | _, _ => none

/-- The digits that count, as an integer of 64 bits, and the power of ten that belongs to it. Whole
digits that do not fit raise the power, and digits of the fraction that do not fit are dropped. -/
def scaled (t : NumberText) : Nat × Int :=
  let (whole, excess) := absorb 0xFFFFFFFFFFFFFFFF 0 t.whole
  let digits := t.fraction.getD []
  let (value, dropped) := absorb 0xFFFFFFFFFFFFFFFF whole digits
  (value, (excess.length : Int) - (digits.length - dropped.length : Nat))

/-- The size of the number as a double, unless its conversion overflows. -/
def size? (t : NumberText) : Option Double :=
  let (value, power) := t.scaled
  (Double.round? value 1).bind fun x =>
    match t.exponent with
    | none => x.scale? power
    | some (negative, digits) =>
      match absorb 0x7FFFFFFF 0 digits with
      | (e, []) => x.scale? (if negative then power - e else power + e)
      | (_, _ :: _) => if value = 0 ∨ negative then some Double.zero else none

/-- The value of the number. One whose conversion overflows is malformed, which next to the largest
double is not the same as one beyond it. -/
def value (t : NumberText) : Except Fault Value :=
  match t.integer? with
  | some n => .ok (.integer n)
  | none =>
    match t.size? with
    | some x => .ok (.double (if t.negative then x.neg else x))
    | none => .error .malformed

end NumberText

def number (negative : Bool) : Reader Fault Value := fun text => do
  let written ← numberText negative text
  let value ← written.value.value
  return ⟨value, written.rest, written.shorter⟩

end BlockTrace.Json
