import BlockTrace.Decimal.Double

/-! The shortest decimal that reads back as a given double. -/
namespace BlockTrace.Decimal

structure Scientific where
  digits : Nat
  exponent : Int
  deriving DecidableEq, Repr

/-- The fractions that round to a double lie between two ends, which belong to them if the
significand is even. -/
structure Interval where
  low : Nat × Nat
  high : Nat × Nat
  closed : Bool

namespace Interval

def ofDouble (x : Double) : Interval :=
  let m := x.significand
  let low :=
    if m = 0x10000000000000 ∧ -1074 < x.exponent then Double.scaled (4 * m - 1) 4 x.exponent
    else Double.scaled (2 * m - 1) 2 x.exponent
  { low, high := Double.scaled (2 * m + 1) 2 x.exponent, closed := m % 2 = 0 }

def contains (i : Interval) (a b : Nat) : Bool :=
  let left := i.low.1 * b
  let right := i.high.1 * b
  (left < a * i.low.2 || i.closed && left = a * i.low.2) &&
    (a * i.high.2 < right || i.closed && a * i.high.2 = right)

end Interval

namespace Scientific

def fraction (d : Scientific) : Nat × Nat :=
  if 0 ≤ d.exponent then (d.digits * Nat.pow 10 d.exponent.toNat, 1)
  else (d.digits, Nat.pow 10 (-d.exponent).toNat)

/-- The exponent of the leading digit of a positive fraction that is not below `10 ^ -400`. -/
def leadingExponent (a b : Nat) : Int :=
  if b ≤ a then (Nat.toDigits 10 (a / b)).length - 1
  else
    match (List.range 400).find? fun j => b ≤ a * Nat.pow 10 (j + 1) with
    | some j => -(j + 1 : Int)
    | none => 0

/-- The two multiples of `10 ^ exponent` next to a fraction, the nearer one first. A tie goes to
the even one. -/
def neighbours (a b : Nat) (exponent : Int) : List Scientific :=
  let (c, d) := if 0 ≤ exponent then (a, b * Nat.pow 10 exponent.toNat)
    else (a * Nat.pow 10 (-exponent).toNat, b)
  let near := roundDiv c d
  let other := if near = c / d then c / d + 1 else c / d
  [⟨near, exponent⟩, ⟨other, exponent⟩]

/-- The decimal with the fewest digits that rounds to a positive double, and of these the
nearest. -/
def shortest (x : Double) : Scientific :=
  let (a, b) := x.fraction
  let interval := Interval.ofDouble x
  let leading := leadingExponent a b
  let candidates := (List.range 17).flatMap fun (n : Nat) => neighbours a b (leading - n)
  (candidates.find? fun d => interval.contains d.fraction.1 d.fraction.2).getD ⟨0, 0⟩

end Scientific

def significantDigits (n : Nat) : List Char :=
  ((Nat.toDigits 10 n).reverse.dropWhile (· = '0')).reverse

/-- Which leading exponents are written without an exponent, and whether a positive exponent has
a sign. -/
structure Layout where
  lowest : Int
  highest : Int
  plus : Bool

/-- Places the point in digits whose first has the exponent `leading`. -/
def Layout.place (layout : Layout) (digits : List Char) (leading : Int) : List Char :=
  let zeros (n : Nat) := List.replicate n '0'
  if 0 ≤ leading ∧ leading ≤ layout.highest then
    let whole := leading.toNat + 1
    if digits.length ≤ whole then digits ++ zeros (whole - digits.length) ++ ['.', '0']
    else digits.take whole ++ '.' :: digits.drop whole
  else if layout.lowest ≤ leading ∧ leading < 0 then
    '0' :: '.' :: zeros ((-leading).toNat - 1) ++ digits
  else
    let fraction := if digits.length ≤ 1 then [] else '.' :: digits.drop 1
    let sign := if layout.plus ∧ 0 ≤ leading then ['+'] else []
    digits.take 1 ++ fraction ++ 'e' :: sign ++ (toString leading).toList

def Layout.render (layout : Layout) (x : Double) : String :=
  let sign := if x.negative then ['-'] else []
  if x.significand = 0 then String.ofList (sign ++ ['0', '.', '0'])
  else
    let d := Scientific.shortest x
    let all := Nat.toDigits 10 d.digits
    String.ofList
      (sign ++ layout.place (significantDigits d.digits) (d.exponent + all.length - 1))

end BlockTrace.Decimal
