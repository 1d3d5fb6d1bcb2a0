/-! Binary floating point numbers of double precision, rounded from exact fractions. -/
namespace BlockTrace.Decimal

/-- The quotient rounded to the nearest integer, a half to the even one. -/
def roundDiv (a b : Nat) : Nat :=
  if 2 * (a % b) < b ∨ 2 * (a % b) = b ∧ a / b % 2 = 0 then a / b else a / b + 1

/-- The finite number `significand * 2 ^ exponent`, with its sign. A rounded number has a
significand below `2 ^ 53` and the least exponent that allows it, from -1074 on. -/
structure Double where
  negative : Bool
  significand : Nat
  exponent : Int
  deriving DecidableEq, Repr

namespace Double

def zero : Double :=
  ⟨false, 0, -1074⟩

def neg (x : Double) : Double :=
  { x with negative := !x.negative }

/-- The fraction `a * 2 ^ e / b` as numerator and denominator. -/
def scaled (a b : Nat) (e : Int) : Nat × Nat :=
  if 0 ≤ e then (a <<< e.toNat, b) else (a, b <<< (-e).toNat)

/-- The exponent of the power of two at or below a positive fraction. -/
def binaryExponent (a b : Nat) : Int :=
  let guess : Int := (a.log2 : Int) - b.log2
  let (c, d) := scaled a b (-guess)
  if d ≤ c then guess else guess - 1

/-- The double nearest to the fraction, a tie going to the even significand. There is none if the
fraction lies beyond the largest double. -/
def round? (a b : Nat) : Option Double :=
  if a = 0 then some zero
  else
    let e := max (binaryExponent a b - 52) (-1074)
    let (c, d) := scaled a b (-e)
    let m := roundDiv c d
    let (m, e) := if m = 0x20000000000000 then (0x10000000000000, e + 1) else (m, e)
    if e ≤ 971 then some ⟨false, m, e⟩ else none

def fraction (x : Double) : Nat × Nat :=
  scaled x.significand 1 x.exponent

def mul? (x y : Double) : Option Double :=
  round? (x.fraction.1 * y.fraction.1) (x.fraction.2 * y.fraction.2)

def div? (x y : Double) : Option Double :=
  round? (x.fraction.1 * y.fraction.2) (x.fraction.2 * y.fraction.1)

def powerOfTen? (n : Nat) : Option Double :=
  round? (Nat.pow 10 n) 1

/-- Divides by `10 ^ n` as often as told, or until nothing is left. -/
def shrink? (n : Nat) : (times : Nat) → Double → Option Double
  | 0, x => some x
  | times + 1, x =>
    if x.significand = 0 then some x
    else
      match (powerOfTen? n).bind x.div? with
      | none => none
      | some smaller => shrink? n times smaller

/-- The value of `x * 10 ^ exponent`, rounded after each power of ten that `x` is multiplied with
or divided by. None of these powers exceeds `10 ^ 308`. -/
def scale? (x : Double) (exponent : Int) : Option Double :=
  if x.significand = 0 then some zero
  else if 0 ≤ exponent then
    if exponent ≤ 308 then (powerOfTen? exponent.toNat).bind x.mul? else none
  else
    let n := exponent.natAbs
    let rounds := (n - 1) / 308
    (shrink? 308 rounds x).bind fun smaller =>
      (powerOfTen? (n - 308 * rounds)).bind smaller.div?

end Double

end BlockTrace.Decimal
