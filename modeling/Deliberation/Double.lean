/-!
Binary64 numbers as bit patterns. Every finite value is an integer multiple of `2 ^ -1074`, so
conversion, rounding and comparison are exact arithmetic on natural numbers; no operation depends
on the floating-point unit. Rounding is always to nearest, ties to even.
-/
namespace Deliberation

/-- A binary64 number: sign bit, eleven exponent bits and fifty-two fraction bits. -/
structure Double where
  bits : UInt64
deriving DecidableEq, Repr

namespace Double

def signUnit : Nat := 0x8000000000000000

def exponentUnit : Nat := 0x10000000000000

def isNegative (x : Double) : Bool := signUnit ≤ x.bits.toNat

def exponentField (x : Double) : Nat := x.bits.toNat / exponentUnit % 2048

def fraction (x : Double) : Nat := x.bits.toNat % exponentUnit

def isFinite (x : Double) : Bool := x.exponentField < 2047

def isNaN (x : Double) : Bool := x.exponentField == 2047 && x.fraction != 0

def isInfinite (x : Double) : Bool := x.exponentField == 2047 && x.fraction == 0

/-- Distance of a finite number from zero, counted in units of `2 ^ -1074`. -/
def magnitude (x : Double) : Nat :=
  if x.exponentField = 0 then x.fraction
  else (exponentUnit + x.fraction) <<< (x.exponentField - 1)

/-- The units of `2 ^ -1074` in one. -/
def unitsPerOne : Nat := 1 <<< 1074

def withSign (negative : Bool) (low : Nat) : Double :=
  ⟨UInt64.ofNat (if negative then signUnit + low else low)⟩

def infinity (negative : Bool) : Double := withSign negative (2047 * exponentUnit)

def zero (negative : Bool) : Double := withSign negative 0

/-- The quiet number-free pattern with an empty payload. -/
def nan (negative : Bool) : Double := withSign negative (2047 * exponentUnit + exponentUnit / 2)

/-- Quotient rounded to the nearest integer, a half to the even neighbour. -/
def roundDiv (num den : Nat) : Nat :=
  let low := num / den
  let rest := num % den
  if den < 2 * rest ∨ (2 * rest = den ∧ low % 2 = 1) then low + 1 else low

/--
The double nearest to `num / den` with the given sign. Writing the quotient in units of
`2 ^ -1074`, the grid of doubles around it has step `2 ^ step`, and the exponent and fraction bits
read as one number are `step * 2 ^ 52` plus the rounded count of steps; a carry out of the fraction
lands in the exponent by itself.
-/
def ofRatio (negative : Bool) (num den : Nat) : Double :=
  let scaled := num * unitsPerOne
  let whole := scaled / den
  let step := if whole < 2 * exponentUnit then 0 else whole.log2 - 52
  let low := step * exponentUnit + roundDiv scaled (den <<< step)
  if 2047 * exponentUnit ≤ low then infinity negative else withSign negative low

def ofInt (i : Int) : Double := ofRatio (i < 0) i.natAbs 1

/--
The double nearest to `digits * 10 ^ exponent`. `digits` has `count` decimal digits; far outside
the range of doubles the power of ten is not computed.
-/
def ofDecimal (negative : Bool) (digits : Nat) (count : Nat) (exponent : Int) : Double :=
  if digits = 0 then zero negative
  else if exponent + count > 400 then infinity negative
  else if exponent + count < -400 then zero negative
  else if exponent < 0 then ofRatio negative digits (Nat.pow 10 exponent.natAbs)
  else ofRatio negative (digits * Nat.pow 10 exponent.natAbs) 1

def mul (x y : Double) : Double :=
  let negative := x.isNegative != y.isNegative
  if x.isNaN then x else if y.isNaN then y
  else if x.isFinite && y.isFinite then
    ofRatio negative (x.magnitude * y.magnitude) (unitsPerOne * unitsPerOne)
  else if x.magnitude = 0 || y.magnitude = 0 then nan false
  else infinity negative

def div (x y : Double) : Double :=
  let negative := x.isNegative != y.isNegative
  if x.isNaN then x else if y.isNaN then y
  else if x.isInfinite then (if y.isInfinite then nan false else infinity negative)
  else if y.isInfinite then zero negative
  else if y.magnitude = 0 then (if x.magnitude = 0 then nan false else infinity negative)
  else ofRatio negative x.magnitude y.magnitude

/-- Numeric equality: both zeros are equal, and nothing equals a NaN. -/
def equals (x y : Double) : Bool :=
  !x.isNaN && !y.isNaN && (x.bits == y.bits || (x.magnitude == 0 && y.magnitude == 0))

/-- Position in the total order of bit patterns: negative NaNs first, positive NaNs last. -/
def rank (x : Double) : Int :=
  if x.isNegative then -((x.bits.toNat : Int) - signUnit) - 1 else x.bits.toNat

def order (x y : Double) : Ordering := compare x.rank y.rank

def isIntegral (x : Double) : Bool := x.isFinite && x.magnitude % unitsPerOne == 0

/-- The integer part of a finite number, toward zero. -/
def truncate (x : Double) : Int :=
  let whole : Int := x.magnitude / unitsPerOne
  if x.isNegative then -whole else whole

/-- The integer part, clamped to the sixty-four bit range; a NaN gives zero. -/
def toInt64 (x : Double) : Int64 :=
  if x.isNaN then 0
  else if x.isInfinite then (if x.isNegative then Int64.minValue else Int64.maxValue)
  else
    let whole := x.truncate
    if whole < Int64.minValue.toInt then Int64.minValue
    else if Int64.maxValue.toInt < whole then Int64.maxValue
    else Int64.ofInt whole

end Double

end Deliberation
