import Deliberation.Double

/-!
The fewest decimal digits that read back as a given double. The reals that round to a double form
an interval around it; the first decimal grid with a point in that interval gives the digits.
-/
namespace Deliberation.Decimal

/-- A positive decimal `digits * 10 ^ exponent`. -/
structure Scientific where
  digits : Nat
  exponent : Int
deriving DecidableEq, Repr

/--
The reals that round to a positive finite double, in units of `2 ^ -1076`; the ends belong to it
exactly when `closed`.
-/
structure Interval where
  low : Nat
  mid : Nat
  high : Nat
  closed : Bool

/-- The units of `2 ^ -1076` in one. -/
def gridUnit : Nat := 4 * Double.unitsPerOne

/-- Below a power of two the neighbouring doubles are twice as dense. -/
def Interval.around (x : Double) : Interval :=
  let step := 1 <<< (x.exponentField - 1)
  let mid := 4 * x.magnitude
  let below := if x.fraction = 0 ∧ 1 < x.exponentField then step else 2 * step
  { low := mid - below, mid, high := mid + 2 * step, closed := x.fraction % 2 = 0 }

/-- The interval on a grid whose points are the multiples of `unit` once scaled by `factor`. -/
def Interval.pick (range : Interval) (factor unit : Nat) : Option Nat :=
  let digits := range.mid * factor / unit
  let rest := range.mid * factor % unit
  let inside (point : Nat) : Bool :=
    if range.closed then range.low * factor ≤ point && point ≤ range.high * factor
    else range.low * factor < point && point < range.high * factor
  let down := inside (digits * unit)
  let up := inside ((digits + 1) * unit)
  if down && up then some (if unit ≤ 2 * rest then digits + 1 else digits)
  else if down then some digits
  else if up then some (digits + 1)
  else none

/-- The number of digits before the decimal point of the middle; negative below one tenth. -/
def Interval.pointPosition (range : Interval) : Int :=
  (Nat.toDigits 10 (range.mid * Nat.pow 10 400 / gridUnit)).length - 400

/-- Moves a final zero, left by a carry out of a single nine, into the exponent. -/
def Scientific.carry (d : Scientific) : Scientific :=
  if d.digits % 10 = 0 then { digits := d.digits / 10, exponent := d.exponent + 1 } else d

/-- The point of the grid with spacing `10 ^ exponent` that reads back, if any. -/
def Interval.onGrid (range : Interval) (exponent : Int) : Option Scientific :=
  let found :=
    if exponent < 0 then range.pick (Nat.pow 10 exponent.natAbs) gridUnit
    else range.pick 1 (Nat.pow 10 exponent.natAbs * gridUnit)
  found.map fun digits => Scientific.carry { digits, exponent }

/-- The shortest decimal that reads back; of two of that length the nearer, of two equally near the
greater. Seventeen digits always suffice. -/
def shortest (x : Double) : Scientific :=
  let range := Interval.around x
  let position := range.pointPosition
  let grids := (List.range 17).map fun n => position - (n + 1 : Nat)
  (grids.findSome? range.onGrid).getD { digits := 0, exponent := 0 }

/-- Positional text of a decimal, without an exponent. -/
def Scientific.text (d : Scientific) : String :=
  let digits := Nat.toDigits 10 d.digits
  if 0 ≤ d.exponent then String.ofList (digits ++ List.replicate d.exponent.natAbs '0')
  else
    let places := d.exponent.natAbs
    if places < digits.length then
      let whole := digits.length - places
      String.ofList (digits.take whole ++ '.' :: digits.drop whole)
    else String.ofList ('0' :: '.' :: List.replicate (places - digits.length) '0' ++ digits)

end Deliberation.Decimal
