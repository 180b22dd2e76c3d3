import Deliberation.Decimal.Shortest

/-!
Numbers of the term language: sixty-four bit integers and doubles. Two integers compare exactly;
any other pair compares as doubles.
-/
namespace Deliberation

inductive Number where
  | int (value : Int64)
  | float (value : Double)
deriving DecidableEq, Repr

namespace Number

def isInt : Number → Bool
  | int _ => true
  | float _ => false

def toDouble : Number → Double
  | int i => Double.ofInt i.toInt
  | float x => x

/-- The integer part, toward zero and clamped to sixty-four bits. -/
def toInt64 : Number → Int64
  | int i => i
  | float x => x.toInt64

/-- Numeric equality, so that one equals its own float. -/
def equals : Number → Number → Bool
  | int a, int b => a == b
  | a, b => a.toDouble.equals b.toDouble

def order : Number → Number → Ordering
  | int a, int b => compare a.toInt b.toInt
  | a, b => a.toDouble.order b.toDouble

def signText (x : Double) : String := if x.isNegative then "-" else ""

/-- Integral floats are written in full with one zero after the point, all others with the fewest
digits that read back. -/
def floatText (x : Double) : String :=
  if x.isNaN then "NaN"
  else if x.isInfinite then signText x ++ "inf"
  else if x.isIntegral then signText x ++ Nat.repr (x.magnitude / Double.unitsPerOne) ++ ".0"
  else signText x ++ (Decimal.shortest x).text

def text : Number → String
  | int i => Int.repr i.toInt
  | float x => floatText x

end Number

end Deliberation
