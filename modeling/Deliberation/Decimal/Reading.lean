import Deliberation.Double

/-!
Reading a double from decimal text: an optional sign, digits with an optional point, an optional
exponent; or one of the words for infinity and NaN, in any case.
-/
namespace Deliberation.Decimal

def digitsValue (digits : List Char) : Nat :=
  digits.foldl (fun value c => 10 * value + (c.toNat - '0'.toNat)) 0

def splitSign : List Char → Bool × List Char
  | '-' :: rest => (true, rest)
  | '+' :: rest => (false, rest)
  | rest => (false, rest)

/-- The exponent part, which must reach the end of the text. -/
def readExponent : List Char → Option Int
  | [] => some 0
  | mark :: rest =>
    let (negative, digits) := splitSign rest
    if (mark = 'e' ∨ mark = 'E') ∧ digits ≠ [] ∧ digits.all Char.isDigit then
      let value : Int := digitsValue digits
      some (if negative then -value else value)
    else none

/-- Unsigned decimal text as a double of the given sign. -/
def readUnsigned (negative : Bool) (text : List Char) : Option Double :=
  let whole := text.takeWhile Char.isDigit
  let afterWhole := text.dropWhile Char.isDigit
  let (places, rest) :=
    match afterWhole with
    | '.' :: tail => (tail.takeWhile Char.isDigit, tail.dropWhile Char.isDigit)
    | other => ([], other)
  if whole = [] ∧ places = [] then none
  else
    (readExponent rest).map fun exponent =>
      let digits := (whole ++ places).dropWhile (· = '0')
      Double.ofDecimal negative (digitsValue digits) digits.length (exponent - places.length)

def infinityWords : List String := ["inf", "infinity"]

/-- The nearest double to a decimal text, or nothing if the text is not a number. -/
def read? (text : String) : Option Double :=
  let (negative, rest) := splitSign text.toList
  let word := String.ofList (rest.map Char.toLower)
  if word ∈ infinityWords then some (Double.infinity negative)
  else if word = "nan" then some (Double.nan negative)
  else readUnsigned negative rest

end Deliberation.Decimal
