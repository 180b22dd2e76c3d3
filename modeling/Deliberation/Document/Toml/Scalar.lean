import Deliberation.Decimal.Reading
import Deliberation.Document.Basic

/-!
Scalars of TOML that are not strings: truth values, integers in four bases, floats, dates and times.
Each is one run of characters.
-/
namespace Deliberation.Toml

def isScalarChar (c : Char) : Bool :=
  c.isAlphanum || c = '+' || c = '-' || c = '_' || c = '.' || c = ':'

/-- Digits with single underscores between them; gives the digits alone. -/
def spacedDigits? (isDigit : Char → Bool) : List Char → Option (List Char)
  | [] => none
  | [c] => if isDigit c then some [c] else none
  | c :: '_' :: rest => if isDigit c then (spacedDigits? isDigit rest).map (c :: ·) else none
  | c :: rest => if isDigit c then (spacedDigits? isDigit rest).map (c :: ·) else none

/-- Decimal digits of an integer: a leading zero stands alone. -/
def wholeDigits? (word : List Char) : Option (List Char) :=
  match word with
  | ['0'] => some ['0']
  | '0' :: _ => none
  | _ => spacedDigits? Char.isDigit word

def boundedInt (value : Int) : Option Document :=
  if Int64.minValue.toInt ≤ value ∧ value ≤ Int64.maxValue.toInt then some (.int value) else none

def decimalInt? (word : List Char) : Option Document := do
  let (negative, body) := Decimal.splitSign word
  let value : Int := Decimal.digitsValue (← wholeDigits? body)
  boundedInt (if negative then -value else value)

/-- The value of digits in a base up to sixteen. -/
def basedInt? (base : Nat) (word : List Char) : Option Document := do
  let isDigit (c : Char) := match Document.hexDigit? c with
    | some d => d < base
    | none => false
  let digits ← spacedDigits? isDigit word
  boundedInt (digits.foldl (fun value c => base * value + (Document.hexDigit? c).getD 0) 0 : Nat)

def integer? : List Char → Option Document
  | '0' :: 'x' :: rest => basedInt? 16 rest
  | '0' :: 'o' :: rest => basedInt? 8 rest
  | '0' :: 'b' :: rest => basedInt? 2 rest
  | word => decimalInt? word

/-- The exponent of a float with its mark, spelled without underscores. -/
def floatExponent? : List Char → Option (List Char)
  | [] => some []
  | mark :: rest => do
    let (negative, body) := Decimal.splitSign rest
    let digits ← spacedDigits? Char.isDigit body
    if mark = 'e' ∨ mark = 'E' then some ('e' :: (if negative then '-' else '+') :: digits)
    else none

def isExponentMark (c : Char) : Bool := c = 'e' || c = 'E'

/-- A number with a fraction, an exponent or both. Too large a positive number is no float. -/
def float? (word : List Char) : Option Document := do
  let (negative, body) := Decimal.splitSign word
  let whole := body.takeWhile fun c => c ≠ '.' && !isExponentMark c
  let rest := body.drop whole.length
  let wholeDigits ← wholeDigits? whole
  let (places, rest) ← match rest with
    | '.' :: rest =>
      let places := rest.takeWhile fun c => !isExponentMark c
      (spacedDigits? Char.isDigit places).map fun digits => ('.' :: digits, rest.drop places.length)
    | [] => none
    | rest => some ([], rest)
  let exponent ← floatExponent? rest
  let x ← Decimal.readUnsigned negative (wholeDigits ++ places ++ exponent)
  if x = Double.infinity false then none else some (.float x)

def specialFloat? (word : List Char) : Option Document :=
  let (negative, body) := Decimal.splitSign word
  if body = ['i', 'n', 'f'] then some (.float (Double.infinity negative))
  else if body = ['n', 'a', 'n'] then some (.float (Double.nan negative))
  else none

def twoDigits (low high : Nat) (a b : Char) : Bool :=
  a.isDigit && b.isDigit && low ≤ Decimal.digitsValue [a, b] && Decimal.digitsValue [a, b] ≤ high

def isLeapYear (year : Nat) : Bool := year % 4 == 0 && (year % 100 != 0 || year % 400 == 0)

def daysIn (year month : Nat) : Nat :=
  if month = 2 then (if isLeapYear year then 29 else 28)
  else if month = 4 ∨ month = 6 ∨ month = 9 ∨ month = 11 then 30
  else 31

def isOffset : List Char → Bool
  | [] => true
  | ['Z'] => true
  | ['z'] => true
  | [sign, a, b, ':', c, d] =>
    (sign = '+' || sign = '-') && twoDigits 0 23 a b && twoDigits 0 59 c d
  | _ => false

/-- Hours, minutes, seconds and fraction; gives what follows. -/
def afterTime? : List Char → Option (List Char)
  | a :: b :: ':' :: c :: d :: ':' :: e :: f :: rest =>
    if twoDigits 0 23 a b && twoDigits 0 59 c d && twoDigits 0 60 e f then
      match rest with
      | '.' :: rest =>
        if (rest.takeWhile Char.isDigit).isEmpty then none else some (rest.dropWhile Char.isDigit)
      | rest => some rest
    else none
  | _ => none

/-- Year, month and day; gives what follows. -/
def afterDate? : List Char → Option (List Char)
  | a :: b :: c :: d :: '-' :: e :: f :: '-' :: g :: h :: rest =>
    let year := Decimal.digitsValue [a, b, c, d]
    let month := Decimal.digitsValue [e, f]
    if [a, b, c, d].all Char.isDigit && twoDigits 1 12 e f && twoDigits 1 (daysIn year month) g h
    then some rest else none
  | _ => none

/-- Whether a word is a date, a time, or a date with a time and perhaps an offset. -/
def isMoment (word : List Char) : Bool :=
  match afterDate? word with
  | some [] => true
  | some (delimiter :: rest) =>
    (delimiter = 'T' || delimiter = 't' || delimiter = ' ') &&
      (match afterTime? rest with
      | some offset => isOffset offset
      | none => false)
  | none => afterTime? word == some []

/-- A date or time, as a table with a key that no record has. -/
def moment (word : List Char) : Document :=
  .table [("$moment", .text (String.ofList word))]

def scalar? (word : List Char) : Option Document :=
  if word = ['t', 'r', 'u', 'e'] then some (.bool true)
  else if word = ['f', 'a', 'l', 's', 'e'] then some (.bool false)
  else if isMoment word then some (moment word)
  else (float? word).or ((specialFloat? word).or (integer? word))

/-- Whether a date is followed by a blank and the beginning of a time. -/
def timeFollows (word rest : List Char) : Bool :=
  match afterDate? word, rest with
  | some [], ' ' :: c :: _ => c.isDigit
  | _, _ => false

def readScalar : Document.Reader Document := fun input =>
  let word := input.takeWhile isScalarChar
  let rest := input.dropWhile isScalarChar
  let (word, rest) :=
    if timeFollows word rest then
      let tail := rest.drop 1
      (word ++ ' ' :: tail.takeWhile isScalarChar, tail.dropWhile isScalarChar)
    else (word, rest)
  match scalar? word with
  | some value => .ok (value, rest)
  | none => .error "invalid value"

end Deliberation.Toml
