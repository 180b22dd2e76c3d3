import Deliberation.Decimal.Reading
import Deliberation.Document.Basic

/-!
Reading JSON. Numbers are taken from at most sixty-four bits of digits, scaled by one multiplication
or division with a power of ten, so that the last bit may differ from the nearest double; integers
that fit stay exact.
-/
namespace Deliberation.Json

def isBlank (c : Char) : Bool := c = ' ' || c = '\n' || c = '\t' || c = '\r'

def skipBlank (text : List Char) : List Char := text.dropWhile isBlank

/-- A part of a string: a character, or a sixteen-bit unit from an escape. -/
inductive Piece where
  | char (c : Char)
  | unit (code : Nat)

def isHighSurrogate (code : Nat) : Bool := 0xD800 ≤ code && code ≤ 0xDBFF

def isLowSurrogate (code : Nat) : Bool := 0xDC00 ≤ code && code ≤ 0xDFFF

/-- The characters of the pieces; nothing if a surrogate stands without its partner. -/
def joinPieces : List Piece → Option (List Char)
  | [] => some []
  | .char c :: rest => (joinPieces rest).map (c :: ·)
  | .unit high :: .unit low :: rest =>
    if isHighSurrogate high && isLowSurrogate low then
      let code := 0x10000 + (high - 0xD800) * 0x400 + (low - 0xDC00)
      (joinPieces rest).map (Char.ofNat code :: ·)
    else do
      let c ← Document.charOf? high
      (joinPieces (.unit low :: rest)).map (c :: ·)
  | .unit code :: rest => do
    let c ← Document.charOf? code
    (joinPieces rest).map (c :: ·)

def simpleEscape? : Char → Option Char
  | '"' => some '"'
  | '\\' => some '\\'
  | '/' => some '/'
  | 'b' => some '\x08'
  | 'f' => some '\x0c'
  | 'n' => some '\n'
  | 'r' => some '\r'
  | 't' => some '\t'
  | _ => none

/-- The pieces up to the closing quote, the newest first in `done`. -/
def readPieces (done : List Piece) : Document.Reader (List Piece)
  | [] => .error "unterminated string"
  | '"' :: rest => .ok (done.reverse, rest)
  | '\\' :: 'u' :: a :: b :: c :: d :: rest =>
    match Document.hexValue? [a, b, c, d] with
    | some code => readPieces (.unit code :: done) rest
    | none => .error "invalid escape"
  | '\\' :: e :: rest =>
    match simpleEscape? e with
    | some c => readPieces (.char c :: done) rest
    | none => .error "invalid escape"
  | c :: rest =>
    if c.toNat < 0x20 ∨ c = '\\' then .error "control character in string"
    else readPieces (.char c :: done) rest

/-- The text of a string after its opening quote, if it stands for one. -/
def readString : Document.Reader (Option String) := fun text => do
  let (pieces, rest) ← readPieces [] text
  return ((joinPieces pieces).map String.ofList, rest)

structure Literal where
  negative : Bool
  whole : List Char
  places : List Char
  exponent : Option (Bool × List Char)

/-- Digits collected in sixty-four bits, with the power of ten they are to be scaled by. -/
structure Significand where
  value : Nat := 0
  exponent : Int := 0
  full : Bool := false

def digitOf (c : Char) : Nat := c.toNat - '0'.toNat

def fits (value digit : Nat) : Bool := value * 10 + digit < UInt64.size

/-- A digit before the point: once there is no room, digits only count. -/
def Significand.whole (s : Significand) (c : Char) : Significand :=
  if !s.full && fits s.value (digitOf c) then { s with value := s.value * 10 + digitOf c }
  else { s with exponent := s.exponent + 1, full := true }

/-- A digit after the point: once there is no room, digits are dropped. -/
def Significand.place (s : Significand) (c : Char) : Significand :=
  if !s.full && fits s.value (digitOf c) then
    { s with value := s.value * 10 + digitOf c, exponent := s.exponent - 1 }
  else { s with full := true }

def powerOfTen (k : Nat) : Double := Double.ofRatio false (Nat.pow 10 k) 1

/-- Division by a power of ten, in steps that stay within the range of doubles. Four steps take
every sixty-four bit number to zero. -/
def scaleDown : Nat → Double → Nat → Double
  | 0, x, _ => x
  | steps + 1, x, k =>
    if k ≤ 308 then x.div (powerOfTen k)
    else if x.magnitude = 0 then x
    else scaleDown steps (x.div (powerOfTen 308)) (k - 308)

/-- A significand times a power of ten, unless that is out of range. -/
def scale? (value : Nat) (exponent : Int) : Option Double :=
  let x := Double.ofInt value
  if exponent < 0 then some (scaleDown 5 x exponent.natAbs)
  else if exponent ≤ 308 then
    let y := x.mul (powerOfTen exponent.natAbs)
    if y.isInfinite then none else some y
  else if value = 0 then some x
  else none

def signed (negative : Bool) (x : Double) : Document :=
  .float (Double.withSign negative (x.bits.toNat % Double.signUnit))

/-- An exponent of more than thirty-one bits is out of range or takes the value to zero. -/
def Literal.scaled (l : Literal) (s : Significand) : Document :=
  let finish (exponent : Int) : Document :=
    match scale? s.value exponent with
    | some x => signed l.negative x
    | none => .unreadable
  match l.exponent with
  | none => finish s.exponent
  | some (negative, digits) =>
    let size := Decimal.digitsValue digits
    if Int32.maxValue.toInt < size then
      if s.value ≠ 0 ∧ !negative then .unreadable else signed l.negative (Double.zero false)
    else finish (if negative then s.exponent - size else s.exponent + size)

/-- An integer if it is written as one and fits, and a float otherwise; minus zero is a float. -/
def Literal.document (l : Literal) : Document :=
  let s := l.whole.foldl Significand.whole {}
  if l.places.isEmpty && l.exponent.isNone && !s.full then
    if !l.negative then .int s.value
    else if s.value ≠ 0 ∧ s.value ≤ Double.signUnit then .int (-s.value)
    else signed true (Double.ofInt s.value)
  else l.scaled (l.places.foldl Significand.place { s with full := false })

def readDigits : Document.Reader (List Char) := fun text =>
  let digits := text.takeWhile Char.isDigit
  if digits.isEmpty then .error "invalid number" else .ok (digits, text.dropWhile Char.isDigit)

def readPlaces : Document.Reader (List Char)
  | '.' :: rest => readDigits rest
  | rest => .ok ([], rest)

def readExponent : Document.Reader (Option (Bool × List Char))
  | mark :: rest =>
    if mark = 'e' ∨ mark = 'E' then do
      let (negative, rest) := Decimal.splitSign rest
      let (digits, rest) ← readDigits rest
      return (some (negative, digits), rest)
    else .ok (none, mark :: rest)
  | [] => .ok (none, [])

def readNumber : Document.Reader Document := fun text => do
  let (negative, rest) := match text with
    | '-' :: rest => (true, rest)
    | rest => (false, rest)
  let (whole, rest) ← readDigits rest
  if whole.head? = some '0' ∧ whole.length ≠ 1 then throw "invalid number"
  let (places, rest) ← readPlaces rest
  let (exponent, rest) ← readExponent rest
  return (Literal.document { negative, whole, places, exponent }, rest)

def readWord (word : String) (value : Document) : Document.Reader Document := fun text =>
  if word.toList.isPrefixOf text then .ok (value, text.drop word.length)
  else .error "unexpected character"

/-- The table of some entries. A key that stands for no text leaves it unreadable. -/
def tableOf (entries : List (Option String × Document)) : Document :=
  match entries.mapM fun entry => entry.1.map fun key => (key, entry.2) with
  | some entries => .table entries
  | none => .unreadable

mutual
/-- Reads a value; `size` bounds the length of the text. -/
def readValue : Nat → Document.Reader Document
  | 0, _ => .error "unexpected end"
  | size + 1, text =>
    match skipBlank text with
    | [] => .error "unexpected end"
    | '\x7b' :: rest =>
      match skipBlank rest with
      | '\x7d' :: rest => .ok (.table [], rest)
      | rest => readEntries size [] rest
    | '[' :: rest =>
      match skipBlank rest with
      | ']' :: rest => .ok (.list [], rest)
      | rest => readItems size [] rest
    | '"' :: rest => do
      let (text?, rest) ← readString rest
      return (match text? with
        | some s => .text s
        | none => .unreadable, rest)
    | 't' :: rest => readWord "rue" (.bool true) rest
    | 'f' :: rest => readWord "alse" (.bool false) rest
    | 'n' :: rest => readWord "ull" .null rest
    | other => readNumber other

def readItems : Nat → List Document → Document.Reader Document
  | 0, _, _ => .error "unexpected end"
  | size + 1, done, text => do
    let (item, rest) ← readValue size text
    match skipBlank rest with
    | ',' :: rest => readItems size (item :: done) rest
    | ']' :: rest => return (.list (item :: done).reverse, rest)
    | _ => throw "expected a comma or the end of a list"

def readEntries : Nat → List (Option String × Document) → Document.Reader Document
  | 0, _, _ => .error "unexpected end"
  | size + 1, done, text =>
    match skipBlank text with
    | '"' :: rest => do
      let (key, rest) ← readString rest
      match skipBlank rest with
      | ':' :: rest =>
        let (value, rest) ← readValue size rest
        match skipBlank rest with
        | ',' :: rest => readEntries size ((key, value) :: done) rest
        | '\x7d' :: rest => return (tableOf ((key, value) :: done).reverse, rest)
        | _ => throw "expected a comma or the end of a table"
      | _ => throw "expected a colon"
    | _ => .error "expected a key"
end

def read (text : String) : Except String Document := do
  let chars := text.toList
  let (value, rest) ← readValue (chars.length + 1) chars
  if (skipBlank rest).isEmpty then return value else throw "trailing characters"

end Deliberation.Json
