import Deliberation.Double

/-!
Documents: the values that a text in a data format stands for, whatever the format. Readers give
back what is left of the text, and a short description of what they missed when they fail.
-/
namespace Deliberation

inductive Document where
  | null
  | bool (value : Bool)
  | int (value : Int)
  | float (value : Double)
  | text (value : String)
  /-- Well formed, but standing for no value: a number out of range, or half a character. -/
  | unreadable
  | list (items : List Document)
  | table (entries : List (String × Document))
deriving Inhabited

namespace Document

abbrev Reader (α : Type) := List Char → Except String (α × List Char)

def hexDigit? (c : Char) : Option Nat :=
  if c.isDigit then some (c.toNat - '0'.toNat)
  else if 'a' ≤ c ∧ c ≤ 'f' then some (c.toNat - 'a'.toNat + 10)
  else if 'A' ≤ c ∧ c ≤ 'F' then some (c.toNat - 'A'.toNat + 10)
  else none

/-- The value of hexadecimal digits, all of which must be such. -/
def hexValue? (digits : List Char) : Option Nat :=
  digits.foldl (fun value c => do return 16 * (← value) + (← hexDigit? c)) (some 0)

/-- The character with a code point, which must not be a surrogate or out of range. -/
def charOf? (code : Nat) : Option Char :=
  if code < 0xD800 ∨ (0xDFFF < code ∧ code < 0x110000) then some (Char.ofNat code) else none

end Document

end Deliberation
