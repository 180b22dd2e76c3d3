import Deliberation.Text.Unprintable

/-!
Quoted text: the form of a string inside a term. Quotes, backslashes and characters without a
visible form are written as escapes, so that the text stays on one line.
-/
namespace Deliberation.Text

/-- A code point as lower-case hexadecimal digits between braces. -/
def hexEscape (c : Char) : List Char :=
  '\\' :: 'u' :: '\x7b' :: Nat.toDigits 16 c.toNat ++ ['\x7d']

def escapeChar (c : Char) : List Char :=
  if c = '"' then ['\\', '"']
  else if c = '\\' then ['\\', '\\']
  else if c = '\n' then ['\\', 'n']
  else if c = '\r' then ['\\', 'r']
  else if c = '\t' then ['\\', 't']
  else if c = '\x00' then ['\\', '0']
  else if isUnprintable c then hexEscape c
  else [c]

/-- A string between double quotes, with escapes. -/
def quote (text : String) : String :=
  String.ofList ('"' :: text.toList.flatMap escapeChar ++ ['"'])

end Deliberation.Text
