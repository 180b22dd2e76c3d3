import Deliberation.Term.Basic
import Deliberation.Text.Quoted

/-! The text of a term, as it is printed and as it stands in messages. -/
namespace Deliberation

def Var.text (v : Var) : String := "_" ++ Nat.repr v.id

namespace Term

/-- A bracketed list, or nothing if there are no parts. -/
def bracketed (left right : String) (parts : List String) : String :=
  if parts.isEmpty then "" else left ++ String.intercalate ", " parts ++ right

mutual
def text : Term → String
  | var v => v.text
  | num n => n.text
  | str s => Text.quote s
  | seq items => "[" ++ String.intercalate ", " (textOfAll items) ++ "]"
  | lit functor args annots =>
    functor ++ bracketed "(" ")" (textOfAll args) ++ bracketed "[" "]" (textOfAll annots)

def textOfAll : List Term → List String
  | [] => []
  | t :: rest => text t :: textOfAll rest
end

/-- The text with a string at the top left unquoted. -/
def plainText : Term → String
  | str s => s
  | t => t.text

end Term

end Deliberation
