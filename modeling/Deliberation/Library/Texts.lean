import Deliberation.Action.Registry

/-! Standard actions on text: concatenation and the places where one text occurs in another. -/
namespace Deliberation.Library

/-- The sequences among some values; nothing if another kind of value is among them. -/
def allSequences : List Term → Option (List (List Term))
  | [] => some []
  | .seq items :: rest => (allSequences rest).map (items :: ·)
  | _ :: _ => none

/-- Sequences join to a sequence; any other mix joins as text. -/
def joinValues (values : List Term) : Term :=
  match allSequences values with
  | some sequences => .seq sequences.flatten
  | none => .str (String.join (values.map Term.plainText))

def groundAll (scope : Scope) : List Term → Except Halt (List Term)
  | [] => .ok []
  | arg :: rest => do
    let value ← scope.grounded arg
    let values ← groundAll scope rest
    return value :: values

/-- Unifies the last argument with the others joined. -/
def concat (args : List Term) : Plan := .once fun view => do
  match args.getLast? with
  | none => throw (.raised (.precondition ".concat" "a result argument is required"))
  | some result =>
    let values ← groundAll view.scope args.dropLast
    return .unify [(result, joinValues values)]

/-- Where one list of characters occurs in another, counted from `start`; overlaps count. -/
def occurrences (needle : List Char) (start : Nat) : List Char → List Nat
  | [] => if needle.isEmpty then [start] else []
  | c :: rest =>
    let later := occurrences needle (start + 1) rest
    if needle.isPrefixOf (c :: rest) then start :: later else later

/-- Each position, in characters, at which the first text occurs in the second. -/
def substring : List Term → Plan
  | [needle, haystack, target] => .choices target fun view => do
    let needle ← view.scope.grounded needle
    let haystack ← view.scope.grounded haystack
    let positions := occurrences needle.plainText.toList 0 haystack.plainText.toList
    return Offer.of (.terms (positions.map fun i => .int (Int64.ofNat i)))
  | _ => .once fun _ => .ok (.answer false)

def addTexts (r : Registry) : Registry :=
  r.addGenerator ".concat" none concat
    |>.addGenerator ".substring" (some 3) substring

end Deliberation.Library
