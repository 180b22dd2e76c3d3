import Deliberation.Action.Registry
import Deliberation.Sorting.Pivots
import Deliberation.Term.Order

/-!
Standard actions on sequences: least and greatest element, length, element by index, sorting, and
enumeration of elements and integers.
-/
namespace Deliberation.Library

/-- The first least element in the standard order. -/
def least : List Term → Option Term
  | [] => none
  | t :: rest => some (rest.foldl (fun best u => if best.order u = .gt then u else best) t)

/-- The last greatest element in the standard order. -/
def greatest : List Term → Option Term
  | [] => none
  | t :: rest => some (rest.foldl (fun best u => if best.order u = .gt then best else u) t)

def sequenceOf : List Term → List Term
  | .seq items :: _ => items
  | _ => []

/-- Whether the numbers in some terms are all integers or all floats. -/
def haveOneKindOfNumber (items : List Term) : Bool :=
  Term.numbersAllIn Number.isInt items || Term.numbersAllIn (fun n => !n.isInt) items

/-- The elements in the standard order; equal ones keep their order. With one kind of number every
stable sort gives this. Integers and floats together can stand in a circle, and then the result
depends on which elements are compared and there may be none. -/
def sort? (items : List Term) : Option (List Term) :=
  if haveOneKindOfNumber items then some (items.mergeSort fun a b => a.order b != .gt)
  else Sorting.sort? (fun a b => a.order b == .lt) items

def sorted (values : List Term) : Except Halt Term :=
  match sort? (sequenceOf values) with
  | some items => .ok (.seq items)
  | none => .error .panicked

def sorting : Action := .function [.sequence] fun _ => sorted

def extremum (name : String) (pick : List Term → Option Term) (values : List Term) :
    Except Halt Term :=
  match pick (sequenceOf values) with
  | some t => .ok t
  | none => .error (.raised (.precondition name "empty sequence"))

/-- The number of elements of a sequence or characters of a string. -/
def lengthOf : List Term → Except Halt Term
  | .seq items :: _ => .ok (.int (Int64.ofNat items.length))
  | .str text :: _ => .ok (.int (Int64.ofNat text.length))
  | other :: _ => .error (.raised (.typeMismatch ".length" "sequence or string" other.kind))
  | [] => .error (.raised (.precondition ".length" "a value is required"))

def nth : List Term → Except Halt Term
  | .num index :: values =>
    let items := sequenceOf values
    let i := index.toInt64.toInt
    match (if i < 0 then none else items[i.toNat]?) with
    | some t => .ok t
    | none =>
      .error (.raised (.precondition ".nth" ("index " ++ Int.repr i ++
        " out of range for sequence of length " ++ Nat.repr items.length)))
  | _ => .error (.raised (.precondition ".nth" "an index is required"))

/-- Each element of a sequence, or character of a string, in order. -/
def member : List Term → Plan
  | [target, source] => .choices target fun view =>
    (view.scope.elements source).map fun items => Offer.of (.terms items)
  | _ => .once fun _ => .ok (.answer false)

/-- Each integer from zero up to but not including a number. -/
def range : List Term → Plan
  | [target, bound] => .choices target fun view => do
    match ← view.scope.grounded bound with
    | .num n => return Offer.of (.range 0 n.toInt64.toInt)
    | other => throw (.raised (.typeMismatch ".range" "number" other.kind))
  | _ => .once fun _ => .ok (.answer false)

def addSequences (r : Registry) : Registry :=
  r.addFunction ".min" [.sequence] (fun _ => extremum ".min" least)
    |>.addFunction ".max" [.sequence] (fun _ => extremum ".max" greatest)
    |>.addFunction ".length" [.any] (fun _ => lengthOf)
    |>.addFunction ".nth" [.integer, .sequence] (fun _ => nth)
    |>.register ".sort" (some 2) sorting
    |>.addGenerator ".member" (some 2) member
    |>.addGenerator ".range" (some 2) range

end Deliberation.Library
