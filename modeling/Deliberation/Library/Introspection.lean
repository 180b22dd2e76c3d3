import Deliberation.Action.Registry

/-!
Standard actions by which an agent looks at itself: its name, its beliefs, how many facts match a
pattern, and all solutions of a goal.
-/
namespace Deliberation.Library

/-- The facts that a resolved pattern unifies with, each tried in an empty scope. -/
def matching (beliefs : BeliefBase) (pattern : Term) (g : Group) : List Term :=
  (beliefs.lookup g).filter fun fact => (({} : Bindings).unify pattern fact).1

/-- Unifies the second argument with the number of facts that match the first. -/
def count : List Term → Plan
  | [pattern, total] => .once fun view =>
    let pattern := view.scope.resolve pattern
    match pattern, pattern.group? with
    | .var v, _ => .error (.raised (.instantiation (.var v)))
    | other, none => .error (.raised (.invalidGoal other))
    | _, some g =>
      .ok (.unify [(total, .int (Int64.ofNat (matching view.mind.beliefs pattern g).length))])
  | _ => .once fun _ => .ok (.answer false)

/-- Unifies the third argument with the snapshots of the first over all solutions of the second. -/
def findall : List Term → Plan
  | [pattern, goal, result] => .collect pattern goal result
  | _ => .once fun _ => .ok (.answer false)

def myName : List Term → Plan
  | [target] => .once fun view => .ok (.unify [(target, .atom view.mind.name)])
  | _ => .once fun _ => .ok (.answer false)

def addIntrospection (r : Registry) : Registry :=
  r.addGenerator ".count" (some 2) count
    |>.addGenerator ".findall" (some 3) findall
    |>.addGenerator ".my_name" (some 1) myName
    |>.addGenerator ".dump" (some 0) (fun _ => .once fun _ => .ok .dump)

end Deliberation.Library
