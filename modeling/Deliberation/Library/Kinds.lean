import Deliberation.Action.Registry

/-! Standard tests of what kind of term an argument is. -/
namespace Deliberation.Library

/-- Name and test of each kind. Their argument must be ground. -/
def kindTests : List (String × (Term → Bool)) := [
  (".atom", Term.isAtom),
  (".literal", fun t => match t with | .lit _ _ _ => true | _ => false),
  (".list", fun t => match t with | .seq _ => true | _ => false),
  (".number", fun t => match t with | .num _ => true | _ => false),
  (".string", fun t => match t with | .str _ => true | _ => false),
  (".structure", fun t => match t with
    | .seq _ => true
    | .lit functor args annots => !(Term.lit functor args annots).isAtom
    | _ => false)]

def testFirst (test : Term → Bool) : List Term → Except Halt Bool
  | t :: _ => .ok (test t)
  | [] => .ok false

/-- Whether an argument has no unbound variable, which is no error here. -/
def ground (args : List Term) : Plan := .once fun view =>
  match args with
  | [t] => .ok (.answer (view.scope.isGround t))
  | _ => .ok (.answer false)

def addKinds (r : Registry) : Registry :=
  (kindTests.foldl (fun r entry => r.addPredicate entry.1 [.any] (testFirst entry.2)) r)
    |>.addGenerator ".ground" (some 1) ground

end Deliberation.Library
