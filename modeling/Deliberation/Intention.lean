import Deliberation.Clock
import Deliberation.Supply
import Deliberation.Unify

/-!
Intentions: one line of reasoning each. An intention owns its bindings and may have a deadline
before which it is not resumed.
-/
namespace Deliberation

structure Intention where
  id : IntentionId
  bindings : Bindings := {}
  deadline : Option Time := none
  /-- How often all bindings have been dropped at once. -/
  resets : Nat := 0

namespace Intention

def scope (i : Intention) : Scope := i.bindings.scope

def isWaiting (i : Intention) (now : Time) : Bool :=
  match i.deadline with
  | some deadline => now < deadline
  | none => false

/-- The intention with a deadline that has passed removed; nothing while it still waits. -/
def wake? (i : Intention) (now : Time) : Option Intention :=
  if i.isWaiting now then none else some { i with deadline := none }

end Intention

end Deliberation
