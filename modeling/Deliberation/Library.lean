import Deliberation.Library.Control
import Deliberation.Library.Introspection
import Deliberation.Library.Kinds
import Deliberation.Library.Sequences
import Deliberation.Library.Surroundings
import Deliberation.Library.Texts

/-! The standard library of actions. -/
namespace Deliberation.Library

def addStandard (r : Registry) : Registry :=
  addSurroundings (addTexts (addSequences (addKinds (addIntrospection (addControl r)))))

def standard : Registry := addStandard {}

/-- Notes in the journal that the standard library is in place. -/
def announce (r : Registry) (j : Journal) : Journal :=
  j.debug "standard library registered" [("actions", Nat.repr r.size)]

end Deliberation.Library
