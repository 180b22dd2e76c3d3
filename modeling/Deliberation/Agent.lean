import Deliberation.Goal.Resume

/-!
Agents: a mind and the goals it is committed to, each pursued in an intention of its own. The
commitments form a queue.
-/
namespace Deliberation

/-- When a goal counts as achieved: at its first solution, or once all have been produced. -/
inductive Policy where
  | first
  | all
deriving DecidableEq, Repr

def Policy.name : Policy → String
  | first => "First"
  | all => "All"

structure Commitment where
  intention : Intention
  goal : Term
  policy : Policy
  query : Query
  solutions : Nat := 0

def Commitment.id (c : Commitment) : IntentionId := c.intention.id

structure Agent where
  mind : Mind
  commitments : List Commitment := []

namespace Agent

def id (a : Agent) : AgentId := a.mind.id

def name (a : Agent) : String := a.mind.name

def beliefs (a : Agent) : BeliefBase := a.mind.beliefs

def withBeliefs (a : Agent) (beliefs : BeliefBase) : Agent :=
  { a with mind := { a.mind with beliefs } }

def create (name : String) (p : Platform) : Agent × Platform :=
  let (id, supply) := p.supply.freshAgent
  ({ mind := { id, name } }, { p with supply })

/-- Commits to a goal in a new intention at the end of the queue. -/
def adopt (a : Agent) (goal : Term) (policy : Policy) (p : Platform) :
    IntentionId × Agent × Platform :=
  let (id, supply) := p.supply.freshIntention
  let commitment : Commitment := { intention := { id }, goal, policy, query := .new goal }
  let journal := p.journal.debug "goal adopted"
    [("agent", a.id.text), ("intention", id.text), ("goal", goal.text)]
  (id, { a with commitments := a.commitments ++ [commitment] }, { p with supply, journal })

/-- Gives an intention up; nothing if the agent has none of that number. -/
def abandon? (a : Agent) (id : IntentionId) : Option Agent :=
  if a.commitments.any fun c => c.id = id then
    some { a with commitments := a.commitments.filter fun c => c.id ≠ id }
  else none

def commitment? (a : Agent) (id : IntentionId) : Option Commitment :=
  a.commitments.find? fun c => c.id = id

end Agent

end Deliberation
