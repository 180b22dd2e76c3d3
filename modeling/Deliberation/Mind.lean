import Deliberation.Belief
import Deliberation.Journal
import Deliberation.Supply

/-! What an agent is to its own goals: an identity, a name and a belief base. -/
namespace Deliberation

structure Mind where
  id : AgentId
  name : String
  beliefs : BeliefBase := {}

def Mind.dump (m : Mind) (j : Journal) : Journal :=
  let agent := ("agent", m.id.text)
  let start := j.info "belief dump"
    [agent, ("name", m.name), ("beliefs", Nat.repr m.beliefs.size)]
  m.beliefs.groups.foldl (fun j g =>
    let j := (m.beliefs.lookup g).foldl (fun j fact => j.info fact.text [agent]) j
    (m.beliefs.rules g).foldl (fun j rule => j.info rule.text [agent]) j) start

end Deliberation
