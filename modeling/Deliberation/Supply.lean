import Deliberation.Trail

/-! Fresh identifiers. Each kind is numbered from one, and no number is handed out twice. -/
namespace Deliberation

structure AgentId where
  id : Nat
deriving DecidableEq, Repr

structure IntentionId where
  id : Nat
deriving DecidableEq, Repr

def AgentId.text (a : AgentId) : String := "agent:" ++ Nat.repr a.id

def IntentionId.text (i : IntentionId) : String := "int:" ++ Nat.repr i.id

structure Supply where
  nextVar : Nat := 1
  nextAgent : Nat := 1
  nextIntention : Nat := 1
  nextChoicepoint : Nat := 1
deriving Repr

namespace Supply

def freshVar (s : Supply) : Var × Supply := (⟨s.nextVar⟩, { s with nextVar := s.nextVar + 1 })

/-- Several new variables, in increasing order. -/
def freshVars (s : Supply) (count : Nat) : List Var × Supply :=
  ((List.range count).map fun i => ⟨s.nextVar + i⟩, { s with nextVar := s.nextVar + count })

def freshAgent (s : Supply) : AgentId × Supply :=
  (⟨s.nextAgent⟩, { s with nextAgent := s.nextAgent + 1 })

def freshIntention (s : Supply) : IntentionId × Supply :=
  (⟨s.nextIntention⟩, { s with nextIntention := s.nextIntention + 1 })

def freshChoicepoint (s : Supply) : Choicepoint × Supply :=
  (⟨s.nextChoicepoint⟩, { s with nextChoicepoint := s.nextChoicepoint + 1 })

end Supply

end Deliberation
