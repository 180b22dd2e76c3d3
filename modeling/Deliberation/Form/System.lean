import Deliberation.Form.Term
import Deliberation.Scheduler

/-!
Written systems: agents with their initial beliefs, rules and goals, and the settings of the
scheduler. Every belief, every rule and every goal is a namespace of its own.
-/
namespace Deliberation

structure RuleForm where
  head : TermForm
  body : TermForm

structure GoalForm where
  goal : TermForm
  policy : Policy := .first

structure AgentForm where
  name : String
  beliefs : List TermForm := []
  rules : List RuleForm := []
  goals : List GoalForm := []

structure SystemForm where
  config : SchedulerConfig := {}
  agents : List AgentForm := []

/-- A system that cannot be built, with what the platform had become by then. -/
structure BuildFailure where
  error : ConfigError
  platform : Platform

namespace AgentForm

def fail {α : Type} (p : Platform) (fault : TermFault) : Except BuildFailure α :=
  .error ⟨.invalidTerm fault, p⟩

/-- Adds a belief; one that is believed already is skipped with a note in the journal. -/
def addBelief (a : Agent) (form : TermForm) (p : Platform) :
    Except BuildFailure (Agent × Platform) :=
  match form.buildAlone p.supply with
  | .error fault => fail p fault
  | .ok (belief, supply) =>
    let p := { p with supply }
    if belief.group?.isNone then fail p (.beliefNotLiteral a.name belief)
    else
      match a.beliefs.add? belief with
      | some beliefs => .ok (a.withBeliefs beliefs, p)
      | none =>
        let journal := p.journal.warn "skipping duplicate belief"
          [("agent", a.name), ("belief", belief.text)]
        .ok (a, { p with journal })

/-- Adds a rule, whose head and body share their names. -/
def addRule (a : Agent) (form : RuleForm) (p : Platform) :
    Except BuildFailure (Agent × Platform) :=
  let built := do
    let (head, names, supply) ← form.head.build [] p.supply
    let (body, _, supply) ← form.body.build names supply
    return (Rule.mk head body, supply)
  match built with
  | .error fault => fail p fault
  | .ok (rule, supply) =>
    match a.beliefs.addRule? rule with
    | some beliefs => .ok (a.withBeliefs beliefs, { p with supply })
    | none => fail { p with supply } (.headNotLiteral a.name rule.head rule.body)

def addGoal (a : Agent) (form : GoalForm) (p : Platform) :
    Except BuildFailure (Agent × Platform) :=
  match form.goal.buildAlone p.supply with
  | .error fault => fail p fault
  | .ok (goal, supply) =>
    let (_, a, p) := a.adopt goal form.policy { p with supply }
    .ok (a, p)

/-- Adds one form after the other, up to the first failure. -/
def addEach {φ : Type} (add : Agent → φ → Platform → Except BuildFailure (Agent × Platform)) :
    List φ → Agent → Platform → Except BuildFailure (Agent × Platform)
  | [], a, p => .ok (a, p)
  | form :: rest, a, p => do
    let (a, p) ← add a form p
    addEach add rest a p

def build (form : AgentForm) (p : Platform) : Except BuildFailure (Agent × Platform) := do
  let (a, p) := Agent.create form.name p
  let (a, p) ← addEach addBelief form.beliefs a p
  let (a, p) ← addEach addRule form.rules a p
  addEach addGoal form.goals a p

end AgentForm

namespace Scheduler

/-- Builds an agent on the scheduler's own platform and adds it. -/
def addForm (s : Scheduler) (form : AgentForm) : Except BuildFailure Scheduler := do
  let (a, p) ← form.build s.platform
  return { s with platform := p }.addAgent a

def addForms (s : Scheduler) : List AgentForm → Except BuildFailure Scheduler
  | [] => .ok s
  | form :: rest => do
    let s ← s.addForm form
    s.addForms rest

end Scheduler

/-- A scheduler with every agent of the system, over an empty one with actions and a platform. -/
def SystemForm.build (form : SystemForm) (start : Scheduler) : Except BuildFailure Scheduler := do
  let s ← { start with config := form.config }.addForms form.agents
  let journal := s.platform.journal.info "system built"
    [("agents", Nat.repr s.agents.length), ("intentions", Nat.repr s.intentionCount)]
  return { s with platform := { s.platform with journal } }

end Deliberation
