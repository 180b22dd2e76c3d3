import Deliberation.Agent

/-!
The scheduler: one step at a time, the next agent in turn resumes its first runnable intention,
which then goes to the back of that agent's queue. Intentions whose deadline lies ahead are passed
over.
-/
namespace Deliberation

structure SchedulerConfig where
  /-- Most steps of one run, if bounded. -/
  maxSteps : Option Nat := none
  /-- Longest sleep while all intentions wait, in milliseconds. -/
  idlePoll : Nat := 10
deriving DecidableEq, Repr

inductive StepOutcome where
  | solution (agent : AgentId) (intention : IntentionId)
  | suspended (agent : AgentId) (intention : IntentionId)
  | completed (agent : AgentId) (intention : IntentionId) (solutions : Nat)
  | failed (agent : AgentId) (intention : IntentionId)
  | aborted (agent : AgentId) (intention : IntentionId) (error : EngineError)
  /-- The program has ended in the middle of the step. -/
  | panicked (agent : AgentId) (intention : IntentionId)
  | idle (nextDeadline : Option Time)
  | noIntentions
  | shutdown

def StepOutcome.dispatched : StepOutcome → Bool
  | idle _ => false
  | noIntentions => false
  | shutdown => false
  | _ => true

inductive StopReason where
  | noIntentions
  | shutdown
  | stepLimit
deriving DecidableEq, Repr

def StopReason.name : StopReason → String
  | noIntentions => "NoIntentions"
  | shutdown => "Shutdown"
  | stepLimit => "StepLimit"

structure Summary where
  steps : Nat := 0
  solutions : Nat := 0
  completed : Nat := 0
  failed : Nat := 0
  aborted : Nat := 0
  stopped : StopReason := .noIntentions
deriving DecidableEq, Repr

def Summary.text (s : Summary) : String :=
  Nat.repr s.steps ++ " steps, " ++ Nat.repr s.solutions ++ " solutions, " ++
    Nat.repr s.completed ++ " completed, " ++ Nat.repr s.failed ++ " failed, " ++
    Nat.repr s.aborted ++ " aborted (" ++ s.stopped.name ++ ")"

structure Scheduler where
  actions : Registry := {}
  platform : Platform := {}
  config : SchedulerConfig := {}
  agents : List Agent := []
  nextAgent : Nat := 0
  steps : Nat := 0
  solutions : Nat := 0

namespace Scheduler

def addAgent (s : Scheduler) (a : Agent) : Scheduler :=
  let journal := s.platform.journal.debug "agent added" [("agent", a.id.text), ("name", a.name)]
  { s with agents := s.agents ++ [a], platform := { s.platform with journal } }

def setAgent (s : Scheduler) (index : Nat) (a : Agent) : Scheduler :=
  { s with agents := s.agents.set index a }

def adopt? (s : Scheduler) (index : Nat) (goal : Term) (policy : Policy) :
    Option (IntentionId × Scheduler) :=
  s.agents[index]?.map fun agent =>
    let (id, agent, platform) := agent.adopt goal policy s.platform
    (id, { s.setAgent index agent with platform })

/-- Lets the agent at a position give an intention up, if it has it. -/
def abandon? (s : Scheduler) (index : Nat) (id : IntentionId) : Option Scheduler :=
  s.agents[index]?.bind fun agent => (agent.abandon? id).map (s.setAgent index)

/-- Changes the beliefs of the agent at a position, if the change is possible. -/
def believe? (s : Scheduler) (index : Nat) (change : BeliefBase → Option BeliefBase) :
    Option Scheduler :=
  s.agents[index]?.bind fun agent =>
    (change agent.beliefs).map fun beliefs => s.setAgent index (agent.withBeliefs beliefs)

def intentionCount (s : Scheduler) : Nat := s.agents.foldr (fun a n => a.commitments.length + n) 0

/-- The place of the first commitment in a queue that is runnable, and the queue with it awake. -/
def wakeFirst (now : Time) : List Commitment → Option (Nat × List Commitment)
  | [] => none
  | c :: rest =>
    match c.intention.wake? now with
    | some intention => some (0, { c with intention } :: rest)
    | none => (wakeFirst now rest).map fun (place, queue) => (place + 1, c :: queue)

/-- The indices of all agents, beginning with the one whose turn it is. -/
def turns (s : Scheduler) : List Nat :=
  (List.range s.agents.length).map fun offset => (s.nextAgent + offset) % s.agents.length

/-- What is resumed next: the index of the agent, the place in its queue, and the system with that
commitment awake. -/
def select (s : Scheduler) (now : Time) : Option (Nat × Nat × Scheduler) :=
  s.turns.findSome? fun index =>
    match s.agents[index]? with
    | none => none
    | some agent =>
      (wakeFirst now agent.commitments).map fun (place, commitments) =>
        (index, place, s.setAgent index { agent with commitments })

/-- Takes the commitment at a place out of the queue of an agent. -/
def take? (s : Scheduler) (index place : Nat) : Option (Agent × Commitment) :=
  s.agents[index]?.bind fun agent => agent.commitments[place]?.map fun c =>
    ({ agent with commitments := agent.commitments.eraseIdx place }, c)

def deadlines (s : Scheduler) : List Time :=
  s.agents.flatMap fun a => a.commitments.filterMap fun c => c.intention.deadline

def idleOutcome (s : Scheduler) : StepOutcome :=
  if s.intentionCount = 0 then .noIntentions else .idle s.deadlines.min?

def note (p : Platform) (entry : Journal → Journal) : Platform :=
  { p with journal := entry p.journal }

/-- The fields that name a commitment in the journal. -/
def fields (agent : AgentId) (c : Commitment) : List (String × String) :=
  [("agent", agent.text), ("intention", c.id.text), ("goal", c.goal.text)]

/-- The end of a commitment whose goal is achieved or has no solution. -/
def finish (agent : AgentId) (c : Commitment) (p : Platform) : StepOutcome × Platform :=
  if 0 < c.solutions then
    (.completed agent c.id c.solutions, note p fun j => j.info "goal achieved"
      (fields agent c ++ [("solutions", Nat.repr c.solutions)]))
  else (.failed agent c.id, note p fun j => j.info "goal failed" (fields agent c))

/-- What a resumption means for the commitment, and whether it goes on. -/
def settle (agent : AgentId) (c : Commitment) (p : Platform) :
    Except Halt Event → StepOutcome × Bool × Platform
  | .ok .solution =>
    match c.policy with
    | .first =>
      let (outcome, p) := finish agent c p
      (outcome, false, p)
    | .all => (.solution agent c.id, true, p)
  | .ok .suspended => (.suspended agent c.id, true, p)
  | .ok .exhausted =>
    let (outcome, p) := finish agent c p
    (outcome, false, p)
  | .error (.raised e) =>
    (.aborted agent c.id e, false, note p fun j => j.warn "intention aborted"
      (fields agent c ++ [("error", e.message)]))
  | .error .panicked => (.panicked agent c.id, false, p)

/-- Resumes one commitment, which has been taken out of the queue of its agent, once. -/
def dispatch (limit : Nat) (s : Scheduler) (index : Nat) (agent : Agent) (c : Commitment) :
    Option (StepOutcome × Scheduler) :=
  let platform := note s.platform fun j => j.debug "step"
    [("agent", agent.id.text), ("intention", c.id.text), ("step", Nat.repr s.steps)]
  let ctx : Context := { actions := s.actions, mind := agent.mind }
  match c.query.resume ctx limit { intention := c.intention, platform } with
  | none => none
  | some ⟨result, query, state⟩ =>
    let found := match result with
      | .ok .solution => 1
      | _ => 0
    let c := { c with intention := state.intention, query, solutions := c.solutions + found }
    let (outcome, continues, platform) := settle agent.id c state.platform result
    let commitments := if continues then agent.commitments ++ [c] else agent.commitments
    some (outcome, { s.setAgent index { agent with commitments } with
      platform, solutions := s.solutions + found })

/-- One step, with `now` as the time that deadlines are compared with; nothing if the limit on the
work of one resumption is reached. -/
def stepAt (limit : Nat) (s : Scheduler) (now : Time) : Option (StepOutcome × Scheduler) :=
  if s.platform.stopping then some (.shutdown, s)
  else
    match s.select now with
    | none => some (s.idleOutcome, s)
    | some (index, place, s) =>
      let s := { s with nextAgent := (index + 1) % s.agents.length, steps := s.steps + 1 }
      match s.take? index place with
      | none => some (.noIntentions, s)
      | some (agent, c) => s.dispatch limit index agent c

/-- One step at the time the clock shows. -/
def step (limit : Nat) (s : Scheduler) : Option (StepOutcome × Scheduler) :=
  let (now, platform) := s.platform.readClock
  { s with platform }.stepAt limit now

def tally (summary : Summary) : StepOutcome → Summary
  | .completed _ _ _ => { summary with completed := summary.completed + 1 }
  | .failed _ _ => { summary with failed := summary.failed + 1 }
  | .aborted _ _ _ => { summary with aborted := summary.aborted + 1 }
  | _ => summary

def sleep (s : Scheduler) : Option Time → Scheduler
  | none => s
  | some deadline =>
    { s with platform := { s.platform with clock := s.platform.clock.sleepUntil deadline } }

/-- Whether a run that began at `start` has used up its steps. -/
def atLimit (s : Scheduler) (start : Nat) : Bool :=
  match s.config.maxSteps with
  | some most => most ≤ s.steps - start
  | none => false

inductive Progress where
  | stopped (summary : Summary)
  | panicked
  | waiting (deadline : Option Time)
  | going (summary : Summary)

/-- One round of a run that began when `start` steps had been made. -/
def advance (limit start : Nat) (s : Scheduler) (summary : Summary) :
    Option (Progress × Scheduler) :=
  if s.atLimit start then some (.stopped { summary with stopped := .stepLimit }, s)
  else
    match s.step limit with
    | none => none
    | some (.shutdown, s) => some (.stopped { summary with stopped := .shutdown }, s)
    | some (.noIntentions, s) => some (.stopped { summary with stopped := .noIntentions }, s)
    | some (.idle deadline, s) => some (.waiting deadline, s)
    | some (.panicked _ _, s) => some (.panicked, s)
    | some (outcome, s) => some (.going (tally summary outcome), s)

/-- How a run ends: it returns its summary, or it panics and returns nothing. -/
inductive Ending where
  | returned (summary : Summary)
  | panicked

def runFrom (limit start : Nat) : Nat → Scheduler → Summary → Option (Ending × Scheduler)
  | 0, _, _ => none
  | rounds + 1, s, summary =>
    match s.advance limit start summary with
    | none => none
    | some (.stopped summary, s) => some (.returned summary, s)
    | some (.panicked, s) => some (.panicked, s)
    | some (.waiting deadline, s) => runFrom limit start rounds (s.sleep deadline) summary
    | some (.going summary, s) => runFrom limit start rounds s summary

/-- Completes the totals of a run and notes them in the journal. -/
def close (s : Scheduler) (steps solutions : Nat) (summary : Summary) : Summary × Scheduler :=
  let summary := { summary with
    steps := s.steps - steps, solutions := s.solutions - solutions }
  let platform := note s.platform fun j =>
    j.info "scheduler stopped" [("summary", summary.text)]
  (summary, { s with platform })

/-- Runs until no intention is left, the system is asked to stop or the steps are used up, unless a
resumption panics. What has happened before a panic stays. -/
def run (limit : Nat) (s : Scheduler) : Option (Ending × Scheduler) :=
  match runFrom limit s.steps limit s {} with
  | none => none
  | some (.panicked, ended) => some (.panicked, ended)
  | some (.returned summary, ended) =>
    let (summary, ended) := ended.close s.steps s.solutions summary
    some (.returned summary, ended)

end Scheduler

end Deliberation
