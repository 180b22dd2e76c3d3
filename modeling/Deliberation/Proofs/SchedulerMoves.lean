import Deliberation.Scheduler
import Deliberation.Proofs.ResumptionFrame
import Deliberation.Proofs.ResumptionLimit

/-! What one step of the scheduler does. Either nothing changes, or it is the turn of one commitment:
the first that is awake in the queue of its agent, where no agent before has one that is awake. The
system after the step is then given by the reply of that commitment's query. -/
namespace Deliberation

/-- The agent and the intention that an outcome is about. -/
def StepOutcome.subject? : StepOutcome → Option (AgentId × IntentionId)
  | solution agent intention => some (agent, intention)
  | suspended agent intention => some (agent, intention)
  | completed agent intention _ => some (agent, intention)
  | failed agent intention => some (agent, intention)
  | aborted agent intention _ => some (agent, intention)
  | panicked agent intention => some (agent, intention)
  | idle _ => none
  | noIntentions => none
  | shutdown => none

/-- Whether the intention is kept after the outcome. -/
def StepOutcome.continues : StepOutcome → Bool
  | solution _ _ => true
  | suspended _ _ => true
  | _ => false

theorem StepOutcome.dispatched_eq (o : StepOutcome) : o.dispatched = o.subject?.isSome := by
  cases o <;> rfl

/-- No part of the intention but its deadline is changed when it is resumed. -/
def Commitment.awake (c : Commitment) : Commitment :=
  { c with intention := { c.intention with deadline := none } }

/-- The intentions of an agent, in the order of its queue. -/
def Agent.ids (a : Agent) : List IntentionId := a.commitments.map Commitment.id

/-- Every commitment of the agent waits. -/
def Agent.Asleep (a : Agent) (now : Time) : Prop :=
  ∀ c ∈ a.commitments, c.intention.isWaiting now = true

namespace Scheduler

theorem wakeFirst_eq_none {now : Time} {queue : List Commitment}
    (nothing : wakeFirst now queue = none) : ∀ c ∈ queue, c.intention.isWaiting now = true := by
  induction queue with
  | nil => simp
  | cons c rest ih =>
    cases waiting : c.intention.isWaiting now with
    | false => simp [wakeFirst, Intention.wake?, waiting] at nothing
    | true =>
      simp only [wakeFirst, Intention.wake?, waiting, if_true, Option.map_eq_none_iff] at nothing
      simpa [waiting] using ih nothing

/-- The commitment that is woken is the first one awake, and nothing else in the queue changes. -/
theorem wakeFirst_eq_some {now : Time} {queue woken : List Commitment} {place : Nat}
    (found : wakeFirst now queue = some (place, woken)) :
    ∃ front chosen back, queue = front ++ chosen :: back ∧ place = front.length ∧
      woken = front ++ chosen.awake :: back ∧ (∀ c ∈ front, c.intention.isWaiting now = true) ∧
      chosen.intention.isWaiting now = false := by
  induction queue generalizing place woken with
  | nil => simp [wakeFirst] at found
  | cons c rest ih =>
    cases waiting : c.intention.isWaiting now with
    | false =>
      simp only [wakeFirst, Intention.wake?, waiting, Bool.false_eq_true, if_false,
        Option.some.injEq, Prod.mk.injEq] at found
      obtain ⟨rfl, rfl⟩ := found
      exact ⟨[], c, rest, rfl, rfl, rfl, by simp, waiting⟩
    | true =>
      simp only [wakeFirst, Intention.wake?, waiting, if_true, Option.map_eq_some_iff] at found
      obtain ⟨⟨place', woken'⟩, inner, same⟩ := found
      obtain ⟨rfl, rfl⟩ := Prod.mk.inj same
      obtain ⟨front, chosen, back, rfl, rfl, rfl, ahead, awake⟩ := ih inner
      refine ⟨c :: front, chosen, back, rfl, rfl, rfl, ?_, awake⟩
      simpa [waiting] using ahead

/-- The turn of a commitment at a time: it is awake, those ahead of it in its queue wait, and so
does every commitment of the agents that come before its own. -/
structure Turn (s : Scheduler) (now : Time) where
  index : Nat
  owner : Agent
  front : List Commitment
  chosen : Commitment
  back : List Commitment
  going : s.platform.stopping = false
  found : s.agents[index]? = some owner
  queue : owner.commitments = front ++ chosen :: back
  ahead : ∀ c ∈ front, c.intention.isWaiting now = true
  awake : chosen.intention.isWaiting now = false
  /-- How many agents were asked in vain. -/
  offset : Nat
  short : offset < s.agents.length
  reached : index = (s.nextAgent + offset) % s.agents.length
  passed : ∀ earlier < offset, ∀ a, s.agents[(s.nextAgent + earlier) % s.agents.length]? = some a →
    a.Asleep now

/-- All that is asked is the agent at an index. -/
theorem select_eq (s : Scheduler) (now : Time) :
    s.select now = s.turns.findSome? fun index => s.agents[index]?.bind fun agent =>
      (wakeFirst now agent.commitments).map fun (place, commitments) =>
        (index, place, s.setAgent index { agent with commitments }) := by
  unfold select
  congr 1
  funext index
  cases s.agents[index]? <;> rfl

theorem asleep_of_select {s : Scheduler} {now : Time} (nothing : s.select now = none) :
    ∀ a ∈ s.agents, a.Asleep now := by
  intro a member
  obtain ⟨index, found⟩ := List.getElem?_of_mem member
  obtain ⟨less, -⟩ := List.getElem?_eq_some_iff.mp found
  -- Beginning anywhere, a whole round reaches every index.
  have asked : index ∈ s.turns := by
    refine List.mem_map.mpr ⟨(index + (s.agents.length - s.nextAgent % s.agents.length)) %
      s.agents.length, List.mem_range.mpr (Nat.mod_lt _ (by omega)), ?_⟩
    have start : s.nextAgent % s.agents.length < s.agents.length := Nat.mod_lt _ (by omega)
    rw [Nat.add_mod, Nat.mod_mod, ← Nat.add_mod_mod, Nat.mod_mod, Nat.add_mod_mod, ← Nat.add_assoc,
      Nat.add_comm _ index, Nat.add_assoc, Nat.add_sub_cancel' (Nat.le_of_lt start),
      Nat.add_mod_right, Nat.mod_eq_of_lt less]
  rw [select_eq, List.findSome?_eq_none_iff] at nothing
  have missed := nothing index asked
  rw [found, Option.bind_some, Option.map_eq_none_iff] at missed
  exact wakeFirst_eq_none missed

/-- The system with the chosen commitment awake. -/
def Turn.woken {s : Scheduler} {now : Time} (turn : s.Turn now) : Scheduler :=
  s.setAgent turn.index
    { turn.owner with commitments := turn.front ++ turn.chosen.awake :: turn.back }

theorem turn_of_select {s woken : Scheduler} {now : Time} {index place : Nat}
    (going : s.platform.stopping = false) (selected : s.select now = some (index, place, woken)) :
    ∃ turn : s.Turn now, turn.index = index ∧ turn.front.length = place ∧ turn.woken = woken := by
  rw [select_eq, turns, List.findSome?_map, List.findSome?_eq_some_iff] at selected
  obtain ⟨asked, offset, later, range, picked, vain⟩ := selected
  obtain ⟨owner, found, waking⟩ := Option.bind_eq_some_iff.mp picked
  obtain ⟨⟨place', commitments⟩, woke, same⟩ := Option.map_eq_some_iff.mp waking
  obtain ⟨rfl, rfl, rfl⟩ : _ = index ∧ place' = place ∧ _ = woken := by simpa using same
  obtain ⟨front, chosen, back, queue, rfl, rfl, ahead, awake⟩ := wakeFirst_eq_some woke
  obtain ⟨count, -, rfl, rest⟩ := List.range'_eq_append_iff.mp (List.range_eq_range' ▸ range)
  obtain ⟨rfl, short, -⟩ := List.range'_eq_cons_iff.mp rest.symm
  refine ⟨⟨_, owner, front, chosen, back, going, found, queue, ahead, awake, _, by omega, rfl, ?_⟩,
    rfl, rfl, rfl⟩
  intro earlier less a here
  have missed := vain earlier (List.mem_range'_1.mpr (by omega))
  dsimp only [Function.comp] at missed
  rw [here, Option.bind_some, Option.map_eq_none_iff] at missed
  exact wakeFirst_eq_none missed

namespace Turn

variable {s : Scheduler} {now : Time} (turn : s.Turn now)

theorem index_lt : turn.index < s.agents.length :=
  (List.getElem?_eq_some_iff.mp turn.found).1

def others : List Commitment := turn.front ++ turn.back

/-- The chosen commitment is still in its place when it is taken out of the queue. -/
theorem take?_eq (steps nextAgent : Nat) :
    { turn.woken with steps, nextAgent }.take? turn.index turn.front.length =
      some ({ turn.owner with commitments := turn.others }, turn.chosen.awake) := by
  have here : turn.woken.agents[turn.index]? =
      some { turn.owner with commitments := turn.front ++ turn.chosen.awake :: turn.back } :=
    List.getElem?_set_self turn.index_lt
  simp [take?, here, others, List.eraseIdx_append_of_length_le]

def context : Context :=
  { actions := s.actions, mind := turn.owner.mind }

/-- Where the query is resumed: the deadline is gone and the step is noted. -/
def start : State :=
  { intention := turn.chosen.awake.intention
    platform := note s.platform fun j => j.debug "step"
      [("agent", turn.owner.id.text), ("intention", turn.chosen.id.text),
        ("step", Nat.repr (s.steps + 1))] }

/-- The commitment after its query has replied. -/
def resumed (reply : Reply Query) : Commitment :=
  { turn.chosen with
    intention := reply.state.intention
    query := reply.next
    solutions := turn.chosen.solutions + (match reply.result with
      | .ok .solution => 1
      | _ => 0) }

/-- The outcome, whether the commitment goes on, and the platform afterwards. -/
def settled (reply : Reply Query) : StepOutcome × Bool × Platform :=
  settle turn.owner.id (turn.resumed reply) reply.state.platform reply.result

/-- Whether the commitment goes on after the reply. -/
def continues (reply : Reply Query) : Bool := (turn.settled reply).2.1

/-- The agent after the step: a commitment that goes on is at the back of the queue. -/
def ownerAfter (reply : Reply Query) : Agent :=
  { turn.owner with commitments :=
      if turn.continues reply then turn.others ++ [turn.resumed reply] else turn.others }

def after (reply : Reply Query) : Scheduler :=
  { s.setAgent turn.index (turn.ownerAfter reply) with
    platform := (turn.settled reply).2.2
    steps := s.steps + 1
    solutions := s.solutions + (match reply.result with
      | .ok .solution => 1
      | _ => 0)
    nextAgent := (turn.index + 1) % s.agents.length }

/-- The step that makes the turn. -/
theorem stepAt_eq (limit : Nat)
    (selected : s.select now = some (turn.index, turn.front.length, turn.woken)) :
    s.stepAt limit now = (turn.chosen.query.resume turn.context limit turn.start).map fun reply =>
      ((turn.settled reply).1, turn.after reply) := by
  have length : turn.woken.agents.length = s.agents.length := List.length_set
  rw [stepAt, if_neg (by simp [turn.going]), selected]
  simp only [turn.take?_eq, length]
  cases answer : turn.chosen.query.resume turn.context limit turn.start with
  | none =>
    dsimp only [context, start, Commitment.awake, Commitment.id, Agent.id] at answer
    simp only [dispatch, woken, setAgent, Commitment.awake, Commitment.id, Agent.id, answer]
    rfl
  | some reply =>
    dsimp only [context, start, Commitment.awake, Commitment.id, Agent.id] at answer
    simp only [dispatch, woken, setAgent, Commitment.awake, Commitment.id, Agent.id, answer,
      List.set_set]
    rfl

end Turn

/-- Where something is selected, the step is the turn of a commitment. -/
theorem stepAt_of_select {s : Scheduler} {now : Time} {next : Nat × Nat × Scheduler}
    (going : s.platform.stopping = false) (selected : s.select now = some next) :
    ∃ turn : s.Turn now, ∀ limit, s.stepAt limit now =
      (turn.chosen.query.resume turn.context limit turn.start).map fun reply =>
        ((turn.settled reply).1, turn.after reply) := by
  obtain ⟨index, place, woken⟩ := next
  obtain ⟨turn, rfl, rfl, rfl⟩ := turn_of_select going selected
  exact ⟨turn, fun limit => turn.stepAt_eq limit selected⟩

/-- An outcome names the agent and the commitment, and says whether the commitment goes on. The
supply is not touched. -/
theorem settle_outcome (agent : AgentId) (c : Commitment) (p : Platform)
    (result : Except Halt Event) :
    (settle agent c p result).1.subject? = some (agent, c.id) ∧
      (settle agent c p result).1.continues = (settle agent c p result).2.1 ∧
      (settle agent c p result).2.2.supply = p.supply := by
  have finished : (finish agent c p).1.subject? = some (agent, c.id) ∧
      (finish agent c p).1.continues = false ∧ (finish agent c p).2.supply = p.supply := by
    unfold finish
    split <;> exact ⟨rfl, rfl, rfl⟩
  rcases result with (e | _) | (_ | _ | _)
  · exact ⟨rfl, rfl, rfl⟩
  · exact ⟨rfl, rfl, rfl⟩
  · rw [settle]
    cases c.policy with
    | first => exact finished
    | all => exact ⟨rfl, rfl, rfl⟩
  · exact ⟨rfl, rfl, rfl⟩
  · exact finished

theorem idleOutcome_subject? (s : Scheduler) : s.idleOutcome.subject? = none := by
  unfold idleOutcome
  split <;> rfl

/-- A step changes nothing, because the system stops or because nothing is selected, or it is the
turn of one commitment. -/
theorem stepAt_cases {limit : Nat} {s s' : Scheduler} {now : Time} {outcome : StepOutcome}
    (stepped : s.stepAt limit now = some (outcome, s')) :
    (outcome = .shutdown ∧ s' = s) ∨
    (outcome = s.idleOutcome ∧ s' = s ∧ s.select now = none) ∨
    ∃ (turn : s.Turn now) (reply : Reply Query),
      turn.chosen.query.Resumes turn.context turn.start reply ∧
      outcome = (turn.settled reply).1 ∧ s' = turn.after reply := by
  by_cases stopping : s.platform.stopping = true
  · rw [stepAt, if_pos stopping] at stepped
    obtain ⟨rfl, rfl⟩ := Prod.mk.inj (Option.some.inj stepped)
    exact .inl ⟨rfl, rfl⟩
  · cases selected : s.select now with
    | none =>
      rw [stepAt, if_neg stopping, selected] at stepped
      obtain ⟨rfl, rfl⟩ := Prod.mk.inj (Option.some.inj stepped)
      exact .inr (.inl ⟨rfl, rfl, rfl⟩)
    | some next =>
      obtain ⟨turn, steps⟩ := stepAt_of_select (Bool.eq_false_iff.mpr stopping) selected
      rw [steps, Option.map_eq_some_iff] at stepped
      obtain ⟨reply, resumes, same⟩ := stepped
      obtain ⟨rfl, rfl⟩ := Prod.mk.inj same
      exact .inr (.inr ⟨turn, reply, ⟨limit, resumes⟩, rfl, rfl⟩)

namespace Turn

variable {s : Scheduler} {now : Time} (turn : s.Turn now) {reply : Reply Query}

theorem owner_mem : turn.owner ∈ s.agents := List.mem_of_getElem? turn.found

theorem chosen_mem : turn.chosen ∈ turn.owner.commitments := by simp [turn.queue]

theorem subject? (reply : Reply Query) :
    (turn.settled reply).1.subject? = some (turn.owner.id, (turn.resumed reply).id) :=
  (settle_outcome ..).1

theorem continues_eq (reply : Reply Query) :
    (turn.settled reply).1.continues = turn.continues reply :=
  (settle_outcome ..).2.1

/-- The commitment that is resumed is still the same one. -/
theorem resumed_id (resumes : turn.chosen.query.Resumes turn.context turn.start reply) :
    (turn.resumed reply).id = turn.chosen.id := by
  obtain ⟨limit, resumes⟩ := resumes
  exact (Query.resume_later _ _ _ _ _ resumes).id

theorem supply_before (resumes : turn.chosen.query.Resumes turn.context turn.start reply) :
    s.platform.supply.Before (turn.after reply).platform.supply := by
  obtain ⟨limit, resumes⟩ := resumes
  have kept : (turn.after reply).platform.supply = reply.state.platform.supply :=
    (settle_outcome ..).2.2
  rw [kept]
  exact (Query.resume_later _ _ _ _ _ resumes).supply

theorem after_agents (reply : Reply Query) :
    (turn.after reply).agents = s.agents.set turn.index (turn.ownerAfter reply) := rfl

theorem ids_eq :
    turn.owner.ids = turn.front.map Commitment.id ++ turn.chosen.id :: turn.back.map Commitment.id :=
  by simp [Agent.ids, turn.queue]

theorem ownerAfter_commitments (reply : Reply Query) :
    (turn.ownerAfter reply).commitments =
      turn.others ++ if turn.continues reply then [turn.resumed reply] else [] := by
  unfold ownerAfter
  split <;> simp

end Turn

/-- What is done with a scheduler between steps and by steps. -/
inductive Move where
  | step (now : Time) (outcome : StepOutcome)
  | adopt (id : IntentionId)
  | abandon (id : IntentionId)
  /-- Others use the platform: they ask the system to stop, read the journal, let time pass, or take
  identifiers for themselves. -/
  | outside

inductive Moves (s : Scheduler) : Move → Scheduler → Prop where
  | step {limit : Nat} {now : Time} {outcome : StepOutcome} {s' : Scheduler}
      (stepped : s.stepAt limit now = some (outcome, s')) : Moves s (.step now outcome) s'
  | adopt {index : Nat} {goal : Term} {policy : Policy} {id : IntentionId} {s' : Scheduler}
      (adopted : s.adopt? index goal policy = some (id, s')) : Moves s (.adopt id) s'
  | abandon {index : Nat} {id : IntentionId} {s' : Scheduler}
      (abandoned : s.abandon? index id = some s') : Moves s (.abandon id) s'
  | outside {platform : Platform} (grown : s.platform.supply.Before platform.supply) :
      Moves s .outside { s with platform }

end Scheduler

end Deliberation
