import Deliberation.Proofs.Reachability

/-! A step is isolated. In every system that can come about it changes one commitment at most, which
stays in its queue or leaves all queues as the outcome says, and everything else is as it was. -/
namespace Deliberation

namespace Scheduler

/-- Nothing but the dispatched intention of the agent has changed. It was awake. If it goes on, it
is at the back of the queue that it came from, and otherwise it is in no queue. -/
structure Isolated (s : Scheduler) (now : Time) (agent : AgentId) (intention : IntentionId)
    (continues : Bool) (s' : Scheduler) : Prop where
  queued : ∃ owner ∈ s.agents, owner.id = agent ∧ ∃ c ∈ owner.commitments, c.id = intention ∧
    c.intention.isWaiting now = false ∧ (continues = true →
      ∃ owner' ∈ s'.agents, owner'.mind = owner.mind ∧ ∃ c', c'.id = intention ∧
        c'.goal = c.goal ∧ c'.policy = c.policy ∧
        owner'.commitments = (owner.without intention).commitments ++ [c'])
  ended : continues = false → ∀ a ∈ s'.agents, intention ∉ a.ids
  others : s'.agents.map (·.without intention) = s.agents.map (·.without intention)

theorem Turn.isolated {s : Scheduler} {now : Time} (turn : s.Turn now) {reply : Reply Query}
    {supply : Supply} (numbered : Numbered s.agents supply)
    (resumes : turn.chosen.query.Resumes turn.context turn.start reply) :
    Isolated s now turn.owner.id turn.chosen.id (turn.continues reply) (turn.after reply) := by
  obtain ⟨elsewhere, outside⟩ := turn.chosen_only numbered
  refine ⟨⟨turn.owner, turn.owner_mem, rfl, turn.chosen, turn.chosen_mem, rfl, turn.awake, ?_⟩, ?_,
    turn.after_without resumes⟩
  · intro continues
    refine ⟨_, turn.ownerAfter_mem reply, rfl, turn.resumed reply, turn.resumed_id resumes, rfl, rfl,
      ?_⟩
    rw [turn.owner_without numbered, turn.ownerAfter_commitments, if_pos continues]
  · intro ends a member named
    rcases turn.mem_after member with rfl | other
    · rw [Agent.ids, turn.ownerAfter_commitments, ends] at named
      obtain ⟨c, here, same⟩ := List.mem_map.mp named
      exact elsewhere c (by simpa using here) same
    · exact outside a other named

theorem commitments_of_noIntentions {s : Scheduler} (none : s.idleOutcome = .noIntentions) :
    ∀ a ∈ s.agents, a.commitments = [] := by
  have count : s.intentionCount = 0 := by
    by_contra some
    simp [idleOutcome, some] at none
  have all (agents : List Agent)
      (count : agents.foldr (fun a n => a.commitments.length + n) 0 = 0) :
      ∀ a ∈ agents, a.commitments = [] := by
    induction agents with
    | nil => simp
    | cons a rest ih =>
      simp only [List.foldr_cons, Nat.add_eq_zero_iff, List.length_eq_zero_iff] at count
      simpa [count.1] using ih count.2
  exact all s.agents count

end Scheduler

/-- A step of a system that can come about either dispatches one intention, which is isolated from
all others, or changes nothing at all. The steps are counted, the turn stays with an agent that
exists, and no two intentions share a number. That no intentions are left is said only when nothing
could be selected because there is none: whatever is selected is still in its place when it is taken
out of the queue. -/
theorem Site.step_isolates {x : Site} (reached : x.Reached) {limit : Nat} {now : Time}
    {outcome : StepOutcome} {s' : Scheduler}
    (stepped : x.scheduler.stepAt limit now = some (outcome, s')) :
    (outcome.dispatched = true → ∃ agent intention, outcome.subject? = some (agent, intention) ∧
      x.scheduler.Isolated now agent intention outcome.continues s') ∧
    (outcome.dispatched = false → s' = x.scheduler) ∧
    s'.steps = x.scheduler.steps + (if outcome.dispatched then 1 else 0) ∧
    (s'.nextAgent < s'.agents.length ∨ s'.agents = [] ∧ s'.nextAgent = 0) ∧
    (s'.agents.flatMap Agent.ids).Nodup ∧
    (outcome = .noIntentions → x.scheduler.select now = none ∧
      ∀ a ∈ x.scheduler.agents, a.commitments = []) ∧
    (x.scheduler.platform.stopping = false → ∀ index place woken,
      x.scheduler.select now = some (index, place, woken) →
        ∃ agent c, woken.take? index place = some (agent, c)) := by
  have sound := reached.sound
  have after := sound.moves (.step stepped)
  have distinct := after.numbered.of_append.distinct
  have taken : x.scheduler.platform.stopping = false → ∀ index place woken,
      x.scheduler.select now = some (index, place, woken) →
        ∃ agent c, woken.take? index place = some (agent, c) := by
    intro going index place woken selected
    obtain ⟨turn, rfl, rfl, rfl⟩ := Scheduler.turn_of_select going selected
    exact ⟨_, _, turn.take?_eq _ _⟩
  obtain ⟨rfl, rfl⟩ | ⟨rfl, rfl, nothing⟩ | ⟨turn, reply, resumes, rfl, rfl⟩ :=
    Scheduler.stepAt_cases stepped
  · exact ⟨by simp [StepOutcome.dispatched], fun _ => rfl, rfl, after.turn, distinct, by simp, taken⟩
  · have quiet : x.scheduler.idleOutcome.dispatched = false := by
      rw [StepOutcome.dispatched_eq, Scheduler.idleOutcome_subject?, Option.isSome_none]
    refine ⟨by simp [quiet], fun _ => rfl, by simp [quiet], after.turn, distinct, fun none => ?_, taken⟩
    exact ⟨nothing, Scheduler.commitments_of_noIntentions none⟩
  · have subject := turn.subject? reply
    rw [turn.resumed_id resumes] at subject
    have busy : (turn.settled reply).1.dispatched = true := by
      rw [StepOutcome.dispatched_eq, subject, Option.isSome_some]
    refine ⟨fun _ => ⟨_, _, subject, ?_⟩, by simp [busy], by simp [busy, Scheduler.Turn.after],
      after.turn, distinct, ?_, taken⟩
    · rw [turn.continues_eq]
      exact turn.isolated sound.numbered.of_append resumes
    · intro none
      rw [none] at subject
      simp [StepOutcome.subject?] at subject

/-- An agent with two goals that have solutions: the second goal is next after the first. -/
theorem Site.step_isolates_pair :
    ∃ (x : Site) (s' : Scheduler), x.Reached ∧
      x.scheduler.stepAt 3 0 = some (.solution ⟨1⟩ ⟨1⟩, s') ∧
      x.scheduler.agents.map Agent.ids = [[⟨1⟩, ⟨2⟩]] ∧ s'.agents.map Agent.ids = [[⟨2⟩, ⟨1⟩]] ∧
      x.scheduler.Isolated 0 ⟨1⟩ ⟨1⟩ true s' := by
  have reached := ((((Reached.start {} {} {}).change (.build "a")).change
    (.shape (show _[0]? = some _ from rfl) (.adopt (.lit "true" [] []) .all))).change
    (.shape (show _[0]? = some _ from rfl) (.adopt (.lit "true" [] []) .all))).change
    (.install (show _[0]? = some _ from rfl))
  obtain ⟨x, reached, s', stepped, before, after⟩ : ∃ x : Site, x.Reached ∧ ∃ s',
      x.scheduler.stepAt 3 0 = some (.solution ⟨1⟩ ⟨1⟩, s') ∧
      x.scheduler.agents.map Agent.ids = [[⟨1⟩, ⟨2⟩]] ∧ s'.agents.map Agent.ids = [[⟨2⟩, ⟨1⟩]] :=
    ⟨_, reached, _, rfl, rfl, rfl⟩
  refine ⟨x, s', reached, stepped, before, after, ?_⟩
  obtain ⟨isolated, -⟩ := step_isolates reached stepped
  obtain ⟨agent, intention, subject, isolated⟩ := isolated rfl
  cases subject
  exact isolated

end Deliberation
