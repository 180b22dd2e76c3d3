import Deliberation.Proofs.Courses
import Deliberation.Proofs.RunAccounts

/-! Deadlines are honoured. An intention is not resumed before its deadline, which stays as it is
until the intention is resumed. The system is idle exactly when all intentions wait, and then the
first of them to wake is dispatched at its deadline. An intention that suspends has a deadline ahead
of the clock, as the conjunction that suspended it has seen. -/
namespace Deliberation

namespace Search

theorem afterReroll_result (s : State) (c : Choicepoint) {event : Event} (next : Search)
    (other : event ≠ .suspended) : (afterReroll s c event next).result ≠ .ok .suspended := by
  unfold afterReroll
  split
  · exact fun same => other (Except.ok.inj same)
  · nofun

theorem holdOrUndo_result (c : Choicepoint) (done : Bool × State) :
    (holdOrUndo c done).result ≠ .ok .suspended := by
  obtain ⟨_ | _, s⟩ := done
  · exact afterReroll_result s c .spent nofun
  · nofun

theorem conclude_result (c : Choicepoint) (done : Except Halt Bool × State) :
    (conclude c done).result ≠ .ok .suspended := by
  obtain ⟨_ | holds, s⟩ := done
  · nofun
  · exact holdOrUndo_result c (holds, s)

/-- Only a conjunction suspends. -/
theorem Ends.result {ctx : Context} {search : Search} {s : State} {trace : List Happening}
    {found : Reply Search} (ended : search.Ends ctx s trace found) :
    found.result ≠ .ok .suspended := by
  cases ended with
  | act ran => exact conclude_result _ _
  | held => exact afterReroll_result _ _ _ nofun
  | _ => nofun

end Search

/-- The last thing that happens on the way to a state is a check of the clock by which the intention
waits. -/
def State.Checked (trace : List Happening) (s : State) : Prop :=
  ∃ (earlier : List Happening) (t : State),
    trace = earlier ++ [.check t.readClock.1 t.readClock.2] ∧ s = t.readClock.2 ∧
      s.intention.isWaiting t.readClock.1 = true

theorem State.Checked.append {trace : List Happening} {s : State} (checked : s.Checked trace)
    (first : List Happening) : s.Checked (first ++ trace) := by
  obtain ⟨earlier, t, rfl, state, waiting⟩ := checked
  exact ⟨first ++ earlier, t, by simp, state, waiting⟩

def Answer.Suspends : Answer → Prop
  | reply r => r.result = .ok .suspended
  | gathered _ _ => False

/-- Either the query inside has suspended, or a check has just found the intention waiting. -/
theorem Task.Passes.checked {task : Task} {reply : Reply Query} {last : List Happening}
    {answer : Answer} (passed : task.Passes reply last answer) (suspends : answer.Suspends) :
    answer.state.Checked last ∨
      last = [] ∧ answer.state = reply.state ∧ reply.result = .ok .suspended := by
  cases passed with
  | conjWaits waiting => exact .inl ⟨[], _, rfl, rfl, waiting⟩
  | applying | conjRight | disj | negation => exact .inr ⟨rfl, rfl, suspends⟩
  | conj | disjRight =>
    exact .inr ⟨rfl, Query.ofSearch_state .., (Query.ofSearch_result ..).symm.trans suspends⟩
  | negationRefuted | negationHolds =>
    exact absurd ((Query.ofSearch_result ..).symm.trans suspends)
      (Search.afterReroll_result _ _ _ nofun)
  | gatherFails | gatherEnds => cases suspends

/-- Control returns right after the check that finds the intention waiting. -/
theorem Course.checked {ctx : Context} {task : Task} {s : State} {trace : List Happening}
    {answer : Answer} (course : Course ctx task s trace answer) (suspends : answer.Suspends) :
    answer.state.Checked trace := by
  induction course with
  -- An answer without a check is no suspension.
  | done | stuck | ruleFails | collectFails => cases suspends
  | ends ended => exact absurd ((Query.ofSearch_result ..).symm.trans suspends) ended.result
  | collects inner =>
    exact absurd ((Query.ofSearch_result ..).symm.trans suspends) (Search.holdOrUndo_result _ _)
  -- A suspension inside is passed on.
  | rulePasses dropped unified inner unfinished ih => exact (ih suspends).append _
  | passes inside inner passed ih =>
    obtain checked | ⟨rfl, same, suspended⟩ := passed.checked suspends
    · exact checked.append _
    · rw [same, List.append_nil]
      exact ih suspended
  -- The evaluator has gone on before it is suspended.
  | begins begun rest ih => exact ih suspends
  | turns turned rest ih => exact (ih suspends).append _
  | goesOn inside inner goes rest _ ih => exact (ih suspends).append _
  | ruleReturns dropped unified inner rest _ ih => exact (ih suspends).append _

namespace Scheduler

theorem settle_suspended {agent : AgentId} {c : Commitment} {p : Platform}
    {result : Except Halt Event} {a : AgentId} {id : IntentionId}
    (same : (settle agent c p result).1 = .suspended a id) : result = .ok .suspended := by
  have finished : (finish agent c p).1 ≠ .suspended a id := by
    unfold finish
    split <;> nofun
  rcases result with (e | _) | (_ | _ | _)
  · cases same
  · cases same
  · rw [settle] at same
    cases policy : c.policy with
    | first =>
      rw [policy] at same
      exact absurd same finished
    | all =>
      rw [policy] at same
      cases same
  · rfl
  · exact absurd same finished

/-- A commitment stays where it is until it is dispatched or given up. -/
theorem Holds.set {s s' : Scheduler} {agent : AgentId} {c : Commitment} {index : Nat} {a a' : Agent}
    (holds : s.Holds agent c) (found : s.agents[index]? = some a)
    (agents : s'.agents = s.agents.set index a') (same : a'.id = a.id)
    (kept : a.id = agent → c ∈ a.commitments → c ∈ a'.commitments) : s'.Holds agent c := by
  obtain ⟨owner, member, named, queued⟩ := holds
  obtain ⟨less, -⟩ := List.getElem?_eq_some_iff.mp found
  rcases mem_set_of_mem a' found member with rfl | other
  · exact ⟨a', agents ▸ List.mem_set less a', same.trans named, kept named queued⟩
  · exact ⟨owner, agents ▸ other, named, queued⟩

theorem Holds.moves {s s' : Scheduler} {agent : AgentId} {c : Commitment} {move : Move}
    (holds : s.Holds agent c) (moves : s.Moves move s') (other : ¬ move.Dispatches agent c.id)
    (spared : move ≠ .abandon c.id) : s'.Holds agent c := by
  cases moves with
  | step stepped =>
    obtain ⟨-, rfl⟩ | ⟨-, rfl, -⟩ | ⟨turn, reply, resumes, rfl, rfl⟩ := stepAt_cases stepped
    · exact holds
    · exact holds
    · refine holds.set turn.found (turn.after_agents reply) rfl ?_
      intro named queued
      have different : c ≠ turn.chosen := by
        rintro rfl
        exact other ((turn.subject? reply).trans (by rw [turn.resumed_id resumes, named]))
      rw [turn.queue] at queued
      rw [turn.ownerAfter_commitments, Turn.others]
      simp only [List.mem_append, List.mem_cons, different, false_or] at queued ⊢
      exact .inl queued
  | adopt adopted =>
    obtain ⟨a, found, rfl⟩ := adopt?_edits adopted
    exact holds.set found rfl rfl fun _ queued => List.mem_append_left _ queued
  | @abandon index id _ abandoned =>
    obtain ⟨a, a', found, gave, rfl⟩ := abandon?_edits abandoned
    obtain rfl := Agent.eq_of_abandon? gave
    refine holds.set found rfl rfl fun _ queued => List.mem_filter.mpr ⟨queued, ?_⟩
    have different : c.id ≠ id := by
      rintro rfl
      exact spared rfl
    simpa using different
  | outside => exact holds

theorem Run.holds {s s' : Scheduler} {moments : List Moment} (run : s.Run moments s')
    {agent : AgentId} {c : Commitment} (start : s.Holds agent c)
    (untouched : ∀ m ∈ moments, ¬ m.move.Dispatches agent c.id ∧ m.move ≠ .abandon c.id) :
    s'.Holds agent c := by
  induction run with
  | stay => exact start
  | go moves _ ih =>
    obtain ⟨⟨other, spared⟩, rest⟩ := List.forall_mem_cons.mp untouched
    exact ih (start.moves moves other spared) rest

/-- The commitment that has its turn is the one that is held under its number. -/
theorem Turn.chosen_eq {s : Scheduler} {now : Time} (turn : s.Turn now) {supply : Supply}
    (numbered : Numbered s.agents supply) {agent : AgentId} {c : Commitment}
    (holds : s.Holds agent c) (same : turn.chosen.id = c.id) : turn.chosen = c := by
  obtain ⟨owner, member, -, queued⟩ := holds
  have named : c.id ∈ turn.owner.ids := same ▸ List.mem_map_of_mem turn.chosen_mem
  obtain rfl := numbered.owner_unique member turn.owner_mem (List.mem_map_of_mem queued) named
  exact numbered.commitment_unique member turn.chosen_mem queued same

/-- While something is awake, a step is the turn of a commitment. -/
theorem stepAt_of_awake {s : Scheduler} {now : Time} (going : s.platform.stopping = false)
    {agent : AgentId} {c : Commitment} (holds : s.Holds agent c)
    (awake : c.intention.isWaiting now = false) :
    ∃ turn : s.Turn now, ∀ limit, s.stepAt limit now =
      (turn.chosen.query.resume turn.context limit turn.start).map fun reply =>
        ((turn.settled reply).1, turn.after reply) := by
  cases selected : s.select now with
  | none =>
    obtain ⟨owner, member, -, queued⟩ := holds
    rw [asleep_of_select selected owner member c queued] at awake
    cases awake
  | some next => exact stepAt_of_select going selected

/-- While all wait, a step says so. -/
theorem stepAt_of_waiting {s : Scheduler} {now : Time} (going : s.platform.stopping = false)
    (waiting : ∀ agent c, s.Holds agent c → c.intention.isWaiting now = true) (limit : Nat) :
    s.stepAt limit now = some (s.idleOutcome, s) := by
  cases selected : s.select now with
  | none => rw [stepAt, if_neg (by simp [going]), selected]
  | some next =>
    obtain ⟨turn, -⟩ := stepAt_of_select going selected
    have asleep := waiting turn.owner.id turn.chosen ⟨_, turn.owner_mem, rfl, turn.chosen_mem⟩
    rw [turn.awake] at asleep
    cases asleep

theorem holds_iff (s : Scheduler) : (∃ agent c, s.Holds agent c) ↔ s.intentionCount ≠ 0 := by
  rw [intentionCount_eq, Ne, List.length_eq_zero_iff]
  constructor
  · rintro ⟨agent, c, owner, member, -, queued⟩ none
    have held : c ∈ s.agents.flatMap Agent.commitments :=
      List.mem_flatMap.mpr ⟨owner, member, queued⟩
    rw [none] at held
    cases held
  · intro some
    obtain ⟨c, held⟩ := List.exists_mem_of_ne_nil _ some
    obtain ⟨owner, member, queued⟩ := List.mem_flatMap.mp held
    exact ⟨owner.id, c, owner, member, rfl, queued⟩

theorem mem_deadlines {s : Scheduler} {deadline : Time} :
    deadline ∈ s.deadlines ↔ ∃ agent c, s.Holds agent c ∧ c.intention.deadline = some deadline := by
  unfold deadlines
  simp only [List.mem_flatMap, List.mem_filterMap]
  constructor
  · rintro ⟨owner, member, c, queued, due⟩
    exact ⟨owner.id, c, ⟨owner, member, rfl, queued⟩, due⟩
  · rintro ⟨agent, c, ⟨owner, member, -, queued⟩, due⟩
    exact ⟨owner, member, c, queued, due⟩

/-- The outcome is idle exactly when something is held and all of it waits. -/
theorem idle_iff (limit : Nat) (s : Scheduler) (now : Time) :
    (∃ next after, s.stepAt limit now = some (.idle next, after)) ↔
      s.platform.stopping = false ∧ (∃ agent c, s.Holds agent c) ∧
        ∀ agent c, s.Holds agent c → ∃ deadline, c.intention.deadline = some deadline ∧
          now < deadline := by
  constructor
  · rintro ⟨next, after, stepped⟩
    have going : s.platform.stopping = false := by
      by_contra stopping
      rw [stepAt, if_pos (by simpa using stopping)] at stepped
      cases stepped
    obtain ⟨different, -⟩ | ⟨same, -, nothing⟩ | ⟨turn, reply, -, same, -⟩ := stepAt_cases stepped
    · cases different
    · refine ⟨going, (holds_iff s).mpr ?_, ?_⟩
      · intro none
        simp [idleOutcome, none] at same
      · rintro agent c ⟨owner, member, -, queued⟩
        exact Intention.isWaiting_iff.mp (asleep_of_select nothing owner member c queued)
    · have subject := turn.subject? reply
      rw [← same] at subject
      cases subject
  · rintro ⟨going, some, waiting⟩
    refine ⟨s.deadlines.min?, s, ?_⟩
    rw [stepAt_of_waiting going (fun agent c holds => Intention.isWaiting_iff.mpr
      (waiting agent c holds)), idleOutcome, if_neg ((holds_iff s).mp some)]

/-- The next deadline is the least of all. -/
theorem idle_next {limit : Nat} {s after : Scheduler} {now : Time} {next : Option Time}
    (stepped : s.stepAt limit now = some (.idle next, after)) :
    after = s ∧ ∃ deadline, next = some deadline ∧
      (∃ agent c, s.Holds agent c ∧ c.intention.deadline = some deadline) ∧
      ∀ agent c other, s.Holds agent c → c.intention.deadline = some other → deadline ≤ other := by
  obtain ⟨-, ⟨agent, c, holds⟩, waiting⟩ := (idle_iff limit s now).mp ⟨next, after, stepped⟩
  obtain ⟨different, -⟩ | ⟨same, rfl, -⟩ | ⟨turn, reply, -, same, -⟩ := stepAt_cases stepped
  · cases different
  · refine ⟨rfl, ?_⟩
    obtain ⟨due, mine, -⟩ := waiting agent c holds
    have listed := mem_deadlines.mpr ⟨agent, c, holds, mine⟩
    obtain ⟨least, found⟩ := Option.isSome_iff_exists.mp (List.isSome_min?_of_mem listed)
    obtain ⟨inside, below⟩ := List.min?_eq_some_iff.mp found
    rw [idleOutcome, if_neg ((holds_iff after).mp ⟨agent, c, holds⟩), found] at same
    cases same
    refine ⟨least, rfl, mem_deadlines.mp inside, ?_⟩
    exact fun agent c other holds due => below other (mem_deadlines.mpr ⟨agent, c, holds, due⟩)
  · have subject := turn.subject? reply
    rw [← same] at subject
    cases subject

/-- At the least deadline it is the turn of an intention with that deadline. -/
theorem turn_at_deadline {s : Scheduler} {now deadline : Time} {agent : AgentId} {c : Commitment}
    (going : s.platform.stopping = false) (holds : s.Holds agent c)
    (due : c.intention.deadline = some deadline)
    (waiting : ∀ agent c, s.Holds agent c → ∃ other, c.intention.deadline = some other ∧
      now < other)
    (least : ∀ agent c other, s.Holds agent c → c.intention.deadline = some other →
      deadline ≤ other) :
    ∃ turn : s.Turn deadline, turn.chosen.intention.deadline = some deadline ∧
      ∀ limit, s.stepAt limit deadline =
        (turn.chosen.query.resume turn.context limit turn.start).map fun reply =>
          ((turn.settled reply).1, turn.after reply) := by
  have awake : c.intention.isWaiting deadline = false := by simp [Intention.isWaiting, due]
  obtain ⟨turn, dispatches⟩ := stepAt_of_awake going holds awake
  have held : s.Holds turn.owner.id turn.chosen := ⟨_, turn.owner_mem, rfl, turn.chosen_mem⟩
  obtain ⟨other, mine, -⟩ := waiting _ _ held
  have late : ¬ deadline < other := by
    intro early
    have asleep := Intention.isWaiting_iff.mpr ⟨other, mine, early⟩
    rw [turn.awake] at asleep
    cases asleep
  have before := least _ _ other held mine
  obtain rfl : other = deadline := Nat.le_antisymm (Nat.le_of_not_lt late) before
  exact ⟨turn, mine, dispatches⟩

/-- A commitment that suspends has just found, by reading the clock, that its deadline is ahead. -/
theorem Turn.suspends {s : Scheduler} {now : Time} (turn : s.Turn now) {reply : Reply Query}
    (resumes : turn.chosen.query.Resumes turn.context turn.start reply) {agent : AgentId}
    {id : IntentionId} (settled : (turn.settled reply).1 = .suspended agent id) :
    ∃ (earlier : List Happening) (t : State) (next : Query) (c : Commitment) (deadline : Time),
      turn.owner.id = agent ∧ turn.chosen.id = id ∧
      Course turn.context (.resume turn.chosen.query) turn.start
        (earlier ++ [.check t.readClock.1 t.readClock.2])
        (.reply ⟨.ok .suspended, next, t.readClock.2⟩) ∧
      (turn.after reply).Holds agent c ∧ c.id = id ∧ c.query = next ∧
      c.intention.deadline = some deadline ∧ t.readClock.1 < deadline := by
  have suspended := settle_suspended settled
  obtain ⟨trace, course⟩ := resumes.course
  obtain ⟨earlier, t, rfl, state, waiting⟩ := course.checked suspended
  obtain ⟨deadline, due, ahead⟩ := Intention.isWaiting_iff.mp waiting
  have subject := turn.subject? reply
  rw [settled, turn.resumed_id resumes] at subject
  obtain ⟨rfl, rfl⟩ := Prod.mk.inj (Option.some.inj subject)
  have continues : turn.continues reply = true := by
    rw [← turn.continues_eq, settled]
    rfl
  obtain ⟨result, next, state'⟩ := reply
  obtain rfl : result = _ := suspended
  obtain rfl : state' = _ := state
  refine ⟨earlier, t, next, turn.resumed ⟨.ok .suspended, next, t.readClock.2⟩, deadline, rfl, rfl,
    course, ⟨_, turn.ownerAfter_mem _, rfl, ?_⟩, turn.resumed_id resumes, rfl, due, ahead⟩
  rw [turn.ownerAfter_commitments, if_pos continues]
  simp

/-- Deadlines are kept, whatever is done with a scheduler from here on. -/
structure Punctual (s : Scheduler) : Prop where
  /-- An intention keeps its deadline, and all else, through any moves but its own dispatch and its
  abandonment. -/
  keeps : ∀ moments s' agent c, s.Run moments s' → s.Holds agent c →
    (∀ m ∈ moments, ¬ m.move.Dispatches agent c.id ∧ m.move ≠ .abandon c.id) → s'.Holds agent c
  /-- No step dispatches an intention before its deadline. -/
  notEarly : ∀ limit now outcome s', s.stepAt limit now = some (outcome, s') →
    ∀ agent c deadline, s.Holds agent c → outcome.subject? = some (agent, c.id) →
      c.intention.deadline = some deadline → deadline ≤ now
  /-- The course of an intention that suspends ends with a check of the clock, and its deadline is
  later than that reading. -/
  suspends : ∀ limit now agent id s', s.stepAt limit now = some (.suspended agent id, s') →
    ∃ (turn : s.Turn now) (earlier : List Happening) (t : State) (next : Query) (c : Commitment)
      (deadline : Time), turn.owner.id = agent ∧ turn.chosen.id = id ∧
      Course turn.context (.resume turn.chosen.query) turn.start
        (earlier ++ [.check t.readClock.1 t.readClock.2])
        (.reply ⟨.ok .suspended, next, t.readClock.2⟩) ∧
      s'.Holds agent c ∧ c.id = id ∧ c.query = next ∧
      c.intention.deadline = some deadline ∧ t.readClock.1 < deadline
  /-- A step is idle exactly when the system goes on and all intentions, of which there is one at
  least, have a deadline ahead. -/
  idle : ∀ limit now, (∃ next s', s.stepAt limit now = some (.idle next, s')) ↔
    s.platform.stopping = false ∧ (∃ agent c, s.Holds agent c) ∧
      ∀ agent c, s.Holds agent c → ∃ deadline, c.intention.deadline = some deadline ∧ now < deadline
  /-- An idle step changes nothing and gives the least deadline. A step at that time is the turn of
  an intention that has it. -/
  wakes : ∀ limit now next s', s.stepAt limit now = some (.idle next, s') →
    s' = s ∧ ∃ deadline, next = some deadline ∧
      (∃ agent c, s.Holds agent c ∧ c.intention.deadline = some deadline) ∧
      (∀ agent c other, s.Holds agent c → c.intention.deadline = some other → deadline ≤ other) ∧
      ∃ turn : s.Turn deadline, turn.chosen.intention.deadline = some deadline ∧
        (∀ limit', s.stepAt limit' deadline =
          (turn.chosen.query.resume turn.context limit' turn.start).map fun reply =>
            ((turn.settled reply).1, turn.after reply)) ∧
        ∀ limit' outcome s'', s.stepAt limit' deadline = some (outcome, s'') →
          outcome.subject? = some (turn.owner.id, turn.chosen.id)

end Scheduler

open Scheduler

/-- Deadlines are kept in every system that can come about. -/
theorem Site.deadlines_are_kept {x : Site} (reached : x.Reached) : x.scheduler.Punctual := by
  have numbered := reached.sound.numbered.of_append
  refine ⟨fun moments s' agent c run holds untouched => run.holds holds untouched, ?_, ?_,
    fun limit now => idle_iff limit x.scheduler now, ?_⟩
  · intro limit now outcome s' stepped agent c deadline holds subject due
    obtain ⟨turn, reply, -, same, -⟩ := dispatched_turn stepped subject
    have awake := turn.awake
    rw [turn.chosen_eq numbered holds same] at awake
    simpa [Intention.isWaiting, due] using awake
  · intro limit now agent id s' stepped
    obtain ⟨different, -⟩ | ⟨idle, -, -⟩ | ⟨turn, reply, resumes, settled, rfl⟩ :=
      stepAt_cases stepped
    · cases different
    · have silent := x.scheduler.idleOutcome_subject?
      rw [← idle] at silent
      cases silent
    · exact ⟨turn, turn.suspends resumes settled.symm⟩
  · intro limit now next s' stepped
    obtain ⟨going, -, waiting⟩ := (idle_iff limit x.scheduler now).mp ⟨next, s', stepped⟩
    obtain ⟨same, deadline, first, ⟨agent, c, holds, due⟩, least⟩ := idle_next stepped
    obtain ⟨turn, mine, dispatches⟩ := turn_at_deadline going holds due waiting least
    refine ⟨same, deadline, first, ⟨agent, c, holds, due⟩, least, turn, mine, dispatches, ?_⟩
    intro limit' outcome s'' again
    rw [dispatches, Option.map_eq_some_iff] at again
    obtain ⟨reply, resumed, settled⟩ := again
    obtain ⟨rfl, rfl⟩ := Prod.mk.inj settled
    rw [turn.subject?, turn.resumed_id ⟨limit', resumed⟩]

/-- An agent pauses until time five. Meanwhile the system is idle, and then the agent goes on. -/
theorem Site.deadlines_are_kept_pause :
    ∃ (x : Site) (s : Scheduler), x.Reached ∧ Site.Reached ⟨s, x.workshop⟩ ∧
      x.scheduler.stepAt 5 0 = some (.suspended ⟨1⟩ ⟨1⟩, s) ∧ x.scheduler.Punctual ∧
      s.stepAt 5 3 = some (.idle (some 5), s) ∧ s.Punctual ∧
      (∃ turn : x.scheduler.Turn 0, turn.chosen.id = ⟨1⟩) ∧
      ∃ turn : s.Turn 5, turn.chosen.intention.deadline = some 5 := by
  have reached := ((((Reached.start .pausing {} {}).change (.build "a")).change
    (.shape (show _[0]? = some _ from rfl)
      (.adopt (.lit "&" [.atom ".pause", .atom "true"] []) .all))).change
    (.install (show _[0]? = some _ from rfl)))
  have later := reached.change
    (.move (.step (show Scheduler.stepAt 5 _ 0 = some (.suspended ⟨1⟩ ⟨1⟩, _) from rfl)))
  have before := deadlines_are_kept reached
  have after := deadlines_are_kept later
  obtain ⟨turn, -, -, -, -, -, -, chosen, -⟩ := before.suspends 5 0 ⟨1⟩ ⟨1⟩ _ rfl
  obtain ⟨-, deadline, same, -, -, turn', due, -⟩ := after.wakes 5 3 (some 5) _ rfl
  cases same
  exact ⟨_, _, reached, later, rfl, before, rfl, after, ⟨turn, chosen⟩, turn', due⟩

end Deliberation
