import Deliberation.Proofs.Isolation
import Deliberation.Proofs.NoOvertaking

/-! Histories of intentions. A policy makes a history of what a query replies. In a run of a system
the history of an intention is read off the outcomes of the steps, and each turn of the intention
adds to it what the policy makes of the reply; no other move does. -/
namespace Deliberation

/-- What is to be seen of an intention. -/
inductive Report where
  | solution (value : Term)
  | completed (solutions : Nat)
  | failed
  | aborted (error : EngineError)
  | panicked

/-- A query is resumed again and again on its own, with a pause after each reply. -/
inductive Query.Shows (ctx : Context) (pause : State → State) :
    Query → State → List (Reply Query) → Prop where
  | nothing {q : Query} {s : State} : Shows ctx pause q s []
  | more {q : Query} {s : State} {reply : Reply Query} {replies : List (Reply Query)}
      (answered : q.Resumes ctx s reply)
      (rest : Shows ctx pause reply.next (pause reply.state) replies) :
      Shows ctx pause q s (reply :: replies)

/-- The history that a policy makes of the replies of a query, after a number of solutions. Under
`all` every solution is reported, and in the end how many there were; under `first` the first one is
enough. Suspensions are passed over. -/
def Policy.history (policy : Policy) (goal : Term) : Nat → List (Reply Query) → List Report
  | _, [] => []
  | _, ⟨.error (.raised e), _, _⟩ :: _ => [.aborted e]
  | _, ⟨.error .panicked, _, _⟩ :: _ => [.panicked]
  | n, ⟨.ok .suspended, _, _⟩ :: rest => policy.history goal n rest
  | n, ⟨.ok .exhausted, _, _⟩ :: _ => [if 0 < n then .completed n else .failed]
  | n, ⟨.ok .solution, _, s⟩ :: rest =>
    match policy with
    | .first => [.completed 1]
    | .all => .solution (s.scope.resolve goal) :: policy.history goal (n + 1) rest

/-- Whether an intention goes on after an answer to its query. -/
def Policy.goesOn (policy : Policy) : Except Halt Event → Bool
  | .ok .suspended => true
  | .ok .solution => policy = .all
  | _ => false

def Reply.found (reply : Reply Query) : Nat :=
  match reply.result with
  | .ok .solution => 1
  | _ => 0

theorem Policy.history_cons (policy : Policy) (goal : Term) (n : Nat) (reply : Reply Query)
    (rest : List (Reply Query)) :
    policy.history goal n (reply :: rest) = policy.history goal n [reply] ++
      if policy.goesOn reply.result then policy.history goal (n + reply.found) rest else [] := by
  obtain ⟨(e | _) | (_ | _ | _), next, s⟩ := reply
  · rfl
  · rfl
  · cases policy <;> rfl
  · rfl
  · rfl

/-- What an outcome reports of an intention, given its commitment after the step if it goes on. -/
def StepOutcome.report? (id : IntentionId) (after : Option Commitment) :
    StepOutcome → Option Report
  | solution _ i =>
    if i = id then after.map fun c => .solution (c.intention.scope.resolve c.goal) else none
  | completed _ i n => if i = id then some (.completed n) else none
  | failed _ i => if i = id then some .failed else none
  | aborted _ i e => if i = id then some (.aborted e) else none
  | panicked _ i => if i = id then some .panicked else none
  | _ => none

theorem Agent.mem_ids_of_abandon? {a a' : Agent} {id : IntentionId}
    (abandoned : a.abandon? id = some a') : id ∈ a.ids := by
  unfold abandon? at abandoned
  split at abandoned
  · rename_i has
    obtain ⟨c, member, same⟩ := List.any_eq_true.mp has
    exact List.mem_map.mpr ⟨c, member, by simpa using same⟩
  · simp at abandoned

namespace Numbered

variable {agents : List Agent} {supply : Supply} {a b : Agent} {id : IntentionId}

/-- An intention of the agent at an index is in no other queue. -/
theorem elsewhere {index : Nat} (numbered : Numbered agents supply)
    (found : agents[index]? = some a) (named : id ∈ a.ids) :
    ∀ b ∈ agents.eraseIdx index, id ∉ b.ids := by
  obtain ⟨less, rfl⟩ := List.getElem?_eq_some_iff.mp found
  have taken := (numbered.perm (List.getElem_cons_eraseIdx_perm less).symm).distinct
  rw [List.flatMap_cons, List.nodup_append] at taken
  intro b member here
  exact taken.2.2 id named id (List.mem_flatMap.mpr ⟨b, member, here⟩) rfl

theorem owner_unique (numbered : Numbered agents supply) (first : a ∈ agents) (second : b ∈ agents)
    (one : id ∈ a.ids) (two : id ∈ b.ids) : a = b := by
  obtain ⟨index, found⟩ := List.getElem?_of_mem first
  have elsewhere := numbered.elsewhere found one
  obtain ⟨less, rfl⟩ := List.getElem?_eq_some_iff.mp found
  rcases List.mem_cons.mp ((List.getElem_cons_eraseIdx_perm less).symm.mem_iff.mp second) with
    rfl | other
  · rfl
  · exact absurd two (elsewhere b other)

/-- The commitment with a number in a queue is the only one. -/
theorem commitment_unique (numbered : Numbered agents supply) (member : a ∈ agents)
    {c d : Commitment} (one : c ∈ a.commitments) (two : d ∈ a.commitments) (same : c.id = d.id) :
    c = d :=
  List.inj_on_of_nodup_map ((List.nodup_flatMap.mp numbered.distinct).1 a member) one two same

/-- An intention that its agent gives up is in no queue. -/
theorem absent_of_set {index : Nat} {a' : Agent} (numbered : Numbered agents supply)
    (found : agents[index]? = some a) (named : id ∈ a.ids) (absent : id ∉ a'.ids) :
    ∀ b ∈ agents.set index a', id ∉ b.ids := by
  have less := (List.getElem?_eq_some_iff.mp found).1
  intro b member
  rcases List.mem_cons.mp ((List.set_perm_cons_eraseIdx less a').mem_iff.mp member) with rfl | other
  · exact absent
  · exact numbered.elsewhere found named b other

end Numbered

namespace Scheduler

/-- The commitment with a number, in whatever queue it is. -/
def commitment? (s : Scheduler) (id : IntentionId) : Option Commitment :=
  (s.agents.flatMap Agent.commitments).find? fun c => c.id = id

def Move.report? (id : IntentionId) (after : Scheduler) : Move → Option Report
  | step _ outcome => outcome.report? id (after.commitment? id)
  | _ => none

/-- The scheduler from which moves are made that end with another. -/
def startOf (last : Scheduler) : List Moment → Scheduler
  | [] => last
  | m :: _ => m.before

/-- What is reported of an intention in the course of some moves. -/
def history (id : IntentionId) (last : Scheduler) : List Moment → List Report
  | [] => []
  | m :: rest => (m.move.report? id (startOf last rest)).toList ++ history id last rest

theorem Run.startOf_eq {s last : Scheduler} {moments : List Moment} (run : s.Run moments last) :
    startOf last moments = s := by
  cases run <;> rfl

/-- The commitment stands in the queue of an agent with this mind. -/
def Keeps (s : Scheduler) (mind : Mind) (c : Commitment) : Prop :=
  ∃ owner ∈ s.agents, owner.mind = mind ∧ c ∈ owner.commitments

/-- The number was given to an intention that is in no queue any more. -/
def Gone (s : Scheduler) (id : IntentionId) : Prop :=
  id.id < s.platform.supply.nextIntention ∧ ∀ a ∈ s.agents, id ∉ a.ids

theorem Keeps.commitment? {s : Scheduler} {mind : Mind} {c : Commitment} {supply : Supply}
    (keeps : s.Keeps mind c) (numbered : Numbered s.agents supply) :
    s.commitment? c.id = some c := by
  obtain ⟨owner, member, -, queued⟩ := keeps
  have distinct : ((s.agents.flatMap Agent.commitments).map Commitment.id).Nodup := by
    rw [List.map_flatMap]
    exact numbered.distinct
  have here : c ∈ s.agents.flatMap Agent.commitments :=
    List.mem_flatMap.mpr ⟨owner, member, queued⟩
  have found : (s.commitment? c.id).isSome :=
    List.find?_isSome.mpr ⟨c, here, by simp⟩
  obtain ⟨d, found⟩ := Option.isSome_iff_exists.mp found
  have same : d.id = c.id := by simpa using List.find?_some found
  rw [found, List.inj_on_of_nodup_map distinct (List.mem_of_find?_eq_some found) here same]

theorem Moves.supply_before {s s' : Scheduler} {move : Move} (moves : s.Moves move s') :
    s.platform.supply.Before s'.platform.supply := by
  cases moves with
  | step stepped =>
    obtain ⟨-, rfl⟩ | ⟨-, rfl, -⟩ | ⟨turn, reply, resumes, -, rfl⟩ := stepAt_cases stepped
    · exact .refl _
    · exact .refl _
    · exact turn.supply_before resumes
  | adopt adopted =>
    obtain ⟨a, found, rfl⟩ := adopt?_edits adopted
    exact ⟨Nat.le_refl _, Nat.le_refl _, Nat.le_succ _, Nat.le_refl _⟩
  | abandon abandoned =>
    obtain ⟨a, a', found, gave, rfl⟩ := abandon?_edits abandoned
    exact .refl _
  | outside grown => exact grown

theorem Moves.actions {s s' : Scheduler} {move : Move} (moves : s.Moves move s') :
    s'.actions = s.actions := by
  cases moves with
  | step stepped =>
    obtain ⟨-, rfl⟩ | ⟨-, rfl, -⟩ | ⟨turn, reply, -, -, rfl⟩ := stepAt_cases stepped
    · rfl
    · rfl
    · rfl
  | adopt adopted =>
    obtain ⟨a, found, rfl⟩ := adopt?_edits adopted
    rfl
  | abandon abandoned =>
    obtain ⟨a, a', found, gave, rfl⟩ := abandon?_edits abandoned
    rfl
  | outside => rfl

/-- An outcome reports nothing of an intention that it is not about. -/
theorem report?_of_subject {outcome : StepOutcome} {id : IntentionId} {after : Option Commitment}
    (other : ∀ agent, outcome.subject? ≠ some (agent, id)) : outcome.report? id after = none := by
  cases outcome with
  | solution agent i =>
    exact if_neg fun same => other agent (by rw [StepOutcome.subject?, same])
  | completed agent i n =>
    exact if_neg fun same => other agent (by rw [StepOutcome.subject?, same])
  | failed agent i => exact if_neg fun same => other agent (by rw [StepOutcome.subject?, same])
  | aborted agent i e => exact if_neg fun same => other agent (by rw [StepOutcome.subject?, same])
  | panicked agent i => exact if_neg fun same => other agent (by rw [StepOutcome.subject?, same])
  | _ => rfl

/-- What holds of the queue of an agent holds of the one that is put in its place. -/
theorem Keeps.set {s s' : Scheduler} {mind : Mind} {c : Commitment} {index : Nat} {a a' : Agent}
    (keeps : s.Keeps mind c) (found : s.agents[index]? = some a)
    (agents : s'.agents = s.agents.set index a') (same : a'.mind = a.mind)
    (kept : c ∈ a.commitments → c ∈ a'.commitments) : s'.Keeps mind c := by
  obtain ⟨owner, member, named, queued⟩ := keeps
  obtain ⟨less, -⟩ := List.getElem?_eq_some_iff.mp found
  rcases mem_set_of_mem a' found member with rfl | other
  · exact ⟨a', agents ▸ List.mem_set less a', same.trans named, kept queued⟩
  · exact ⟨owner, agents ▸ other, named, queued⟩

theorem Gone.set {s s' : Scheduler} {id : IntentionId} {index : Nat} {a a' : Agent}
    (gone : s.Gone id) (found : s.agents[index]? = some a)
    (agents : s'.agents = s.agents.set index a')
    (grown : s.platform.supply.Before s'.platform.supply)
    (absent : id ∉ a.ids → id ∉ a'.ids) : s'.Gone id := by
  refine ⟨Nat.lt_of_lt_of_le gone.1 grown.intentions, fun b member => ?_⟩
  rw [agents] at member
  rcases List.mem_or_eq_of_mem_set member with old | rfl
  · exact gone.2 b old
  · exact absent (gone.2 a (List.mem_of_getElem? found))

theorem Turn.gone_after {s : Scheduler} {now : Time} (turn : s.Turn now) {reply : Reply Query}
    (resumes : turn.chosen.query.Resumes turn.context turn.start reply)
    (numbered : Numbered s.agents s.platform.supply) (ends : turn.continues reply = false) :
    (turn.after reply).Gone turn.chosen.id := by
  have issued := numbered.issued turn.owner turn.owner_mem turn.chosen.id
    (List.mem_map_of_mem turn.chosen_mem)
  exact ⟨Nat.lt_of_lt_of_le issued (turn.supply_before resumes).intentions,
    (turn.isolated numbered resumes).ended ends⟩

theorem Turn.keeps_after {s : Scheduler} {now : Time} (turn : s.Turn now) {reply : Reply Query}
    (goesOn : turn.continues reply = true) :
    (turn.after reply).Keeps turn.owner.mind (turn.resumed reply) := by
  refine ⟨_, turn.ownerAfter_mem reply, rfl, ?_⟩
  rw [turn.ownerAfter_commitments, if_pos goesOn]
  simp

/-- A move leaves a commitment alone, gives it up, or is its turn. -/
theorem Moves.fate {s s' : Scheduler} {move : Move} (moves : s.Moves move s') {mind : Mind}
    {c : Commitment} (keeps : s.Keeps mind c) (numbered : Numbered s.agents s.platform.supply) :
    (s'.Keeps mind c ∧ move.report? c.id s' = none) ∨
    (s'.Gone c.id ∧ move.report? c.id s' = none) ∨
    ∃ (now : Time) (turn : s.Turn now) (reply : Reply Query), turn.chosen = c ∧
      turn.owner.mind = mind ∧ turn.chosen.query.Resumes turn.context turn.start reply ∧
      move = .step now (turn.settled reply).1 ∧ s' = turn.after reply := by
  cases moves with
  | @step _ now outcome _ stepped =>
    obtain ⟨rfl, rfl⟩ | ⟨rfl, rfl, -⟩ | ⟨turn, reply, resumes, rfl, rfl⟩ := stepAt_cases stepped
    · exact .inl ⟨keeps, rfl⟩
    · exact .inl ⟨keeps, report?_of_subject (by simp [idleOutcome_subject?])⟩
    · by_cases own : turn.chosen.id = c.id
      · obtain ⟨owner, member, rfl, queued⟩ := keeps
        have named : c.id ∈ turn.owner.ids := own ▸ List.mem_map_of_mem turn.chosen_mem
        obtain rfl := numbered.owner_unique member turn.owner_mem (List.mem_map_of_mem queued) named
        obtain rfl := numbered.commitment_unique member turn.chosen_mem queued own
        exact .inr (.inr ⟨now, turn, reply, rfl, rfl, resumes, rfl, rfl⟩)
      · refine .inl ⟨?_, report?_of_subject fun agent subject => ?_⟩
        · refine keeps.set turn.found (turn.after_agents reply) rfl fun queued => ?_
          rw [turn.ownerAfter_commitments, Turn.others]
          rw [turn.queue] at queued
          have other : c ≠ turn.chosen := fun same => own (congrArg _ same.symm)
          simp only [List.mem_append, List.mem_cons, other, false_or] at queued ⊢
          exact .inl queued
        · rw [turn.subject?, turn.resumed_id resumes] at subject
          exact own (Prod.mk.inj (Option.some.inj subject)).2
  | @adopt index goal policy id _ adopted =>
    obtain ⟨a, found, rfl⟩ := adopt?_edits adopted
    exact .inl ⟨keeps.set found rfl rfl fun queued => List.mem_append_left _ queued, rfl⟩
  | @abandon index id _ abandoned =>
    obtain ⟨a, a', found, gave, rfl⟩ := abandon?_edits abandoned
    have named := Agent.mem_ids_of_abandon? gave
    obtain rfl := Agent.eq_of_abandon? gave
    by_cases own : id = c.id
    · subst own
      obtain ⟨owner, member, -, queued⟩ := keeps
      refine .inr (.inl ⟨⟨?_, ?_⟩, rfl⟩)
      · exact numbered.issued owner member c.id (List.mem_map_of_mem queued)
      · exact numbered.absent_of_set found named (by simp [Agent.ids, Agent.without])
    · refine .inl ⟨keeps.set found rfl rfl fun queued => ?_, rfl⟩
      exact List.mem_filter.mpr ⟨queued, by simpa using Ne.symm own⟩
  | outside grown => exact .inl ⟨keeps, rfl⟩

/-- An intention that is gone does not come back. -/
theorem Gone.moves {s s' : Scheduler} {move : Move} {id : IntentionId} (gone : s.Gone id)
    (moves : s.Moves move s') : s'.Gone id ∧ move.report? id s' = none := by
  have grown := moves.supply_before
  cases moves with
  | step stepped =>
    obtain ⟨rfl, rfl⟩ | ⟨rfl, rfl, -⟩ | ⟨turn, reply, resumes, rfl, rfl⟩ := stepAt_cases stepped
    · exact ⟨gone, rfl⟩
    · exact ⟨gone, report?_of_subject (by simp [idleOutcome_subject?])⟩
    · have same := turn.resumed_id resumes
      have chosen : turn.chosen.id ∈ turn.owner.ids := List.mem_map_of_mem turn.chosen_mem
      have absent := gone.2 turn.owner turn.owner_mem
      refine ⟨gone.set turn.found (turn.after_agents reply) grown fun _ => ?_,
        report?_of_subject fun agent subject => ?_⟩
      · intro named
        obtain ⟨d, member, rfl⟩ := List.mem_map.mp named
        rw [turn.ownerAfter_commitments] at member
        rcases List.mem_append.mp member with old | new
        · refine absent (List.mem_map_of_mem ?_)
          rw [turn.queue]
          rcases List.mem_append.mp old with early | late
          · simp [early]
          · simp [late]
        · split at new
          · obtain rfl := List.mem_singleton.mp new
            exact absent (same ▸ chosen)
          · simp at new
      · rw [turn.subject?, same] at subject
        exact absent ((Prod.mk.inj (Option.some.inj subject)).2 ▸ chosen)
  | @adopt index goal policy _ _ adopted =>
    obtain ⟨a, found, rfl⟩ := adopt?_edits adopted
    refine ⟨gone.set found rfl grown fun absent named => ?_, rfl⟩
    have ids : (a.adopt goal policy s.platform).2.1.ids =
        a.ids ++ [⟨s.platform.supply.nextIntention⟩] := by
      simp [Agent.ids, Agent.adopt, Commitment.id, Supply.freshIntention]
    rw [ids, List.mem_append, List.mem_singleton] at named
    -- A new intention has a number that was never given before.
    rcases named with old | rfl
    · exact absent old
    · exact Nat.lt_irrefl _ gone.1
  | abandon abandoned =>
    obtain ⟨a, a', found, gave, rfl⟩ := abandon?_edits abandoned
    obtain rfl := Agent.eq_of_abandon? gave
    refine ⟨gone.set found rfl grown fun absent named => absent ?_, rfl⟩
    exact (List.filter_sublist.map Commitment.id).mem named
  | outside => exact ⟨⟨Nat.lt_of_lt_of_le gone.1 grown.intentions, gone.2⟩, rfl⟩

theorem Run.history_of_gone {s last : Scheduler} {moments : List Moment} (run : s.Run moments last)
    {id : IntentionId} (gone : s.Gone id) : history id last moments = [] := by
  induction run with
  | stay => rfl
  | go moves rest ih =>
    obtain ⟨after, silent⟩ := gone.moves moves
    rw [history, rest.startOf_eq, silent, ih after]
    rfl

/-- At the turn of a commitment its history is continued as its policy says. -/
theorem Turn.reports {s : Scheduler} {now : Time} (turn : s.Turn now) {reply : Reply Query}
    (resumes : turn.chosen.query.Resumes turn.context turn.start reply)
    (numbered : Numbered (turn.after reply).agents (turn.after reply).platform.supply)
    (first : turn.chosen.policy = .first → turn.chosen.solutions = 0) :
    ((turn.settled reply).1.report? turn.chosen.id
        ((turn.after reply).commitment? turn.chosen.id)).toList =
      turn.chosen.policy.history turn.chosen.goal turn.chosen.solutions [reply] := by
  have same := turn.resumed_id resumes
  have kept (goesOn : turn.continues reply = true) :
      (turn.after reply).commitment? turn.chosen.id = some (turn.resumed reply) :=
    same ▸ (turn.keeps_after goesOn).commitment? numbered
  have finished (n : Nat) (count : (turn.resumed reply).solutions = n) (p : Platform)
      (after : Option Commitment) :
      ((finish turn.owner.id (turn.resumed reply) p).1.report? turn.chosen.id after).toList =
        [if 0 < n then .completed n else .failed] := by
    unfold finish
    rw [count, same]
    split <;> simp [StepOutcome.report?]
  have goal : (turn.resumed reply).goal = turn.chosen.goal := rfl
  have scope : (turn.resumed reply).intention.scope = reply.state.scope := rfl
  unfold Turn.continues at kept
  unfold Turn.settled at kept ⊢
  have policy : (turn.resumed reply).policy = turn.chosen.policy := rfl
  have count : (turn.resumed reply).solutions = turn.chosen.solutions + reply.found := rfl
  generalize turn.resumed reply = c at *
  obtain ⟨(e | _) | (_ | _ | _), next, t⟩ := reply
  · simp [settle, StepOutcome.report?, Policy.history, same]
  · simp [settle, StepOutcome.report?, Policy.history, same]
  · cases chosen : turn.chosen.policy with
    | first =>
      rw [first chosen] at count
      simp only [settle, policy, chosen]
      exact finished 1 count _ _
    | all =>
      simp only [settle, policy, chosen, forall_true_left] at kept
      simp only [settle, policy, chosen, kept]
      simp [StepOutcome.report?, Policy.history, same, goal, scope]
  · simp [settle, StepOutcome.report?, Policy.history]
  · simp only [settle]
    exact finished _ count _ _

theorem Turn.continues_eq_goesOn {s : Scheduler} {now : Time} (turn : s.Turn now)
    (reply : Reply Query) : turn.continues reply = turn.chosen.policy.goesOn reply.result := by
  unfold Turn.continues Turn.settled
  have policy : (turn.resumed reply).policy = turn.chosen.policy := rfl
  generalize turn.resumed reply = c at *
  obtain ⟨(e | _) | (_ | _ | _), next, t⟩ := reply
  · rfl
  · rfl
  · cases chosen : turn.chosen.policy <;> simp [settle, policy, chosen, Policy.goesOn]
  · rfl
  · rfl

end Scheduler

end Deliberation
