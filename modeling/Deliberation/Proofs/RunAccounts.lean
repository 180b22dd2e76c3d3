import Deliberation.Proofs.Histories

/-! The accounts of a run. Every step adds to the counters of the scheduler what its outcome says,
and an intention leaves its queue exactly when its outcome ends it. A run is made of clock readings,
steps and sleeps, so its summary can be read off the moments of the run. -/
namespace Deliberation

namespace StepOutcome

def isSolution : StepOutcome → Bool
  | solution _ _ => true
  | _ => false

def isSuspended : StepOutcome → Bool
  | suspended _ _ => true
  | _ => false

def isCompleted : StepOutcome → Bool
  | completed _ _ _ => true
  | _ => false

def isFailed : StepOutcome → Bool
  | failed _ _ => true
  | _ => false

def isAborted : StepOutcome → Bool
  | aborted _ _ _ => true
  | _ => false

def isPanicked : StepOutcome → Bool
  | panicked _ _ => true
  | _ => false

end StepOutcome

/-- An intention that is over with its first solution has none yet. -/
def Agent.Unsolved (a : Agent) : Prop :=
  ∀ c ∈ a.commitments, c.policy = .first → c.solutions = 0

namespace Scheduler

def Moment.outcome? (m : Moment) : Option StepOutcome :=
  match m.move with
  | .step _ outcome => some outcome
  | _ => none

/-- How many steps among some moments have an outcome of a kind. -/
def count (kind : StepOutcome → Bool) (moments : List Moment) : Nat :=
  moments.countP fun m => m.outcome?.any kind

/-- The step completes an intention that is over with its first solution. -/
def Moment.completesFirst (m : Moment) : Bool :=
  match m.move with
  | .step _ (.completed _ id _) => (m.before.commitment? id).any fun c => c.policy = .first
  | _ => false

/-- Whether a move is made without anyone taking up or giving up a goal. -/
def Move.unattended : Move → Bool
  | step _ _ => true
  | outside => true
  | _ => false

theorem count_append (kind : StepOutcome → Bool) (moments more : List Moment) :
    count kind (moments ++ more) = count kind moments + count kind more :=
  List.countP_append

theorem count_step (kind : StepOutcome → Bool) (s : Scheduler) (now : Time)
    (outcome : StepOutcome) : count kind [⟨s, .step now outcome⟩] = (kind outcome).toNat := by
  cases h : kind outcome <;> simp [count, Moment.outcome?, h]

theorem intentionCount_eq (s : Scheduler) :
    s.intentionCount = (s.agents.flatMap Agent.commitments).length := by
  unfold intentionCount
  induction s.agents with
  | nil => rfl
  | cons a rest ih => rw [List.foldr_cons, ih, List.flatMap_cons, List.length_append]

/-- Replacing an agent changes the number of intentions by what its queue gains or loses. -/
theorem intentionCount_set {s s' : Scheduler} {index : Nat} {a a' : Agent}
    (found : s.agents[index]? = some a) (agents : s'.agents = s.agents.set index a') :
    s'.intentionCount + a.commitments.length = s.intentionCount + a'.commitments.length := by
  obtain ⟨less, rfl⟩ := List.getElem?_eq_some_iff.mp found
  have taken := ((List.getElem_cons_eraseIdx_perm less).flatMap_right Agent.commitments).length_eq
  have put := ((List.set_perm_cons_eraseIdx less a').flatMap_right Agent.commitments).length_eq
  rw [List.flatMap_cons, List.length_append] at taken put
  rw [intentionCount_eq, intentionCount_eq, agents, put, ← taken]
  omega

/-- What the end of a commitment is called depends on whether there has been a solution. -/
theorem finish_cases (agent : AgentId) (c : Commitment) (p : Platform) :
    (0 < c.solutions ∧ (finish agent c p).1 = .completed agent c.id c.solutions) ∨
      (c.solutions = 0 ∧ (finish agent c p).1 = .failed agent c.id) := by
  unfold finish
  by_cases some : 0 < c.solutions
  · exact .inl ⟨some, by rw [if_pos some]⟩
  · exact .inr ⟨by omega, by rw [if_neg some]⟩

namespace Turn

variable {s : Scheduler} {now : Time} (turn : s.Turn now)

theorem resumed_solutions (reply : Reply Query) :
    (turn.resumed reply).solutions = turn.chosen.solutions + reply.found := rfl

theorem resumed_policy (reply : Reply Query) :
    (turn.resumed reply).policy = turn.chosen.policy := rfl

/-- The outcomes of a turn, by what the query replies and the policy asks for. -/
theorem settled_cases (reply : Reply Query) :
    (turn.chosen.policy = .first ∧ reply.found = 1 ∧
      ∃ n, (turn.settled reply).1 = .completed turn.owner.id (turn.resumed reply).id n) ∨
    (turn.chosen.policy = .all ∧ reply.found = 1 ∧
      (turn.settled reply).1 = .solution turn.owner.id (turn.resumed reply).id) ∨
    (reply.found = 0 ∧ (turn.settled reply).1 = .suspended turn.owner.id (turn.resumed reply).id) ∨
    (reply.found = 0 ∧ 0 < turn.chosen.solutions ∧
      ∃ n, (turn.settled reply).1 = .completed turn.owner.id (turn.resumed reply).id n) ∨
    (reply.found = 0 ∧ (turn.settled reply).1 = .failed turn.owner.id (turn.resumed reply).id) ∨
    (reply.found = 0 ∧
      ∃ e, (turn.settled reply).1 = .aborted turn.owner.id (turn.resumed reply).id e) ∨
    (reply.found = 0 ∧
      (turn.settled reply).1 = .panicked turn.owner.id (turn.resumed reply).id) := by
  have count := turn.resumed_solutions reply
  have policy := turn.resumed_policy reply
  unfold Turn.settled
  generalize turn.resumed reply = c at *
  obtain ⟨(e | _) | (_ | _ | _), next, t⟩ := reply
  · exact .inr (.inr (.inr (.inr (.inr (.inl ⟨rfl, e, rfl⟩)))))
  · exact .inr (.inr (.inr (.inr (.inr (.inr ⟨rfl, rfl⟩)))))
  · cases chosen : turn.chosen.policy with
    | first =>
      refine .inl ⟨rfl, rfl, c.solutions, ?_⟩
      have found : Reply.found ⟨.ok .solution, next, t⟩ = 1 := rfl
      simp only [settle, policy, chosen]
      rcases finish_cases turn.owner.id c t.platform with ⟨-, same⟩ | ⟨none, -⟩
      · exact same
      · omega
    | all => exact .inr (.inl ⟨rfl, rfl, by simp only [settle, policy, chosen]⟩)
  · exact .inr (.inr (.inl ⟨rfl, rfl⟩))
  · have found : Reply.found ⟨.ok .exhausted, next, t⟩ = 0 := rfl
    rcases finish_cases turn.owner.id c t.platform with ⟨some, same⟩ | ⟨-, same⟩
    · exact .inr (.inr (.inr (.inl ⟨rfl, by omega, c.solutions, same⟩)))
    · exact .inr (.inr (.inr (.inr (.inl ⟨rfl, same⟩))))

/-- An intention leaves the queues exactly when its outcome ends it. -/
theorem intentionCount_after (reply : Reply Query) :
    s.intentionCount = (turn.after reply).intentionCount +
      (if turn.continues reply then 0 else 1) := by
  have changed := intentionCount_set turn.found (turn.after_agents reply)
  rw [turn.ownerAfter_commitments, turn.queue, Turn.others] at changed
  cases goesOn : turn.continues reply <;>
    simp only [goesOn, List.length_append, List.length_cons, List.length_nil, if_true,
      Bool.false_eq_true, if_false] at changed ⊢ <;> omega

theorem unsolved_after {reply : Reply Query} (unsolved : turn.owner.Unsolved) :
    (turn.ownerAfter reply).Unsolved := by
  intro c member first
  rw [turn.ownerAfter_commitments, List.mem_append] at member
  rcases member with other | own
  · refine unsolved c ?_ first
    rw [turn.queue]
    simp only [Turn.others, List.mem_append] at other
    simp only [List.mem_append, List.mem_cons]
    exact other.imp_right .inr
  · by_cases goesOn : turn.continues reply
    · rw [if_pos goesOn, List.mem_singleton] at own
      subst c
      have none := unsolved turn.chosen turn.chosen_mem first
      rw [turn.continues_eq_goesOn] at goesOn
      rw [turn.resumed_policy] at first
      rw [turn.resumed_solutions, none, Nat.zero_add]
      obtain ⟨e | (_ | _ | _), next, t⟩ := reply <;> simp_all [Policy.goesOn, Reply.found]
    · simp [goesOn] at own

end Turn

theorem unsolved_set {agents : List Agent} {index : Nat} {a' : Agent}
    (unsolved : ∀ a ∈ agents, a.Unsolved) (own : a'.Unsolved) :
    ∀ a ∈ agents.set index a', a.Unsolved := by
  intro a member
  rcases List.mem_or_eq_of_mem_set member with old | rfl
  · exact unsolved a old
  · exact own

end Scheduler

theorem Agent.Edits.unsolved {a a' : Agent} {p p' : Platform} (edits : a.Edits p a' p')
    (unsolved : a.Unsolved) : a'.Unsolved := by
  cases edits with
  | adopt goal policy =>
    intro c member first
    rcases List.mem_append.mp member with old | new
    · exact unsolved c old first
    · obtain rfl := List.mem_singleton.mp new
      rfl
  | abandon abandoned =>
    obtain rfl := Agent.eq_of_abandon? abandoned
    exact fun c member => unsolved c (List.mem_of_mem_filter member)
  | believe beliefs => exact unsolved

namespace Scheduler

theorem Moves.unsolved {s s' : Scheduler} {move : Move} (moves : s.Moves move s')
    (unsolved : ∀ a ∈ s.agents, a.Unsolved) : ∀ a ∈ s'.agents, a.Unsolved := by
  cases moves with
  | step stepped =>
    obtain ⟨-, rfl⟩ | ⟨-, rfl, -⟩ | ⟨turn, reply, -, -, rfl⟩ := stepAt_cases stepped
    · exact unsolved
    · exact unsolved
    · rw [turn.after_agents]
      exact unsolved_set unsolved (turn.unsolved_after (unsolved _ turn.owner_mem))
  | adopt adopted =>
    obtain ⟨a, found, rfl⟩ := adopt?_edits adopted
    have own := unsolved a (List.mem_of_getElem? found)
    exact unsolved_set unsolved (Agent.Edits.unsolved (.adopt _ _) own)
  | abandon abandoned =>
    obtain ⟨a, a', found, gave, rfl⟩ := abandon?_edits abandoned
    have own := unsolved a (List.mem_of_getElem? found)
    exact unsolved_set unsolved (Agent.Edits.unsolved (p := s.platform) (.abandon gave) own)
  | outside => exact unsolved

end Scheduler

theorem Site.Changes.unsolved {x x' : Site} (changes : x.Changes x')
    (unsolved : ∀ a ∈ x.workshop ++ x.scheduler.agents, a.Unsolved) :
    ∀ a ∈ x'.workshop ++ x'.scheduler.agents, a.Unsolved := by
  rw [List.forall_mem_append] at unsolved ⊢
  obtain ⟨shop, own⟩ := unsolved
  cases changes with
  | build name =>
    refine ⟨List.forall_mem_append.mpr ⟨shop, ?_⟩, own⟩
    intro a new
    obtain rfl := List.mem_singleton.mp new
    exact nofun
  | shape found edits =>
    exact ⟨Scheduler.unsolved_set shop (edits.unsolved (shop _ (List.mem_of_getElem? found))), own⟩
  | install found =>
    refine ⟨fun a member => shop a (List.mem_of_mem_eraseIdx member), ?_⟩
    refine List.forall_mem_append.mpr ⟨own, ?_⟩
    intro a new
    obtain rfl := List.mem_singleton.mp new
    exact shop _ (List.mem_of_getElem? found)
  | believe believed =>
    obtain ⟨a, found, changed⟩ := Option.bind_eq_some_iff.mp believed
    obtain ⟨beliefs, -, rfl⟩ := Option.map_eq_some_iff.mp changed
    exact ⟨shop, Scheduler.unsolved_set own (own a (List.mem_of_getElem? found))⟩
  | move moves => exact ⟨shop, moves.unsolved own⟩

theorem Site.Reached.unsolved {x : Site} (reached : x.Reached) :
    ∀ a ∈ x.workshop ++ x.scheduler.agents, a.Unsolved := by
  induction reached with
  | start => simp
  | change _ changes ih => exact changes.unsolved ih

namespace Scheduler

/-- The counters of the scheduler and the number of intentions before and after some moves that take
up and give up no goal. -/
structure Balance (s : Scheduler) (moments : List Moment) (s' : Scheduler) : Prop where
  steps : s'.steps = s.steps + count StepOutcome.dispatched moments
  kinds : count StepOutcome.dispatched moments = count StepOutcome.isSolution moments +
    count StepOutcome.isSuspended moments + count StepOutcome.isCompleted moments +
    count StepOutcome.isFailed moments + count StepOutcome.isAborted moments +
    count StepOutcome.isPanicked moments
  solutions : s'.solutions = s.solutions + count StepOutcome.isSolution moments +
    moments.countP Moment.completesFirst
  intentions : s.intentionCount = s'.intentionCount + count StepOutcome.isCompleted moments +
    count StepOutcome.isFailed moments + count StepOutcome.isAborted moments +
    count StepOutcome.isPanicked moments
  config : s'.config = s.config

theorem Balance.refl (s : Scheduler) : Balance s [] s := ⟨rfl, rfl, rfl, rfl, rfl⟩

theorem Balance.append {s s' s'' : Scheduler} {moments more : List Moment}
    (first : Balance s moments s') (second : Balance s' more s'') :
    Balance s (moments ++ more) s'' := by
  obtain ⟨steps, kinds, solutions, intentions, config⟩ := first
  obtain ⟨steps', kinds', solutions', intentions', config'⟩ := second
  refine ⟨?_, ?_, ?_, ?_, config'.trans config⟩ <;>
    simp only [count_append, List.countP_append] <;> omega

/-- Nothing is counted when nothing is dispatched. -/
theorem Balance.idle {s : Scheduler} {now : Time} {outcome : StepOutcome}
    (quiet : outcome.subject? = none) : Balance s [⟨s, .step now outcome⟩] s := by
  cases outcome <;> simp [StepOutcome.subject?] at quiet
  all_goals
    constructor <;> simp [count_step, StepOutcome.dispatched, StepOutcome.isSolution,
      StepOutcome.isSuspended, StepOutcome.isCompleted, StepOutcome.isFailed,
      StepOutcome.isAborted, StepOutcome.isPanicked, Moment.completesFirst]

/-- A turn counts as one step, with one solution if the query has found one, and with one intention
less if the outcome ends it. -/
theorem Turn.balance {s : Scheduler} {now : Time} (turn : s.Turn now) {reply : Reply Query}
    {supply : Supply} (resumes : turn.chosen.query.Resumes turn.context turn.start reply)
    (numbered : Numbered s.agents supply) (unsolved : turn.owner.Unsolved) :
    Balance s [⟨s, .step now (turn.settled reply).1⟩] (turn.after reply) := by
  have keeps : s.Keeps turn.owner.mind turn.chosen := ⟨_, turn.owner_mem, rfl, turn.chosen_mem⟩
  have known : s.commitment? (turn.resumed reply).id = some turn.chosen := by
    rw [turn.resumed_id resumes]
    exact keeps.commitment? numbered
  have live := turn.intentionCount_after reply
  rw [← turn.continues_eq] at live
  have found : (turn.after reply).solutions = s.solutions + reply.found := rfl
  have step : (turn.after reply).steps = s.steps + 1 := rfl
  have config : (turn.after reply).config = s.config := rfl
  -- A commitment under `first` that is completed was completed by the solution of this turn.
  have several : 0 < turn.chosen.solutions → ¬ turn.chosen.policy = .first := by
    intro some first
    have none := unsolved turn.chosen turn.chosen_mem first
    omega
  obtain ⟨policy, one, n, same⟩ | ⟨policy, one, same⟩ | ⟨zero, same⟩ | ⟨zero, some, n, same⟩ |
    ⟨zero, same⟩ | ⟨zero, e, same⟩ | ⟨zero, same⟩ := turn.settled_cases reply
  all_goals
    rw [same] at live ⊢
    constructor <;> simp_all [count_step, StepOutcome.dispatched, StepOutcome.isSolution,
      StepOutcome.isSuspended, StepOutcome.isCompleted, StepOutcome.isFailed,
      StepOutcome.isAborted, StepOutcome.isPanicked, StepOutcome.continues, Moment.completesFirst]

theorem Moves.balance {s s' : Scheduler} {move : Move} {supply : Supply} (moves : s.Moves move s')
    (unattended : move.unattended = true) (numbered : Numbered s.agents supply)
    (unsolved : ∀ a ∈ s.agents, a.Unsolved) : Balance s [⟨s, move⟩] s' := by
  cases moves with
  | step stepped =>
    obtain ⟨rfl, rfl⟩ | ⟨rfl, rfl, -⟩ | ⟨turn, reply, resumes, rfl, rfl⟩ := stepAt_cases stepped
    · exact .idle rfl
    · exact .idle (idleOutcome_subject? _)
    · exact turn.balance resumes numbered (unsolved _ turn.owner_mem)
  | adopt => simp [Move.unattended] at unattended
  | abandon => simp [Move.unattended] at unattended
  | outside => exact ⟨rfl, rfl, rfl, rfl, rfl⟩

namespace Run

variable {s s' s'' : Scheduler} {moments more : List Moment} {workshop : List Agent}

theorem append (run : s.Run moments s') (rest : s'.Run more s'') :
    s.Run (moments ++ more) s'' := by
  induction run with
  | stay => exact rest
  | go moves _ ih => exact .go moves (ih rest)

theorem reached (run : s.Run moments s') (start : Site.Reached ⟨s, workshop⟩) :
    Site.Reached ⟨s', workshop⟩ := by
  induction run with
  | stay => exact start
  | go moves _ ih => exact ih (start.change (.move moves))

theorem unsolved (run : s.Run moments s') (start : ∀ a ∈ s.agents, a.Unsolved) :
    (∀ m ∈ moments, ∀ a ∈ m.before.agents, a.Unsolved) ∧ ∀ a ∈ s'.agents, a.Unsolved := by
  induction run with
  | stay => exact ⟨by simp, start⟩
  | go moves _ ih =>
    obtain ⟨during, after⟩ := ih (moves.unsolved start)
    exact ⟨List.forall_mem_cons.mpr ⟨start, during⟩, after⟩

theorem balance (run : s.Run moments s') (sound : Site.Sound ⟨s, workshop⟩)
    (unsolved : ∀ a ∈ s.agents, a.Unsolved)
    (unattended : ∀ m ∈ moments, m.move.unattended = true) : Balance s moments s' := by
  induction run with
  | stay s => exact .refl s
  | go moves _ ih =>
    obtain ⟨own, others⟩ := List.forall_mem_cons.mp unattended
    have first := moves.balance own sound.numbered.of_append unsolved
    exact first.append (ih (sound.moves moves) (moves.unsolved unsolved) others)

end Run

/-- One round of a run: unless the steps are used up, the clock is read and a step is taken. -/
def round (limit start : Nat) (s : Scheduler) : List Moment :=
  if s.atLimit start then []
  else
    match s.step limit with
    | none => []
    | some (outcome, _) =>
      let (now, platform) := s.platform.readClock
      [⟨s, .outside⟩, ⟨{ s with platform }, .step now outcome⟩]

/-- The moments of the rounds of a run. After a round in which all intentions wait it sleeps. -/
def rounds (limit start : Nat) : Nat → Scheduler → Summary → List Moment
  | 0, _, _ => []
  | more + 1, s, summary =>
    s.round limit start ++
      match s.advance limit start summary with
      | some (.waiting deadline, s) =>
        ⟨s, .outside⟩ :: rounds limit start more (s.sleep deadline) summary
      | some (.going summary, s) => rounds limit start more s summary
      | _ => []

/-- All moments of a run up to the note of its totals. -/
def record (limit : Nat) (s : Scheduler) : List Moment :=
  s.rounds limit s.steps limit {} ++
    match runFrom limit s.steps limit s {} with
    | some (.returned _, ended) => [⟨ended, .outside⟩]
    | _ => []

def Progress.panics : Progress → Nat
  | panicked => 1
  | _ => 0

def Ending.panics : Ending → Nat
  | panicked => 1
  | returned _ => 0

/-- A part of a run: its moves, what they add to the summary, and how many panics are among them. -/
structure Part (s : Scheduler) (summary : Summary) (moments : List Moment) (s' : Scheduler)
    (summary' : Summary) (panics : Nat) : Prop where
  run : s.Run moments s'
  unattended : ∀ m ∈ moments, m.move.unattended = true
  completed : summary'.completed = summary.completed + count StepOutcome.isCompleted moments
  failed : summary'.failed = summary.failed + count StepOutcome.isFailed moments
  aborted : summary'.aborted = summary.aborted + count StepOutcome.isAborted moments
  panicked : count StepOutcome.isPanicked moments = panics

namespace Part

variable {s s' s'' : Scheduler} {summary summary' summary'' : Summary} {moments more : List Moment}
  {panics : Nat}

/-- Only the last part of a run can have a panic. -/
theorem append (first : Part s summary moments s' summary' 0)
    (second : Part s' summary' more s'' summary'' panics) :
    Part s summary (moments ++ more) s'' summary'' panics := by
  obtain ⟨run, unattended, completed, failed, aborted, panicked⟩ := first
  obtain ⟨run', unattended', completed', failed', aborted', panicked'⟩ := second
  refine ⟨run.append run', List.forall_mem_append.mpr ⟨unattended, unattended'⟩, ?_, ?_, ?_, ?_⟩ <;>
    rw [count_append] <;> omega

/-- Others use the platform, and nothing is counted. -/
theorem outside (s : Scheduler) (summary : Summary) (platform : Platform)
    (grown : s.platform.supply.Before platform.supply) :
    Part s summary [⟨s, .outside⟩] { s with platform } summary 0 :=
  ⟨.go (.outside grown) (.stay _), by simp [Move.unattended], rfl, rfl, rfl, rfl⟩

theorem step {limit : Nat} {now : Time} {outcome : StepOutcome} (summary : Summary)
    (stepped : s.stepAt limit now = some (outcome, s')) :
    Part s summary [⟨s, .step now outcome⟩] s' (tally summary outcome)
      outcome.isPanicked.toNat := by
  refine ⟨.go (.step stepped) (.stay _), by simp [Move.unattended], ?_, ?_, ?_, count_step ..⟩ <;>
    rw [count_step] <;> cases outcome <;> rfl

/-- Why a run stops is not counted. -/
theorem stop (part : Part s summary moments s' summary' panics) (reason : StopReason) :
    Part s summary moments s' { summary' with stopped := reason } panics :=
  ⟨part.run, part.unattended, part.completed, part.failed, part.aborted, part.panicked⟩

end Part

/-- The summary after a round. -/
def Progress.summary (old : Summary) : Progress → Summary
  | stopped summary => summary
  | panicked => old
  | waiting _ => old
  | going summary => summary

/-- A round ends a run because its steps are used up, or takes a step, and then goes on as the
outcome says. -/
theorem advance_cases {limit start : Nat} {s s' : Scheduler} {summary : Summary}
    {progress : Progress} (advanced : s.advance limit start summary = some (progress, s')) :
    (s.atLimit start = true ∧ progress = .stopped { summary with stopped := .stepLimit } ∧
      s' = s) ∨
    ∃ outcome, s.atLimit start = false ∧ s.step limit = some (outcome, s') ∧
      ((outcome = .shutdown ∧ progress = .stopped { summary with stopped := .shutdown }) ∨
      (outcome = .noIntentions ∧ progress = .stopped { summary with stopped := .noIntentions }) ∨
      (∃ deadline, outcome = .idle deadline ∧ progress = .waiting deadline) ∨
      (∃ agent id, outcome = .panicked agent id ∧ progress = .panicked) ∨
      (outcome.isPanicked = false ∧ progress = .going (tally summary outcome))) := by
  unfold advance at advanced
  split at advanced
  · rename_i full
    obtain ⟨rfl, rfl⟩ := Prod.mk.inj (Option.some.inj advanced)
    exact .inl ⟨full, rfl, rfl⟩
  · rename_i room
    refine .inr ?_
    split at advanced
    · simp at advanced
    all_goals rename_i stepped
    · obtain ⟨rfl, rfl⟩ := Prod.mk.inj (Option.some.inj advanced)
      exact ⟨_, by simpa using room, stepped, .inl ⟨rfl, rfl⟩⟩
    · obtain ⟨rfl, rfl⟩ := Prod.mk.inj (Option.some.inj advanced)
      exact ⟨_, by simpa using room, stepped, .inr (.inl ⟨rfl, rfl⟩)⟩
    · obtain ⟨rfl, rfl⟩ := Prod.mk.inj (Option.some.inj advanced)
      exact ⟨_, by simpa using room, stepped, .inr (.inr (.inl ⟨_, rfl, rfl⟩))⟩
    · obtain ⟨rfl, rfl⟩ := Prod.mk.inj (Option.some.inj advanced)
      exact ⟨_, by simpa using room, stepped, .inr (.inr (.inr (.inl ⟨_, _, rfl, rfl⟩)))⟩
    · rename_i outcome _ _ _ _ other
      obtain ⟨rfl, rfl⟩ := Prod.mk.inj (Option.some.inj advanced)
      have calm : outcome.isPanicked = false := by
        cases outcome <;> first | rfl | exact absurd rfl (other _ _)
      exact ⟨_, by simpa using room, stepped, .inr (.inr (.inr (.inr ⟨calm, rfl⟩)))⟩

theorem advance_part {limit start : Nat} {s s' : Scheduler} {summary : Summary}
    {progress : Progress} (advanced : s.advance limit start summary = some (progress, s')) :
    Part s summary (s.round limit start) s' (progress.summary summary) progress.panics := by
  obtain ⟨full, rfl, rfl⟩ | ⟨outcome, room, stepped, ends⟩ := advance_cases advanced
  · rw [round, if_pos full]
    exact ⟨.stay _, by simp, rfl, rfl, rfl, rfl⟩
  · have part := (Part.outside s summary s.platform.readClock.2 (.refl _)).append
      (.step summary stepped)
    have moments : s.round limit start = [⟨s, .outside⟩] ++ [⟨{ s with platform :=
        s.platform.readClock.2 }, .step s.platform.readClock.1 outcome⟩] := by
      rw [round, if_neg (by simp [room]), stepped]
      rfl
    rw [moments]
    obtain ⟨rfl, rfl⟩ | ⟨rfl, rfl⟩ | ⟨deadline, rfl, rfl⟩ | ⟨agent, id, rfl, rfl⟩ | ⟨calm, rfl⟩ :=
      ends
    · exact part.stop .shutdown
    · exact part.stop .noIntentions
    · exact part
    · exact part
    · rwa [calm] at part

/-- What the reason for which a run stops says of the scheduler. -/
structure Stops (start : Nat) (s : Scheduler) (reason : StopReason) : Prop where
  stepLimit : reason = .stepLimit → s.atLimit start = true
  noIntentions : reason = .noIntentions → s.intentionCount = 0
  shutdown : reason = .shutdown → s.platform.stopping = true

theorem stepAt_stops {limit : Nat} {s s' : Scheduler} {now : Time} {outcome : StepOutcome}
    (stepped : s.stepAt limit now = some (outcome, s')) :
    (outcome = .shutdown → s'.platform.stopping = true) ∧
      (outcome = .noIntentions → s'.intentionCount = 0) := by
  by_cases stopping : s.platform.stopping = true
  · rw [stepAt, if_pos stopping] at stepped
    obtain ⟨rfl, rfl⟩ := Prod.mk.inj (Option.some.inj stepped)
    exact ⟨fun _ => stopping, by simp⟩
  · cases selected : s.select now with
    | none =>
      rw [stepAt, if_neg stopping, selected] at stepped
      obtain ⟨rfl, rfl⟩ := Prod.mk.inj (Option.some.inj stepped)
      unfold idleOutcome
      split
      · rename_i none
        exact ⟨by simp, fun _ => none⟩
      · exact ⟨by simp, by simp⟩
    | some next =>
      obtain ⟨turn, steps⟩ := stepAt_of_select (Bool.eq_false_iff.mpr stopping) selected
      rw [steps, Option.map_eq_some_iff] at stepped
      obtain ⟨reply, -, same⟩ := stepped
      obtain ⟨rfl, rfl⟩ := Prod.mk.inj same
      have subject := turn.subject? reply
      constructor <;> intro none <;> simp [none, StepOutcome.subject?] at subject

theorem stepAt_steps {limit : Nat} {s s' : Scheduler} {now : Time} {outcome : StepOutcome}
    (stepped : s.stepAt limit now = some (outcome, s')) :
    s.steps ≤ s'.steps ∧ s'.steps ≤ s.steps + 1 ∧ s'.config = s.config := by
  obtain ⟨-, rfl⟩ | ⟨-, rfl, -⟩ | ⟨turn, reply, -, -, rfl⟩ := stepAt_cases stepped
  · exact ⟨Nat.le_refl _, Nat.le_succ _, rfl⟩
  · exact ⟨Nat.le_refl _, Nat.le_succ _, rfl⟩
  · exact ⟨Nat.le_succ _, Nat.le_refl _, rfl⟩

theorem atLimit_iff {s : Scheduler} {start : Nat} :
    s.atLimit start = true ↔ ∃ most, s.config.maxSteps = some most ∧ most ≤ s.steps - start := by
  unfold atLimit
  cases s.config.maxSteps <;> simp

/-- A round takes one step at most, and none when the steps are used up. -/
theorem advance_steps {limit start : Nat} {s s' : Scheduler} {summary : Summary}
    {progress : Progress} (advanced : s.advance limit start summary = some (progress, s'))
    (started : start ≤ s.steps) :
    start ≤ s'.steps ∧ s'.config = s.config ∧ ∀ most, s.config.maxSteps = some most →
      s.steps ≤ start + most → s'.steps ≤ start + most := by
  obtain ⟨-, -, rfl⟩ | ⟨outcome, room, stepped, -⟩ := advance_cases advanced
  · exact ⟨started, rfl, fun _ _ within => within⟩
  · obtain ⟨least, greatest, config⟩ := stepAt_steps stepped
    dsimp only at least greatest
    refine ⟨by omega, config, fun most bounded _ => ?_⟩
    have short : ¬ most ≤ s.steps - start := by
      intro full
      rw [atLimit_iff.mpr ⟨most, bounded, full⟩] at room
      simp at room
    omega

theorem advance_stops {limit start : Nat} {s s' : Scheduler} {summary summary' : Summary}
    (advanced : s.advance limit start summary = some (.stopped summary', s')) :
    Stops start s' summary'.stopped := by
  obtain ⟨full, same, rfl⟩ | ⟨outcome, -, stepped, ends⟩ := advance_cases advanced
  · cases same
    exact ⟨fun _ => full, nofun, nofun⟩
  · obtain ⟨shutdown, noIntentions⟩ := stepAt_stops stepped
    obtain ⟨rfl, same⟩ | ⟨rfl, same⟩ | ⟨deadline, -, same⟩ | ⟨agent, id, -, same⟩ | ⟨-, same⟩ :=
      ends
    · cases same
      exact ⟨nofun, nofun, fun _ => shutdown rfl⟩
    · cases same
      exact ⟨nofun, fun _ => noIntentions rfl, nofun⟩
    · cases same
    · cases same
    · cases same

theorem sleep_eq (s : Scheduler) (deadline : Option Time) :
    ∃ platform, s.platform.supply.Before platform.supply ∧
      s.sleep deadline = { s with platform } := by
  cases deadline with
  | none => exact ⟨s.platform, .refl _, rfl⟩
  | some time =>
    exact ⟨{ s.platform with clock := s.platform.clock.sleepUntil time }, .refl _, rfl⟩

/-- The summary at the end of a run is known only if the run has returned. -/
def Ending.Tells (summary : Summary) : Ending → Prop
  | returned told => told = summary
  | panicked => True

/-- The rounds of a run make up the run: its moves, its bound and the reason for which it stops. -/
theorem runFrom_rounds {limit start more : Nat} {s s' : Scheduler} {summary : Summary}
    {ending : Ending} (ran : runFrom limit start more s summary = some (ending, s'))
    (started : start ≤ s.steps) :
    ∃ tallied, ending.Tells tallied ∧
      Part s summary (rounds limit start more s summary) s' tallied ending.panics ∧
      (∀ told, ending = .returned told → Stops start s' told.stopped) ∧
      ∀ most, s.config.maxSteps = some most → s.steps ≤ start + most → s'.steps ≤ start + most := by
  induction more generalizing s summary with
  | zero => simp [runFrom] at ran
  | succ more ih =>
    cases advanced : s.advance limit start summary with
    | none => simp [runFrom, advanced] at ran
    | some next =>
      obtain ⟨progress, t⟩ := next
      have first := advance_part advanced
      obtain ⟨started', config, bounded⟩ := advance_steps advanced started
      simp only [runFrom, advanced] at ran
      simp only [rounds, advanced]
      cases progress with
      | stopped summary₁ =>
        obtain ⟨rfl, rfl⟩ := Prod.mk.inj (Option.some.inj ran)
        rw [List.append_nil]
        refine ⟨summary₁, rfl, first, fun told same => ?_, bounded⟩
        obtain rfl := Ending.returned.inj same
        exact advance_stops advanced
      | panicked =>
        obtain ⟨rfl, rfl⟩ := Prod.mk.inj (Option.some.inj ran)
        rw [List.append_nil]
        exact ⟨summary, trivial, first, nofun, bounded⟩
      | waiting deadline =>
        obtain ⟨platform, grown, slept⟩ := sleep_eq t deadline
        dsimp only at ran ⊢
        rw [slept] at ran ⊢
        obtain ⟨tallied, told, rest, stops, bounded'⟩ := ih ran started'
        refine ⟨tallied, told, first.append ((Part.outside t summary _ grown).append rest), stops,
          ?_⟩
        intro most most_eq within
        exact bounded' most (config ▸ most_eq) (bounded most most_eq within)
      | going summary₁ =>
        obtain ⟨tallied, told, rest, stops, bounded'⟩ := ih ran started'
        refine ⟨tallied, told, first.append rest, stops, ?_⟩
        intro most most_eq within
        exact bounded' most (config ▸ most_eq) (bounded most most_eq within)

/-- The summary of a run that has returned is what its moments add up to. -/
structure Totals (s : Scheduler) (moments : List Moment) (summary : Summary) (s' : Scheduler) :
    Prop where
  steps : summary.steps = count StepOutcome.dispatched moments
  completed : summary.completed = count StepOutcome.isCompleted moments
  failed : summary.failed = count StepOutcome.isFailed moments
  aborted : summary.aborted = count StepOutcome.isAborted moments
  intentions : s.intentionCount =
    s'.intentionCount + summary.completed + summary.failed + summary.aborted
  outcomes : summary.steps = count StepOutcome.isSolution moments +
    count StepOutcome.isSuspended moments +
    summary.completed + summary.failed + summary.aborted
  solutions : summary.solutions = count StepOutcome.isSolution moments +
    moments.countP Moment.completesFirst
  stepLimit : summary.stopped = .stepLimit → s.config.maxSteps = some summary.steps
  noIntentions : summary.stopped = .noIntentions → s'.intentionCount = 0
  shutdown : summary.stopped = .shutdown → s'.platform.stopping = true

/-- A run that has panicked has no summary. Its last step is counted like the others, and the
intention that was resumed then is lost. -/
structure Interrupted (s : Scheduler) (moments : List Moment) (s' : Scheduler) : Prop where
  steps : s'.steps = s.steps + count StepOutcome.dispatched moments
  intentions : s.intentionCount = s'.intentionCount + count StepOutcome.isCompleted moments +
    count StepOutcome.isFailed moments + count StepOutcome.isAborted moments + 1
  outcomes : count StepOutcome.dispatched moments = count StepOutcome.isSolution moments +
    count StepOutcome.isSuspended moments + count StepOutcome.isCompleted moments +
    count StepOutcome.isFailed moments + count StepOutcome.isAborted moments + 1
  solutions : s'.solutions = s.solutions + count StepOutcome.isSolution moments +
    moments.countP Moment.completesFirst

/-- What the moments of a run say of its end. -/
structure Accounts (limit : Nat) (s : Scheduler) (ending : Ending) (s' : Scheduler) : Prop where
  moments : s.Run (s.record limit) s'
  bounded : ∀ most, s.config.maxSteps = some most →
    count StepOutcome.dispatched (s.record limit) ≤ most
  panics : count StepOutcome.isPanicked (s.record limit) = ending.panics
  /-- At every moment no intention that is over with its first solution has one. -/
  unsolved : ∀ m ∈ s.record limit, ∀ a ∈ m.before.agents, a.Unsolved
  unsolvedAfter : ∀ a ∈ s'.agents, a.Unsolved
  returned : ∀ summary, ending = .returned summary → Totals s (s.record limit) summary s'
  panicked : ending = .panicked → Interrupted s (s.record limit) s'

/-- The totals are completed, and the platform notes them. -/
theorem close_eq (s : Scheduler) (steps solutions : Nat) (summary : Summary) :
    ∃ entry : Journal → Journal, s.close steps solutions summary =
      ({ summary with steps := s.steps - steps, solutions := s.solutions - solutions },
        { s with platform := note s.platform entry }) :=
  ⟨_, rfl⟩

/-- Any part of a run that begins in a system that can come about is accounted for, but for the
summary. -/
theorem Part.accounts {x : Site} (reached : x.Reached) {moments : List Moment} {s' : Scheduler}
    {tallied : Summary} {panics : Nat} (part : Part x.scheduler {} moments s' tallied panics) :
    Balance x.scheduler moments s' ∧ (∀ m ∈ moments, ∀ a ∈ m.before.agents, a.Unsolved) ∧
      ∀ a ∈ s'.agents, a.Unsolved := by
  have unsolved := (List.forall_mem_append.mp reached.unsolved).2
  exact ⟨part.run.balance reached.sound unsolved part.unattended, part.run.unsolved unsolved⟩

theorem run_accounts {x : Site} (reached : x.Reached) {limit : Nat} {ending : Ending}
    {s' : Scheduler} (ran : x.scheduler.run limit = some (ending, s')) :
    Accounts limit x.scheduler ending s' := by
  cases rounds : runFrom limit x.scheduler.steps limit x.scheduler {} with
  | none => simp [run, rounds] at ran
  | some ended =>
    obtain ⟨last, s⟩ := ended
    obtain ⟨tallied, told, part, stops, bounded⟩ := runFrom_rounds rounds (Nat.le_refl _)
    cases last with
    | panicked =>
      simp only [run, rounds, Option.some.injEq, Prod.mk.injEq] at ran
      obtain ⟨rfl, rfl⟩ := ran
      have moments : x.scheduler.record limit =
          x.scheduler.rounds limit x.scheduler.steps limit {} := by
        simp only [record, rounds, List.append_nil]
      rw [← moments] at part
      obtain ⟨⟨steps, kinds, solutions, intentions, -⟩, during, after⟩ := part.accounts reached
      have once : count StepOutcome.isPanicked (x.scheduler.record limit) = 1 := part.panicked
      refine ⟨part.run, ?_, once, during, after, nofun, fun _ => ⟨steps, ?_, ?_, solutions⟩⟩
      · intro most limited
        have := bounded most limited (by omega)
        omega
      · omega
      · omega
    | returned summary =>
      obtain rfl : summary = tallied := told
      obtain ⟨entry, closed⟩ := close_eq s x.scheduler.steps x.scheduler.solutions summary
      simp only [run, rounds, closed, Option.some.injEq, Prod.mk.injEq] at ran
      obtain ⟨rfl, rfl⟩ := ran
      have moments : x.scheduler.record limit =
          x.scheduler.rounds limit x.scheduler.steps limit {} ++ [⟨s, .outside⟩] := by
        simp only [record, rounds]
      have whole := part.append (.outside s summary (note s.platform entry) (.refl _))
      rw [← moments] at whole
      obtain ⟨⟨steps, kinds, solutions, intentions, config⟩, during, after⟩ :=
        whole.accounts reached
      obtain ⟨run, -, completed, failed, aborted, calm⟩ := whole
      have most_eq : s.config = x.scheduler.config := config
      have stops := stops summary rfl
      dsimp only at steps solutions intentions completed failed aborted
      have short : ∀ most, x.scheduler.config.maxSteps = some most →
          count StepOutcome.dispatched (x.scheduler.record limit) ≤ most := by
        intro most limited
        have := bounded most limited (by omega)
        omega
      refine ⟨run, short, calm, during, after, fun totals same => ?_, nofun⟩
      obtain rfl := Ending.returned.inj same
      refine ⟨?_, ?_, ?_, ?_, ?_, ?_, ?_, ?_, stops.noIntentions, stops.shutdown⟩ <;> dsimp only
      · omega
      · omega
      · omega
      · omega
      · omega
      · omega
      · omega
      · intro full
        obtain ⟨most, limited, least⟩ := atLimit_iff.mp (stops.stepLimit full)
        rw [most_eq] at limited
        have := short most limited
        rw [limited]
        congr 1
        omega

/-- One run of a scheduler. -/
structure RunReport where
  limit : Nat
  before : Scheduler
  ending : Ending
  after : Scheduler

/-- Runs of one scheduler, each from where the one before has ended. -/
inductive Reruns : Scheduler → List RunReport → Scheduler → Prop where
  | enough (s : Scheduler) : Reruns s [] s
  | again {limit : Nat} {s s' s'' : Scheduler} {ending : Ending} {reports : List RunReport}
      (ran : s.run limit = some (ending, s')) (rest : Reruns s' reports s'') :
      Reruns s (⟨limit, s, ending, s'⟩ :: reports) s''

end Scheduler

open Scheduler

/-- In every system that can come about, each of any number of consecutive runs that return or panic
is accounted for by the moments that it is made of, and leaves a system that can come about. -/
theorem Site.consecutive_runs_balance {x : Site} (reached : x.Reached) {reports : List RunReport}
    {s' : Scheduler} (runs : x.scheduler.Reruns reports s') :
    (∀ r ∈ reports, Accounts r.limit r.before r.ending r.after) ∧
      Site.Reached ⟨s', x.workshop⟩ := by
  obtain ⟨s, workshop⟩ := x
  change s.Reruns reports s' at runs
  induction runs with
  | enough => exact ⟨by simp, reached⟩
  | again ran rest ih =>
    have accounts := run_accounts reached ran
    obtain ⟨later, ended⟩ := ih (accounts.moments.reached reached)
    exact ⟨List.forall_mem_cons.mpr ⟨accounts, later⟩, ended⟩

/-- An agent with a goal that is over with its first solution and one with two solutions: the first
run uses up its three steps, and the second one finds that nothing is left to do. -/
theorem Site.consecutive_runs_balance_pair :
    ∃ (x : Site) (first second : RunReport) (s' : Scheduler), x.Reached ∧
      x.scheduler.Reruns [first, second] s' ∧
      first.ending =
        .returned { steps := 3, solutions := 3, completed := 1, stopped := .stepLimit } ∧
      second.ending = .returned { steps := 1, completed := 1, stopped := .noIntentions } ∧
      (∀ r ∈ [first, second], Accounts r.limit r.before r.ending r.after) ∧
      Site.Reached ⟨s', x.workshop⟩ := by
  have reached := ((((Reached.start {} {} { maxSteps := some 3 }).change (.build "a")).change
    (.shape (show _[0]? = some _ from rfl) (.adopt (.atom "true") .first))).change
    (.shape (show _[0]? = some _ from rfl)
      (.adopt (.lit "|" [.atom "true", .atom "true"] []) .all))).change
    (.install (show _[0]? = some _ from rfl))
  refine ⟨_, ⟨5, _, _, _⟩, ⟨5, _, _, _⟩, _, reached, .again rfl (.again rfl (.enough _)), rfl, rfl,
    ?_⟩
  exact consecutive_runs_balance reached (.again rfl (.again rfl (.enough _)))

end Deliberation
