import Deliberation.Proofs.Reachability
import Mathlib.Data.List.Nodup

/-! No overtaking. Within an agent, a commitment that is resumed goes behind all that are queued, so
that it comes to its next turn only when those that were there wait. Across agents, the turn passes
from an agent to all others before it comes back to it. -/
namespace Deliberation

namespace Scheduler

/-- A move together with the scheduler that it is made from. -/
structure Moment where
  before : Scheduler
  move : Move

/-- Moves made one after the other. -/
inductive Run : Scheduler → List Moment → Scheduler → Prop where
  | stay (s : Scheduler) : Run s [] s
  | go {s s' s'' : Scheduler} {move : Move} {moments : List Moment} (moves : s.Moves move s')
      (rest : Run s' moments s'') : Run s (⟨s, move⟩ :: moments) s''

/-- The commitment stands in the queue of the agent. -/
def Holds (s : Scheduler) (agent : AgentId) (c : Commitment) : Prop :=
  ∃ owner ∈ s.agents, owner.id = agent ∧ c ∈ owner.commitments

/-- The agent has an intention that is runnable at the time. -/
def Ready (s : Scheduler) (agent : AgentId) (now : Time) : Prop :=
  ∃ c, s.Holds agent c ∧ c.intention.isWaiting now = false

def Move.Dispatches (agent : AgentId) (intention : IntentionId) : Move → Prop
  | step _ outcome => outcome.subject? = some (agent, intention)
  | _ => False

/-- An intention is queued, and another one is not ahead of it. -/
def Ahead (s : Scheduler) (agent : AgentId) (k j : IntentionId) : Prop :=
  ∃ owner ∈ s.agents, owner.id = agent ∧ ∃ front c back,
    owner.commitments = front ++ c :: back ∧ c.id = k ∧ ∀ d ∈ front, d.id ≠ j

/-- Of two different places in a list, one comes first. -/
theorem apart_of_split {α : Type} {front back front' back' : List α} {x y : α}
    (same : front ++ x :: back = front' ++ y :: back') (different : x ≠ y) :
    (∃ mid, front' = front ++ x :: mid ∧ back = mid ++ y :: back') ∨
      ∃ mid, front = front' ++ y :: mid ∧ back' = mid ++ x :: back := by
  rcases List.append_eq_append_iff.mp same with ⟨rest, rfl, tail⟩ | ⟨rest, rfl, tail⟩
  · cases rest with
    | nil => exact absurd (List.cons.inj tail).1 different
    | cons z rest =>
      obtain ⟨rfl, rfl⟩ := List.cons.inj tail
      exact .inl ⟨rest, rfl, rfl⟩
  · cases rest with
    | nil => exact absurd (List.cons.inj tail).1.symm different
    | cons z rest =>
      obtain ⟨rfl, rfl⟩ := List.cons.inj tail
      exact .inr ⟨rest, rfl, rfl⟩

/-- An agent is where it was, or the one that is replaced. -/
theorem mem_set_of_mem {agents : List Agent} {index : Nat} {a owner : Agent} (a' : Agent)
    (found : agents[index]? = some a) (member : owner ∈ agents) :
    owner = a ∨ owner ∈ agents.set index a' := by
  obtain ⟨less, rfl⟩ := List.getElem?_eq_some_iff.mp found
  have taken := (List.getElem_cons_eraseIdx_perm less).symm.mem_iff.mp member
  refine (List.mem_cons.mp taken).imp_right fun other => ?_
  exact (List.set_perm_cons_eraseIdx less a').mem_iff.mpr (List.mem_cons_of_mem _ other)

/-- What is ahead in the queue of one agent stays ahead when that queue is replaced by one that keeps
it ahead. -/
theorem Ahead.set {s s' : Scheduler} {agent : AgentId} {k j : IntentionId} {index : Nat}
    {a a' : Agent} (ahead : s.Ahead agent k j) (found : s.agents[index]? = some a)
    (agents : s'.agents = s.agents.set index a') (same : a'.id = a.id)
    (keeps : a.id = agent → ∀ front c back, a.commitments = front ++ c :: back → c.id = k →
      (∀ d ∈ front, d.id ≠ j) → ∃ front' c' back', a'.commitments = front' ++ c' :: back' ∧
        c'.id = k ∧ ∀ d ∈ front', d.id ≠ j) : s'.Ahead agent k j := by
  obtain ⟨owner, member, named, front, c, back, queue, key, first⟩ := ahead
  obtain ⟨less, -⟩ := List.getElem?_eq_some_iff.mp found
  rcases mem_set_of_mem a' found member with rfl | kept
  · refine ⟨a', ?_, same.trans named, keeps named front c back queue key first⟩
    rw [agents]
    exact List.mem_set less a'
  · exact ⟨owner, agents ▸ kept, named, front, c, back, queue, key, first⟩

theorem Turn.keeps_ahead {s : Scheduler} {now : Time} (turn : s.Turn now) {reply : Reply Query}
    {agent : AgentId} {k j : IntentionId} (ahead : s.Ahead agent k j)
    (other : turn.owner.id = agent → turn.chosen.id ≠ k) :
    (turn.after reply).Ahead agent k j := by
  refine ahead.set turn.found (turn.after_agents reply) rfl ?_
  intro named front c back queue key first
  have different : c ≠ turn.chosen := by
    rintro rfl
    exact other named key
  obtain ⟨tail, after⟩ : ∃ tail, (turn.ownerAfter reply).commitments = turn.others ++ tail :=
    ⟨_, turn.ownerAfter_commitments reply⟩
  rw [after, Turn.others]
  rcases apart_of_split (queue.symm.trans turn.queue) different with
    ⟨mid, ahead, behind⟩ | ⟨mid, ahead, behind⟩
  · exact ⟨front, c, mid ++ turn.back ++ tail, by simp [ahead], key, first⟩
  · refine ⟨turn.front ++ mid, c, back ++ tail, by simp [behind], key, ?_⟩
    intro d member
    refine first d ?_
    rw [ahead]
    rcases List.mem_append.mp member with early | late
    · simp [early]
    · simp [late]

theorem Ahead.moves {s s' : Scheduler} {agent : AgentId} {k j : IntentionId} {move : Move}
    (ahead : s.Ahead agent k j) (moves : s.Moves move s') (other : ¬ move.Dispatches agent k)
    (kept : move ≠ .abandon k) : s'.Ahead agent k j := by
  cases moves with
  | step stepped =>
    obtain ⟨-, rfl⟩ | ⟨-, rfl, -⟩ | ⟨turn, reply, resumes, rfl, rfl⟩ := stepAt_cases stepped
    · exact ahead
    · exact ahead
    · refine turn.keeps_ahead ahead ?_
      rintro rfl rfl
      exact other ((turn.subject? reply).trans (by rw [turn.resumed_id resumes]))
  | @adopt _ goal policy _ _ adopted =>
    obtain ⟨a, found, rfl⟩ := adopt?_edits adopted
    refine ahead.set found rfl rfl ?_
    intro _ front c back queue key first
    obtain ⟨new, added⟩ : ∃ new, (a.adopt goal policy s.platform).2.1.commitments =
      a.commitments ++ [new] := ⟨_, rfl⟩
    exact ⟨front, c, back ++ [new], by simp [added, queue], key, first⟩
  | @abandon index id _ abandoned =>
    obtain ⟨a, a', found, gave, rfl⟩ := abandon?_edits abandoned
    obtain rfl := Agent.eq_of_abandon? gave
    refine ahead.set found rfl rfl ?_
    intro _ front c back queue key first
    have spared : c.id ≠ id := by
      rintro rfl
      exact kept (congrArg _ key)
    refine ⟨front.filter fun d => d.id ≠ id, c, back.filter fun d => d.id ≠ id, ?_, key,
      fun d member => first d (List.mem_of_mem_filter member)⟩
    simp only [Agent.without, queue, List.filter_append, List.filter_cons]
    rw [if_pos (by simpa using spared)]
  | outside => exact ahead

/-- After its turn a commitment is behind all that were queued with it. -/
theorem Turn.ahead_after {s : Scheduler} {now : Time} (turn : s.Turn now) {reply : Reply Query}
    {supply : Supply} (numbered : Numbered s.agents supply) {c : Commitment}
    (queued : c ∈ turn.owner.commitments) (other : c.id ≠ turn.chosen.id) :
    (turn.after reply).Ahead turn.owner.id c.id turn.chosen.id := by
  have kept : c ∈ turn.others := by
    rw [turn.queue] at queued
    simp only [List.mem_append, List.mem_cons] at queued
    rcases queued with early | rfl | late
    · simp [Turn.others, early]
    · exact absurd rfl other
    · simp [Turn.others, late]
  obtain ⟨front, back, split⟩ := List.append_of_mem kept
  obtain ⟨tail, after⟩ : ∃ tail, (turn.ownerAfter reply).commitments = turn.others ++ tail :=
    ⟨_, turn.ownerAfter_commitments reply⟩
  refine ⟨_, turn.ownerAfter_mem reply, rfl, front, c, back ++ tail, by simp [after, split], rfl, ?_⟩
  intro d member
  exact (turn.chosen_only numbered).1 d (by simp [split, member])

/-- What is ahead of a commitment that has its turn waits. -/
theorem Turn.waits {s : Scheduler} {now : Time} (turn : s.Turn now) {supply : Supply}
    (numbered : Numbered s.agents supply) {k : IntentionId}
    (ahead : s.Ahead turn.owner.id k turn.chosen.id) (other : k ≠ turn.chosen.id) :
    ∃ c, s.Holds turn.owner.id c ∧ c.id = k ∧ c.intention.isWaiting now = true := by
  obtain ⟨owner, member, named, front, c, back, queue, rfl, first⟩ := ahead
  obtain rfl : owner = turn.owner :=
    List.inj_on_of_nodup_map numbered.agentsDistinct member turn.owner_mem named
  have different : c ≠ turn.chosen := by
    rintro rfl
    exact other rfl
  refine ⟨c, ⟨turn.owner, member, rfl, by simp [queue]⟩, rfl, turn.ahead c ?_⟩
  rcases apart_of_split (queue.symm.trans turn.queue) different with
    ⟨mid, before, -⟩ | ⟨mid, before, -⟩
  · simp [before]
  · exact absurd rfl (first turn.chosen (by simp [before]))

/-- How many agents are asked before the one at an index. -/
def lag (s : Scheduler) (index : Nat) : Nat :=
  if s.nextAgent ≤ index then index - s.nextAgent else index + s.agents.length - s.nextAgent

/-- The sum of lag and turn is the index, up to one round. -/
theorem lag_cases {s : Scheduler} (valid : s.nextAgent < s.agents.length) (index : Nat) :
    s.nextAgent ≤ index ∧ s.lag index + s.nextAgent = index ∨
      index < s.nextAgent ∧ s.lag index + s.nextAgent = index + s.agents.length := by
  unfold lag
  split
  · exact .inl ⟨by assumption, by omega⟩
  · exact .inr ⟨by omega, by omega⟩

theorem add_lag {s : Scheduler} {index : Nat} (valid : s.nextAgent < s.agents.length)
    (less : index < s.agents.length) :
    (s.nextAgent + s.lag index) % s.agents.length = index := by
  rcases lag_cases valid index with ⟨-, sum⟩ | ⟨-, sum⟩
  · rw [Nat.add_comm, sum, Nat.mod_eq_of_lt less]
  · rw [Nat.add_comm, sum, Nat.add_mod_right, Nat.mod_eq_of_lt less]

namespace Turn

variable {s : Scheduler} {now : Time} (turn : s.Turn now)

theorem after_length (reply : Reply Query) :
    (turn.after reply).agents.length = s.agents.length := by
  rw [turn.after_agents, List.length_set]

theorem after_nextAgent (reply : Reply Query) :
    turn.index + 1 < s.agents.length ∧ (turn.after reply).nextAgent = turn.index + 1 ∨
      turn.index + 1 = s.agents.length ∧ (turn.after reply).nextAgent = 0 := by
  have next : (turn.after reply).nextAgent = (turn.index + 1) % s.agents.length := rfl
  rcases Nat.lt_or_ge (turn.index + 1) s.agents.length with less | least
  · exact .inl ⟨less, by rw [next, Nat.mod_eq_of_lt less]⟩
  · have last : turn.index + 1 = s.agents.length := Nat.le_antisymm turn.index_lt least
    exact .inr ⟨last, by rw [next, last, Nat.mod_self]⟩

/-- The turn of an agent comes after as many others as it lags behind. -/
theorem lag_index (valid : s.nextAgent < s.agents.length) : s.lag turn.index = turn.offset := by
  have reached := turn.reached
  have short := turn.short
  have sum := lag_cases valid turn.index
  rcases Nat.lt_or_ge (s.nextAgent + turn.offset) s.agents.length with within | wraps
  · rw [Nat.mod_eq_of_lt within] at reached
    omega
  · rw [Nat.mod_eq_sub_mod wraps, Nat.mod_eq_of_lt (by omega)] at reached
    omega

/-- An agent that has a runnable intention is not asked before the one that has its turn. -/
theorem offset_le (valid : s.nextAgent < s.agents.length) {index : Nat} {owner : Agent}
    (found : s.agents[index]? = some owner) {c : Commitment} (queued : c ∈ owner.commitments)
    (awake : c.intention.isWaiting now = false) : turn.offset ≤ s.lag index := by
  obtain ⟨less, -⟩ := List.getElem?_eq_some_iff.mp found
  by_contra early
  have asleep := turn.passed _ (Nat.lt_of_not_le early) owner (by rw [add_lag valid less, found])
  rw [asleep c queued] at awake
  simp at awake

/-- The agents that come after the one that has its turn stay in order. -/
theorem lag_after (valid : s.nextAgent < s.agents.length) (reply : Reply Query) {i j : Nat}
    (inside : i < s.agents.length) (inside' : j < s.agents.length)
    (later : turn.offset < s.lag j) (order : s.lag j < s.lag i) :
    (turn.after reply).lag j < (turn.after reply).lag i := by
  have index := turn.index_lt
  have length := turn.after_length reply
  have next := turn.after_nextAgent reply
  have here := lag_cases valid turn.index
  rw [turn.lag_index valid] at here
  have first := lag_cases valid i
  have second := lag_cases valid j
  have first' := lag_cases (s := turn.after reply) (by omega) i
  have second' := lag_cases (s := turn.after reply) (by omega) j
  omega

/-- The agent that has had its turn comes last. -/
theorem lag_last (reply : Reply Query) {j : Nat} (inside : j < s.agents.length)
    (other : j ≠ turn.index) : (turn.after reply).lag j < (turn.after reply).lag turn.index := by
  have index := turn.index_lt
  have length := turn.after_length reply
  have next := turn.after_nextAgent reply
  have first := lag_cases (s := turn.after reply) (by omega) turn.index
  have second := lag_cases (s := turn.after reply) (by omega) j
  omega

end Turn

/-- The first agent is asked before the second. -/
def Precedes (s : Scheduler) (b a : AgentId) : Prop :=
  ∃ i j, (s.agents.map Agent.id)[i]? = some a ∧ (s.agents.map Agent.id)[j]? = some b ∧
    s.lag j < s.lag i

theorem Precedes.of_same {s s' : Scheduler} {a b : AgentId} (precedes : s.Precedes b a)
    (ids : s'.agents.map Agent.id = s.agents.map Agent.id) (next : s'.nextAgent = s.nextAgent) :
    s'.Precedes b a := by
  obtain ⟨i, j, first, second, order⟩ := precedes
  have length : s'.agents.length = s.agents.length := by simpa using congrArg List.length ids
  refine ⟨i, j, ids ▸ first, ids ▸ second, ?_⟩
  simpa [lag, next, length] using order

theorem ids_set {agents : List Agent} {index : Nat} {a a' : Agent}
    (found : agents[index]? = some a) (same : a'.id = a.id) :
    (agents.set index a').map Agent.id = agents.map Agent.id := by
  obtain ⟨less, rfl⟩ := List.getElem?_eq_some_iff.mp found
  rw [List.map_set, same, ← List.map_set, List.set_getElem_self]

theorem Moves.ids {s s' : Scheduler} {move : Move} (moves : s.Moves move s') :
    s'.agents.map Agent.id = s.agents.map Agent.id := by
  cases moves with
  | step stepped =>
    obtain ⟨-, rfl⟩ | ⟨-, rfl, -⟩ | ⟨turn, reply, -, -, rfl⟩ := stepAt_cases stepped
    · rfl
    · rfl
    · exact ids_set turn.found rfl
  | adopt adopted =>
    obtain ⟨a, found, rfl⟩ := adopt?_edits adopted
    exact ids_set found rfl
  | abandon abandoned =>
    obtain ⟨a, a', found, gave, rfl⟩ := abandon?_edits abandoned
    obtain rfl := Agent.eq_of_abandon? gave
    exact ids_set found rfl
  | outside => rfl

/-- An agent that is asked later has no turn while one before it is ready. -/
theorem Turn.offset_le_of_ready {s : Scheduler} {now : Time} (turn : s.Turn now)
    {workshop : List Agent} (sound : Site.Sound ⟨s, workshop⟩) {b : AgentId} {j : Nat}
    (named : (s.agents.map Agent.id)[j]? = some b) (ready : s.Ready b now) :
    turn.offset ≤ s.lag j := by
  have distinct := sound.numbered.of_append.agentsDistinct
  obtain ⟨c, ⟨owner, member, same, queued⟩, awake⟩ := ready
  obtain ⟨index, found⟩ := List.getElem?_of_mem member
  have again : (s.agents.map Agent.id)[index]? = some b := by
    rw [List.getElem?_map, found, ← same]
    rfl
  obtain ⟨inside, -⟩ := List.getElem?_eq_some_iff.mp named
  obtain rfl := (List.getElem?_inj inside distinct).mp (named.trans again.symm)
  exact turn.offset_le (sound.valid turn.index_lt) found queued awake

theorem Precedes.moves {s s' : Scheduler} {a b : AgentId} {move : Move} {workshop : List Agent}
    (precedes : s.Precedes b a) (sound : Site.Sound ⟨s, workshop⟩) (moves : s.Moves move s')
    (ready : ∀ now outcome, move = .step now outcome → s.Ready b now)
    (other : ∀ intention, ¬ move.Dispatches b intention) : s'.Precedes b a := by
  cases moves with
  | @step _ now outcome _ stepped =>
    obtain ⟨-, rfl⟩ | ⟨-, rfl, -⟩ | ⟨turn, reply, resumes, rfl, rfl⟩ := stepAt_cases stepped
    · exact precedes
    · exact precedes
    · obtain ⟨i, j, first, second, order⟩ := precedes
      have ids := (Moves.step stepped).ids
      have valid := sound.valid turn.index_lt
      have inside := (List.getElem?_eq_some_iff.mp first).1
      have inside' := (List.getElem?_eq_some_iff.mp second).1
      rw [List.length_map] at inside inside'
      have least := turn.offset_le_of_ready sound second (ready _ _ rfl)
      have different : turn.offset ≠ s.lag j := by
        intro same
        have index : turn.index = j := by
          rw [turn.reached, same, add_lag valid inside']
        rw [← index, List.getElem?_map, turn.found] at second
        have named : turn.owner.id = b := Option.some.inj second
        exact other _ ((turn.subject? reply).trans (by rw [named]))
      refine ⟨i, j, ids ▸ first, ids ▸ second, ?_⟩
      exact turn.lag_after valid reply inside inside' (by omega) order
  | adopt adopted =>
    obtain ⟨a, found, rfl⟩ := adopt?_edits adopted
    exact precedes.of_same (ids_set found rfl) rfl
  | abandon abandoned =>
    have ids := (Moves.abandon abandoned).ids
    obtain ⟨a, a', found, gave, rfl⟩ := abandon?_edits abandoned
    exact precedes.of_same ids rfl
  | outside => exact precedes.of_same rfl rfl

theorem Ready.mem_ids {s : Scheduler} {b : AgentId} {now : Time} (ready : s.Ready b now) :
    b ∈ s.agents.map Agent.id := by
  obtain ⟨c, ⟨owner, member, rfl, -⟩, -⟩ := ready
  exact List.mem_map_of_mem member

/-- After its turn an agent is preceded by all others. -/
theorem Turn.precedes_after {s : Scheduler} {now : Time} (turn : s.Turn now) (reply : Reply Query)
    {b : AgentId} (other : b ≠ turn.owner.id) (known : b ∈ s.agents.map Agent.id) :
    (turn.after reply).Precedes b turn.owner.id := by
  have own : (s.agents.map Agent.id)[turn.index]? = some turn.owner.id := by
    rw [List.getElem?_map, turn.found]
    rfl
  obtain ⟨j, named⟩ := List.getElem?_of_mem known
  have inside := (List.getElem?_eq_some_iff.mp named).1
  rw [List.length_map] at inside
  have different : j ≠ turn.index := by
    rintro rfl
    exact other (Option.some.inj (named.symm.trans own))
  have ids : (turn.after reply).agents.map Agent.id = s.agents.map Agent.id :=
    ids_set turn.found rfl
  exact ⟨turn.index, j, ids ▸ own, ids ▸ named, turn.lag_last reply inside different⟩

/-- An agent has no turn while one that precedes it is ready. -/
theorem Turn.not_precedes {s : Scheduler} {now : Time} (turn : s.Turn now)
    {workshop : List Agent} (sound : Site.Sound ⟨s, workshop⟩) {b : AgentId}
    (ready : s.Ready b now) : ¬ s.Precedes b turn.owner.id := by
  rintro ⟨i, j, first, second, order⟩
  have own : (s.agents.map Agent.id)[turn.index]? = some turn.owner.id := by
    rw [List.getElem?_map, turn.found]
    rfl
  have inside := (List.getElem?_eq_some_iff.mp own).1
  have distinct := sound.numbered.of_append.agentsDistinct
  obtain rfl := (List.getElem?_inj inside distinct).mp (own.trans first.symm)
  have least := turn.offset_le_of_ready sound second ready
  rw [turn.lag_index (sound.valid turn.index_lt)] at order
  omega

namespace Run

variable {s s' : Scheduler} {moments : List Moment} {workshop : List Agent}

theorem sound (run : s.Run moments s') (start : Site.Sound ⟨s, workshop⟩) :
    Site.Sound ⟨s', workshop⟩ := by
  induction run with
  | stay => exact start
  | go moves _ ih => exact ih (start.moves moves)

theorem ids (run : s.Run moments s') : s'.agents.map Agent.id = s.agents.map Agent.id := by
  induction run with
  | stay => rfl
  | go moves _ ih => exact ih.trans moves.ids

theorem ahead (run : s.Run moments s') {agent : AgentId} {k j : IntentionId}
    (start : s.Ahead agent k j)
    (untouched : ∀ m ∈ moments, ¬ m.move.Dispatches agent k ∧ m.move ≠ .abandon k) :
    s'.Ahead agent k j := by
  induction run with
  | stay => exact start
  | go moves _ ih =>
    obtain ⟨other, kept⟩ := untouched _ (List.mem_cons_self)
    exact ih (start.moves moves other kept) fun m member => untouched m (List.mem_cons_of_mem _ member)

theorem precedes (run : s.Run moments s') {a b : AgentId} (sound : Site.Sound ⟨s, workshop⟩)
    (start : s.Precedes b a)
    (ready : ∀ m ∈ moments, ∀ now outcome, m.move = .step now outcome → m.before.Ready b now)
    (other : ∀ m ∈ moments, ∀ intention, ¬ m.move.Dispatches b intention) :
    s'.Precedes b a := by
  induction run with
  | stay => exact start
  | go moves _ ih =>
    have next := start.moves sound moves (ready _ List.mem_cons_self) (other _ List.mem_cons_self)
    exact ih (sound.moves moves) next (fun m member => ready m (List.mem_cons_of_mem _ member))
      fun m member => other m (List.mem_cons_of_mem _ member)

end Run

end Scheduler

theorem Intention.isWaiting_iff {i : Intention} {now : Time} :
    i.isWaiting now = true ↔ ∃ deadline, i.deadline = some deadline ∧ now < deadline := by
  unfold isWaiting
  cases i.deadline <;> simp

open Scheduler

/-- A step that is about an intention is the turn of its commitment. -/
theorem Scheduler.dispatched_turn {limit : Nat} {s s' : Scheduler} {now : Time}
    {outcome : StepOutcome} (stepped : s.stepAt limit now = some (outcome, s')) {agent : AgentId}
    {intention : IntentionId} (subject : outcome.subject? = some (agent, intention)) :
    ∃ (turn : s.Turn now) (reply : Reply Query),
      turn.owner.id = agent ∧ turn.chosen.id = intention ∧ s' = turn.after reply := by
  obtain ⟨rfl, -⟩ | ⟨rfl, -, -⟩ | ⟨turn, reply, resumes, rfl, rfl⟩ := stepAt_cases stepped
  · simp [StepOutcome.subject?] at subject
  · simp [idleOutcome_subject?] at subject
  · rw [turn.subject?, turn.resumed_id resumes] at subject
    obtain ⟨rfl, rfl⟩ := Prod.mk.inj (Option.some.inj subject)
    exact ⟨turn, reply, rfl, rfl, rfl⟩

/-- Take two steps of a system that can come about, and the moves between them. If both dispatch the
same intention, then every other one that was queued with it at the first, and that is neither
dispatched nor given up in between, has a deadline after the time of the second. If both dispatch the
same agent, then every other agent that is ready at each step after the first, the second included,
is dispatched in between. -/
theorem Site.no_overtaking {x : Site} (reached : x.Reached) {limit : Nat} {earlier : Time}
    {first : StepOutcome} {s : Scheduler}
    (stepped : x.scheduler.stepAt limit earlier = some (first, s)) {moments : List Moment}
    {s' : Scheduler} (run : s.Run moments s') {limit' : Nat} {now : Time} {last : StepOutcome}
    {s'' : Scheduler} (again : s'.stepAt limit' now = some (last, s'')) :
    (∀ agent j k, first.subject? = some (agent, j) → last.subject? = some (agent, j) → k ≠ j →
      (∃ c, x.scheduler.Holds agent c ∧ c.id = k) →
      (∀ m ∈ moments, ¬ m.move.Dispatches agent k ∧ m.move ≠ .abandon k) →
      ∃ c deadline, s'.Holds agent c ∧ c.id = k ∧ c.intention.deadline = some deadline ∧
        now < deadline) ∧
    (∀ a b i j, first.subject? = some (a, i) → last.subject? = some (a, j) → b ≠ a →
      (∀ m ∈ moments, ∀ t outcome, m.move = .step t outcome → m.before.Ready b t) →
      s'.Ready b now →
      ∃ m ∈ moments, ∃ k, m.move.Dispatches b k) := by
  have numbered := reached.sound.numbered.of_append
  have between := reached.sound.moves (.step stepped)
  have after := run.sound between
  constructor
  · rintro agent j k subject subject' other ⟨c, ⟨owner, member, named, queued⟩, rfl⟩ untouched
    obtain ⟨turn, reply, rfl, rfl, rfl⟩ := dispatched_turn stepped subject
    obtain ⟨turn', -, same, same', -⟩ := dispatched_turn again subject'
    obtain rfl : owner = turn.owner :=
      List.inj_on_of_nodup_map numbered.agentsDistinct member turn.owner_mem named
    have ahead := run.ahead (turn.ahead_after numbered queued other) untouched
    rw [← same, ← same'] at ahead
    obtain ⟨d, held, key, waiting⟩ := turn'.waits after.numbered.of_append ahead (same' ▸ other)
    obtain ⟨deadline, due, later⟩ := Intention.isWaiting_iff.mp waiting
    exact ⟨d, deadline, same ▸ held, key, due, later⟩
  · intro a b i j subject subject' other ready readyNow
    obtain ⟨turn, reply, rfl, rfl, rfl⟩ := dispatched_turn stepped subject
    obtain ⟨turn', -, same, -, -⟩ := dispatched_turn again subject'
    by_contra unheard
    have known : b ∈ x.scheduler.agents.map Agent.id := by
      rw [← (Moves.step stepped).ids, ← run.ids]
      exact readyNow.mem_ids
    have stop := run.precedes between (turn.precedes_after reply other known) ready
      fun m member k dispatches => unheard ⟨m, member, k, dispatches⟩
    exact turn'.not_precedes after readyNow (same ▸ stop)

/-- A registry with an action that sets a deadline. -/
def Registry.pausing : Registry :=
  Registry.addGenerator {} ".pause" (some 0) fun _ => .once fun _ => .ok (.delay 5 (.int 0))

/-- One agent pauses in its first intention and goes on with its second; another one goes on. -/
theorem Site.no_overtaking_pair :
    ∃ (x : Site) (s : Scheduler) (moments : List Moment) (s' s'' : Scheduler), x.Reached ∧
      x.scheduler.stepAt 4 0 = some (.solution ⟨1⟩ ⟨2⟩, s) ∧ s.Run moments s' ∧
      s'.stepAt 4 0 = some (.solution ⟨1⟩ ⟨2⟩, s'') ∧
      (∃ c deadline, s'.Holds ⟨1⟩ c ∧ c.id = ⟨1⟩ ∧ c.intention.deadline = some deadline ∧
        0 < deadline) ∧
      ∃ m ∈ moments, ∃ k, m.move.Dispatches ⟨2⟩ k := by
  have reached := (((((((((Reached.start .pausing {} {}).change (.build "a")).change
    (.shape (show _[0]? = some _ from rfl)
      (.adopt (.lit "&" [.atom ".pause", .atom "true"] []) .all))).change
    (.shape (show _[0]? = some _ from rfl)
      (.adopt (.lit "|" [.atom "true", .atom "true"] []) .all))).change
    (.install (show _[0]? = some _ from rfl))).change (.build "b")).change
    (.shape (show _[0]? = some _ from rfl)
      (.adopt (.lit "|" [.atom "true", .atom "true"] []) .all))).change
    (.install (show _[0]? = some _ from rfl))).change
    (.move (.step (show Scheduler.stepAt 5 _ 0 = some (.suspended ⟨1⟩ ⟨1⟩, _) from rfl)))).change
    (.move (.step (show Scheduler.stepAt 5 _ 0 = some (.solution ⟨2⟩ ⟨3⟩, _) from rfl)))
  have both := @no_overtaking _ reached 4 0 (.solution ⟨1⟩ ⟨2⟩) _ rfl _ _
    (.go (@Moves.step _ 4 0 (.solution ⟨2⟩ ⟨3⟩) _ rfl) (.stay _)) 4 0 (.solution ⟨1⟩ ⟨2⟩) _ rfl
  refine ⟨_, _, _, _, _, reached, rfl,
    .go (@Moves.step _ 4 0 (.solution ⟨2⟩ ⟨3⟩) _ rfl) (.stay _), rfl, ?_, ?_⟩
  · refine both.1 ⟨1⟩ ⟨2⟩ ⟨1⟩ rfl rfl (by decide) ⟨_, ⟨_, .head _, rfl, .tail _ (.head _)⟩, rfl⟩ ?_
    intro m member
    obtain rfl := List.mem_singleton.mp member
    exact ⟨by simp [Move.Dispatches, StepOutcome.subject?], nofun⟩
  · refine both.2 ⟨1⟩ ⟨2⟩ _ _ rfl rfl (by decide) ?_ ⟨_, ⟨_, .tail _ (.head _), rfl, .head _⟩, rfl⟩
    intro m member t outcome same
    obtain rfl := List.mem_singleton.mp member
    cases same
    exact ⟨_, ⟨_, .tail _ (.head _), rfl, .head _⟩, rfl⟩
end Deliberation
