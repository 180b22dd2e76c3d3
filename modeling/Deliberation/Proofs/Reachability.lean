import Deliberation.Proofs.SchedulerMoves
import Mathlib.Data.List.Perm.Basic

/-! The systems that can come about: agents are built, shaped and added, take up goals and give them
up, and the scheduler steps. In all of them no two agents and no two intentions share a number, and
the agent whose turn it is exists. -/
namespace Deliberation

/-- What is done with an agent: it takes up a goal, gives one up, or changes its mind. -/
inductive Agent.Edits (a : Agent) (p : Platform) : Agent → Platform → Prop where
  | adopt (goal : Term) (policy : Policy) :
      Edits a p (a.adopt goal policy p).2.1 (a.adopt goal policy p).2.2
  | abandon {id : IntentionId} {a' : Agent} (abandoned : a.abandon? id = some a') : Edits a p a' p
  | believe (beliefs : BeliefBase) : Edits a p (a.withBeliefs beliefs) p

/-- The agent with one intention left out of its queue. -/
def Agent.without (a : Agent) (id : IntentionId) : Agent :=
  { a with commitments := a.commitments.filter fun c => c.id ≠ id }

theorem Agent.eq_of_abandon? {a a' : Agent} {id : IntentionId}
    (abandoned : a.abandon? id = some a') : a' = a.without id := by
  unfold abandon? at abandoned
  split at abandoned
  · exact (Option.some.inj abandoned).symm
  · simp at abandoned

/-- A system: its scheduler, and agents that are built and not yet added. -/
structure Site where
  scheduler : Scheduler
  workshop : List Agent := []

namespace Site

inductive Changes (x : Site) : Site → Prop where
  | build (name : String) :
      Changes x
        { scheduler :=
            { x.scheduler with platform := (Agent.create name x.scheduler.platform).2 }
          workshop := x.workshop ++ [(Agent.create name x.scheduler.platform).1] }
  | shape {index : Nat} {a a' : Agent} {platform : Platform} (found : x.workshop[index]? = some a)
      (edits : a.Edits x.scheduler.platform a' platform) :
      Changes x ⟨{ x.scheduler with platform }, x.workshop.set index a'⟩
  | install {index : Nat} {a : Agent} (found : x.workshop[index]? = some a) :
      Changes x ⟨x.scheduler.addAgent a, x.workshop.eraseIdx index⟩
  | believe {index : Nat} {change : BeliefBase → Option BeliefBase} {s' : Scheduler}
      (believed : x.scheduler.believe? index change = some s') : Changes x ⟨s', x.workshop⟩
  | move {move : Scheduler.Move} {s' : Scheduler} (moves : x.scheduler.Moves move s') :
      Changes x ⟨s', x.workshop⟩

/-- The systems that come about from a scheduler without agents. -/
inductive Reached : Site → Prop where
  | start (actions : Registry) (platform : Platform) (config : SchedulerConfig) :
      Reached ⟨{ actions, platform, config }, []⟩
  | change {x x' : Site} (reached : Reached x) (changes : x.Changes x') : Reached x'

end Site

/-- Agents and intentions are told apart by their numbers, all of which are handed out. -/
structure Numbered (agents : List Agent) (supply : Supply) : Prop where
  agentsDistinct : (agents.map Agent.id).Nodup
  agentsIssued : ∀ a ∈ agents, a.id.id < supply.nextAgent
  distinct : (agents.flatMap Agent.ids).Nodup
  issued : ∀ a ∈ agents, ∀ id ∈ a.ids, id.id < supply.nextIntention

namespace Numbered

variable {agents before after : List Agent} {supply supply' : Supply} {a a' : Agent}

theorem grow (numbered : Numbered agents supply) (grown : supply.Before supply') :
    Numbered agents supply' :=
  ⟨numbered.agentsDistinct,
    fun a member => Nat.lt_of_lt_of_le (numbered.agentsIssued a member) grown.agents,
    numbered.distinct, fun a member id named =>
      Nat.lt_of_lt_of_le (numbered.issued a member id named) grown.intentions⟩

theorem perm {agents' : List Agent} (numbered : Numbered agents supply)
    (perm : agents.Perm agents') : Numbered agents' supply :=
  ⟨(perm.map _).nodup_iff.mp numbered.agentsDistinct,
    fun a member => numbered.agentsIssued a (perm.mem_iff.mpr member),
    (perm.flatMap_right _).nodup_iff.mp numbered.distinct,
    fun a member => numbered.issued a (perm.mem_iff.mpr member)⟩

theorem of_append {others : List Agent} (numbered : Numbered (others ++ agents) supply) :
    Numbered agents supply := by
  have fewer := List.sublist_append_right others agents
  refine ⟨numbered.agentsDistinct.sublist (fewer.map _), ?_, ?_, ?_⟩
  · exact fun a member => numbered.agentsIssued a (fewer.mem member)
  · have distinct := numbered.distinct
    rw [List.flatMap_append] at distinct
    exact (List.nodup_append.mp distinct).2.1
  · exact fun a member => numbered.issued a (fewer.mem member)

theorem cons (numbered : Numbered agents supply) (grown : supply.Before supply')
    (fresh : supply.nextAgent ≤ a.id.id) (issued : a.id.id < supply'.nextAgent)
    (idle : a.commitments = []) : Numbered (a :: agents) supply' := by
  have later := numbered.grow grown
  have ids : a.ids = [] := by simp [Agent.ids, idle]
  refine ⟨?_, ?_, ?_, ?_⟩
  · refine List.nodup_cons.mpr ⟨?_, numbered.agentsDistinct⟩
    intro member
    obtain ⟨b, here, same⟩ := List.mem_map.mp member
    have := numbered.agentsIssued b here
    rw [same] at this
    omega
  · intro b member
    rcases List.mem_cons.mp member with rfl | old
    · exact issued
    · exact later.agentsIssued b old
  · simpa [ids] using numbered.distinct
  · intro b member id named
    rcases List.mem_cons.mp member with rfl | old
    · simp [ids] at named
    · exact later.issued b old id named

/-- An agent may change its queue as long as the intentions that it adds are new. -/
theorem replace (numbered : Numbered (a :: agents) supply) (grown : supply.Before supply')
    (same : a'.id = a.id) (distinct : a'.ids.Nodup)
    (known : ∀ id ∈ a'.ids, id ∈ a.ids ∨
      supply.nextIntention ≤ id.id ∧ id.id < supply'.nextIntention) :
    Numbered (a' :: agents) supply' := by
  have later := numbered.grow grown
  have intentions := numbered.distinct
  simp only [List.flatMap_cons, List.nodup_append] at intentions
  refine ⟨?_, ?_, ?_, ?_⟩
  · simpa [same] using numbered.agentsDistinct
  · intro b member
    rcases List.mem_cons.mp member with rfl | old
    · rw [same]
      exact later.agentsIssued a (by simp)
    · exact later.agentsIssued b (by simp [old])
  · simp only [List.flatMap_cons, List.nodup_append]
    refine ⟨distinct, intentions.2.1, ?_⟩
    intro id named other present
    rcases known id named with old | ⟨fresh, -⟩
    · exact intentions.2.2 id old other present
    · rintro rfl
      obtain ⟨b, member, here⟩ := List.mem_flatMap.mp present
      have := numbered.issued b (by simp [member]) id here
      omega
  · intro b member id named
    rcases List.mem_cons.mp member with rfl | old
    · rcases known id named with kept | ⟨-, issued⟩
      · exact later.issued a (by simp) id kept
      · exact issued
    · exact later.issued b (by simp [old]) id named

/-- What holds of one agent beside any others holds of the agent at an index. -/
theorem set {others : List Agent} {index : Nat} (numbered : Numbered (others ++ agents) supply)
    (found : agents[index]? = some a)
    (replacing : ∀ rest, Numbered (a :: rest) supply → Numbered (a' :: rest) supply') :
    Numbered (others ++ agents.set index a') supply' := by
  obtain ⟨less, rfl⟩ := List.getElem?_eq_some_iff.mp found
  have taken : (others ++ agents).Perm (agents[index] :: (others ++ agents.eraseIdx index)) :=
    ((List.getElem_cons_eraseIdx_perm less).symm.append_left others).trans List.perm_middle
  have put : (others ++ agents.set index a').Perm (a' :: (others ++ agents.eraseIdx index)) :=
    ((List.set_perm_cons_eraseIdx less a').append_left others).trans List.perm_middle
  exact (replacing _ (numbered.perm taken)).perm put.symm

theorem ids_nodup (numbered : Numbered (a :: agents) supply) : a.ids.Nodup := by
  have distinct := numbered.distinct
  rw [List.flatMap_cons] at distinct
  exact (List.nodup_append.mp distinct).1

theorem edit {p p' : Platform} (numbered : Numbered (a :: agents) p.supply)
    (edits : a.Edits p a' p') : Numbered (a' :: agents) p'.supply := by
  have old := numbered.ids_nodup
  cases edits with
  | adopt goal policy =>
    have ids : (a.adopt goal policy p).2.1.ids = a.ids ++ [⟨p.supply.nextIntention⟩] := by
      simp [Agent.ids, Agent.adopt, Commitment.id, Supply.freshIntention]
    refine numbered.replace ⟨Nat.le_refl _, Nat.le_refl _, Nat.le_succ _, Nat.le_refl _⟩ rfl ?_ ?_
    · rw [ids, List.nodup_append]
      refine ⟨old, by simp, ?_⟩
      intro id named other new
      obtain rfl : other = ⟨p.supply.nextIntention⟩ := by simpa using new
      have := numbered.issued a (by simp) id named
      rintro rfl
      exact Nat.lt_irrefl _ this
    · intro id named
      rw [ids, List.mem_append] at named
      refine named.imp_right fun new => ?_
      obtain rfl : id = ⟨p.supply.nextIntention⟩ := by simpa using new
      exact ⟨Nat.le_refl _, Nat.lt_succ_self _⟩
  | abandon abandoned =>
    have fewer : a'.ids.Sublist a.ids := by
      rw [Agent.eq_of_abandon? abandoned]
      exact List.filter_sublist.map Commitment.id
    obtain rfl := Agent.eq_of_abandon? abandoned
    exact numbered.replace (.refl _) rfl (old.sublist fewer) fun id named => .inl (fewer.mem named)
  | believe beliefs => exact numbered.replace (.refl _) rfl old fun id named => .inl named

/-- A step changes the queue of one agent: the commitment that is resumed goes to the back or
leaves. -/
theorem turn {s : Scheduler} {now : Time} (turn : s.Turn now) {reply : Reply Query}
    (resumes : turn.chosen.query.Resumes turn.context turn.start reply)
    (numbered : Numbered (turn.owner :: agents) s.platform.supply) :
    Numbered (turn.ownerAfter reply :: agents) (turn.after reply).platform.supply := by
  have old := numbered.ids_nodup
  have kept : (turn.ownerAfter reply).ids.Nodup ∧
      ∀ id ∈ (turn.ownerAfter reply).ids, id ∈ turn.owner.ids := by
    have split : (turn.ownerAfter reply).ids = turn.others.map Commitment.id ++
        if turn.continues reply then [turn.chosen.id] else [] := by
      rw [Agent.ids, turn.ownerAfter_commitments, List.map_append, ← turn.resumed_id resumes]
      split <;> rfl
    have perm : turn.owner.ids.Perm (turn.others.map Commitment.id ++ [turn.chosen.id]) := by
      rw [turn.ids_eq, Scheduler.Turn.others, List.map_append]
      exact List.perm_middle.trans (List.perm_append_singleton _ _).symm
    have fewer : (turn.ownerAfter reply).ids.Sublist
        (turn.others.map Commitment.id ++ [turn.chosen.id]) := by
      rw [split]
      refine List.Sublist.append_left ?_ _
      split <;> simp
    exact ⟨(perm.nodup_iff.mp old).sublist fewer,
      fun id named => perm.mem_iff.mpr (fewer.mem named)⟩
  exact numbered.replace (turn.supply_before resumes) rfl kept.1 fun id named =>
    .inl (kept.2 id named)

end Numbered

namespace Scheduler

namespace Turn

variable {s : Scheduler} {now : Time} (turn : s.Turn now) {supply : Supply}

/-- The number of the chosen commitment occurs nowhere else. -/
theorem chosen_only (numbered : Numbered s.agents supply) :
    (∀ c ∈ turn.others, c.id ≠ turn.chosen.id) ∧
      ∀ a ∈ s.agents.eraseIdx turn.index, turn.chosen.id ∉ a.ids := by
  have taken : s.agents.Perm (turn.owner :: s.agents.eraseIdx turn.index) := by
    obtain ⟨less, same⟩ := List.getElem?_eq_some_iff.mp turn.found
    exact same ▸ (List.getElem_cons_eraseIdx_perm less).symm
  have distinct := (numbered.perm taken).distinct
  rw [List.flatMap_cons, List.nodup_append, turn.ids_eq] at distinct
  obtain ⟨own, -, apart⟩ := distinct
  constructor
  · have single := List.nodup_cons.mp (List.perm_middle.nodup_iff.mp own)
    rw [← List.map_append] at single
    intro c member same
    exact single.1 (same ▸ List.mem_map_of_mem member)
  · intro a member named
    exact apart _ (by simp) _ (List.mem_flatMap.mpr ⟨a, member, named⟩) rfl

theorem mem_after {reply : Reply Query} {a : Agent} (member : a ∈ (turn.after reply).agents) :
    a = turn.ownerAfter reply ∨ a ∈ s.agents.eraseIdx turn.index := by
  rw [turn.after_agents] at member
  exact List.mem_cons.mp ((List.set_perm_cons_eraseIdx turn.index_lt _).mem_iff.mp member)

theorem ownerAfter_mem (reply : Reply Query) :
    turn.ownerAfter reply ∈ (turn.after reply).agents := by
  rw [turn.after_agents]
  exact List.mem_set turn.index_lt _

/-- Without the chosen commitment the queue of its agent is made of the others. -/
theorem owner_without (numbered : Numbered s.agents supply) :
    (turn.owner.without turn.chosen.id).commitments = turn.others := by
  have kept := (turn.chosen_only numbered).1
  simp only [others, List.mem_append] at kept
  simp only [Agent.without, turn.queue, others, List.filter_append, List.filter_cons]
  have front : turn.front.filter (fun c => c.id ≠ turn.chosen.id) = turn.front :=
    List.filter_eq_self.mpr fun c member => by simpa using kept c (.inl member)
  have back : turn.back.filter (fun c => c.id ≠ turn.chosen.id) = turn.back :=
    List.filter_eq_self.mpr fun c member => by simpa using kept c (.inr member)
  rw [front, back, if_neg (by simp)]

/-- A step changes nothing but the chosen commitment, and the others keep their order. -/
theorem after_without {reply : Reply Query}
    (resumes : turn.chosen.query.Resumes turn.context turn.start reply) :
    (turn.after reply).agents.map (·.without turn.chosen.id) =
      s.agents.map (·.without turn.chosen.id) := by
  have own : (turn.ownerAfter reply).without turn.chosen.id =
      turn.owner.without turn.chosen.id := by
    have same := turn.resumed_id resumes
    simp only [Agent.without, turn.ownerAfter_commitments, turn.queue, others, List.filter_append]
    have left : (if turn.continues reply then [turn.resumed reply] else []).filter
        (fun c => c.id ≠ turn.chosen.id) = [] := by
      split <;> simp [same]
    rw [left]
    simp [ownerAfter]
  rw [turn.after_agents, List.map_set, own]
  refine List.ext_getElem? fun i => ?_
  rw [List.getElem?_set]
  split
  · rename_i here
    subst i
    rw [List.getElem?_map, turn.found, if_pos (by simpa using turn.index_lt)]
    rfl
  · rfl

end Turn

/-- Goals that are taken up and given up are those of one agent, which is edited in its place. -/
theorem adopt?_edits {s s' : Scheduler} {index : Nat} {goal : Term} {policy : Policy}
    {id : IntentionId} (adopted : s.adopt? index goal policy = some (id, s')) :
    ∃ a, s.agents[index]? = some a ∧
      s' = { s.setAgent index (a.adopt goal policy s.platform).2.1 with
        platform := (a.adopt goal policy s.platform).2.2 } := by
  obtain ⟨a, found, same⟩ := Option.map_eq_some_iff.mp adopted
  obtain ⟨-, rfl⟩ := Prod.mk.inj same
  exact ⟨a, found, rfl⟩

theorem abandon?_edits {s s' : Scheduler} {index : Nat} {id : IntentionId}
    (abandoned : s.abandon? index id = some s') :
    ∃ a a', s.agents[index]? = some a ∧ a.abandon? id = some a' ∧ s' = s.setAgent index a' := by
  obtain ⟨a, found, given⟩ := Option.bind_eq_some_iff.mp abandoned
  obtain ⟨a', gave, rfl⟩ := Option.map_eq_some_iff.mp given
  exact ⟨a, a', found, gave, rfl⟩

end Scheduler

namespace Site

structure Sound (x : Site) : Prop where
  numbered : Numbered (x.workshop ++ x.scheduler.agents) x.scheduler.platform.supply
  turn : x.scheduler.nextAgent < x.scheduler.agents.length ∨
    x.scheduler.agents = [] ∧ x.scheduler.nextAgent = 0

/-- Where there is an agent, it is the turn of an agent. -/
theorem Sound.valid {x : Site} (sound : x.Sound) {index : Nat}
    (inside : index < x.scheduler.agents.length) :
    x.scheduler.nextAgent < x.scheduler.agents.length := by
  rcases sound.turn with valid | ⟨empty, -⟩
  · exact valid
  · simp [empty] at inside

theorem Sound.setAgent {x : Site} (sound : x.Sound) {index : Nat} {a a' : Agent}
    {platform : Platform} (found : x.scheduler.agents[index]? = some a)
    (replacing : ∀ rest, Numbered (a :: rest) x.scheduler.platform.supply →
      Numbered (a' :: rest) platform.supply) :
    Sound ⟨{ x.scheduler.setAgent index a' with platform }, x.workshop⟩ := by
  refine ⟨sound.numbered.set found replacing, .inl ?_⟩
  simpa [Scheduler.setAgent] using sound.valid (List.getElem?_eq_some_iff.mp found).1

theorem Sound.moves {x : Site} (sound : x.Sound) {move : Scheduler.Move} {s' : Scheduler}
    (moves : x.scheduler.Moves move s') : Sound ⟨s', x.workshop⟩ := by
  cases moves with
  | step stepped =>
    obtain ⟨-, rfl⟩ | ⟨-, rfl, -⟩ | ⟨turn, reply, resumes, -, rfl⟩ := Scheduler.stepAt_cases stepped
    · exact sound
    · exact sound
    · refine ⟨sound.numbered.set turn.found fun _ numbered => numbered.turn turn resumes, .inl ?_⟩
      rw [turn.after_agents, List.length_set]
      exact Nat.mod_lt _ (Nat.zero_lt_of_lt turn.index_lt)
  | adopt adopted =>
    obtain ⟨a, found, rfl⟩ := Scheduler.adopt?_edits adopted
    exact sound.setAgent found fun _ numbered => numbered.edit (.adopt _ _)
  | abandon abandoned =>
    obtain ⟨a, a', found, gave, rfl⟩ := Scheduler.abandon?_edits abandoned
    exact sound.setAgent found fun _ numbered => numbered.edit (.abandon gave)
  | outside grown => exact ⟨sound.numbered.grow grown, sound.turn⟩

theorem Sound.changes {x x' : Site} (sound : x.Sound) (changes : x.Changes x') : x'.Sound := by
  cases changes with
  | build name =>
    refine ⟨?_, sound.turn⟩
    have grown : x.scheduler.platform.supply.Before
        (Agent.create name x.scheduler.platform).2.supply :=
      ⟨Nat.le_refl _, Nat.le_succ _, Nat.le_refl _, Nat.le_refl _⟩
    have built := sound.numbered.cons (a := (Agent.create name x.scheduler.platform).1) grown
      (Nat.le_refl _) (Nat.lt_succ_self _) rfl
    refine built.perm ?_
    rw [List.append_assoc]
    exact List.perm_middle.symm
  | @shape index a a' platform found edits =>
    refine ⟨?_, sound.turn⟩
    have swapped := sound.numbered.perm List.perm_append_comm
    exact (swapped.set found fun _ numbered => numbered.edit edits).perm List.perm_append_comm
  | @install index a found =>
    obtain ⟨less, rfl⟩ := List.getElem?_eq_some_iff.mp found
    refine ⟨sound.numbered.perm ?_, ?_⟩
    · have taken := (List.getElem_cons_eraseIdx_perm less).symm.append_right x.scheduler.agents
      refine taken.trans (List.perm_middle.symm.trans ?_)
      exact ((List.perm_append_singleton _ _).symm).append_left _
    · simp only [Scheduler.addAgent, List.length_append, List.length_singleton]
      rcases sound.turn with valid | ⟨none, start⟩
      · exact .inl (by omega)
      · exact .inl (by simp [start])
  | @believe index change s' believed =>
    obtain ⟨a, found, changed⟩ := Option.bind_eq_some_iff.mp believed
    obtain ⟨beliefs, -, rfl⟩ := Option.map_eq_some_iff.mp changed
    exact sound.setAgent found fun _ numbered => numbered.edit (.believe beliefs)
  | move moves => exact sound.moves moves

theorem Reached.sound {x : Site} (reached : x.Reached) : x.Sound := by
  induction reached with
  | start => exact ⟨⟨by simp, by simp, by simp, by simp⟩, .inr ⟨rfl, rfl⟩⟩
  | change _ changes ih => exact ih.changes changes

end Site

end Deliberation
