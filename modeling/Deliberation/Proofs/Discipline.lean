import Deliberation.Proofs.AnchoredResumption
import Deliberation.Proofs.StandardActions

/-! The discipline of choicepoints holds whatever happens, also when a query is resumed again after
an error has left choicepoints and bindings of an unfinished attempt behind. -/
namespace Deliberation

open State

/-- A goal has been resumed any number of times from the state `start` on, whatever came of it. -/
inductive Query.Driven (ctx : Context) (start : State) : Query → State → Prop where
  | new (goal : Term) : Driven ctx start (.new goal) start
  | resumed {q : Query} {s s' : State} {reply : Reply Query} (earlier : Driven ctx start q s)
      (answered : q.Resumes ctx s reply) (meanwhile : Returns reply.state s') :
      Driven ctx start reply.next s'

/-- The loose sense: the base is still there below. -/
def Footing.growing (ctx : Context) : Footing ctx where
  reaches := Grows
  loose := True
  underWay _ _ := True
  returns := Returns.grows
  grows := id
  trans := Grows.trans
  covers _ := id
  offers := .inr trivial
  begins _ _ := trivial
  later _ _ := trivial
  resumed _ _ := trivial
  failed _ _ _ _ _ _ _ _ := trivial

namespace Query

variable {ctx : Context} {start s : State} {q : Query}

theorem Driven.anchored (driven : q.Driven ctx start s) :
    q.Anchored (.growing ctx) start s := by
  induction driven with
  | new goal => exact new_anchored (.growing ctx) goal start
  | @resumed q s s' reply earlier answered meanwhile ih =>
    have settled := answered.settles ih
    refine Anchored.later _ ?_ meanwhile.grows
    cases answer : reply.result with
    | ok event => exact settled.1 event answer
    | error e => exact (settled.2.2 e answer).2 trivial

/-- No resumption misses a choicepoint; the trail and the bindings of the start are still there; and
a choicepoint laid before the query gives back what it guards. Scopes come from unification, which
keeps them acyclic. -/
theorem keeps_discipline (blameless : ctx.Blameless) (driven : q.Driven ctx start s) :
    (∀ reply n, q.Resumes ctx s reply → reply.result ≠ .error (.raised (.choicepointNotFound n))) ∧
      start.trail <:+ s.trail ∧
      (start.scope.Acyclic → s.resets = start.resets →
        ∀ v value, start.scope.get? v = some value → s.scope.get? v = some value) ∧
      (∀ c before, c.id < start.nextMark → start.reroll c = .ok before →
        ∃ after, s.reroll c = .ok after ∧ after.trail = before.trail ∧
          after.scope = if s.resets = start.resets then before.scope else .empty) ∧
      ∀ laid : State, Stacks laid.mark.2 start →
        ∃ after, s.reroll laid.mark.1 = .ok after ∧ after.trail = laid.trail ∧
          after.scope = if s.resets = laid.resets then laid.scope else .empty := by
  have anchored := driven.anchored
  have grows := Anchored.grows q anchored
  refine ⟨?_, ?_, grows.keeps, fun c before => grows.toStacks.reroll_earlier, ?_⟩
  · intro reply n answered missing
    have raised := ((answered.settles anchored).2.2 _ missing).1
    exact blameless.ordinary raised
  · obtain ⟨above, trail, -⟩ := grows.records
    exact ⟨above, trail.symm⟩
  · intro laid stacked
    exact (stacked.trans grows.toStacks).reroll_laid

theorem keeps_discipline_after_error :
    ∃ reply, (Query.new (.lit "&" [.sample 1, .int 3] [])).Resumes .sample .sample reply ∧
      reply.result = .error (.raised (.invalidGoal (.int 3))) ∧ State.sample.trail <:+ reply.state.trail ∧
      ∃ after, reply.state.reroll ⟨1⟩ = .ok after ∧ after.trail = [] ∧ after.scope = .empty := by
  refine ⟨_, ⟨4, rfl⟩, rfl, ?_⟩
  have driven : Driven .sample .sample _ _ :=
    .resumed (.new (.lit "&" [.sample 1, .int 3] [])) ⟨4, rfl⟩ (.refl _)
  obtain ⟨-, trail, -, earlier, -⟩ := keeps_discipline (fun _ _ _ => .inl) driven
  exact ⟨trail, earlier ⟨1⟩ _ (by decide) rfl⟩

end Query

end Deliberation
