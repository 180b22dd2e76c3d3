import Deliberation.Proofs.Enumeration
import Deliberation.Proofs.ResumptionRules

/-! Following an enumeration. `Follows` relates the resumptions of a query to an enumeration with a
visitor: the query gives the solutions that are visited, in this order, and finds its way on from
wherever the visitor ends. Connectives, negation and collection follow the enumerations that define
them when the queries inside them do. -/
namespace Deliberation

open State Enumeration

/-- Resuming a query from some state on comes to the outcome of an enumeration. The visitor works
in a state alike to that of the solution, and whoever resumes the query again has returned to it. An
exhausted query has returned to the base. -/
inductive Follows (ctx : Context) {α : Type} (visit : Visitor α) (base : State) :
    Query → State → α → Outcome α → Prop where
  | exhausted {q next : Query} {s s' t : State} {a : α}
      (answered : q.Resumes ctx s ⟨.ok .exhausted, next, s'⟩) (returns : Returns base s')
      (rest : SameRest s' t) : Follows ctx visit base q s a ⟨.exhausted, a, t⟩
  | failed {q next : Query} {s s' t : State} {a : α} {e : Halt}
      (answered : q.Resumes ctx s ⟨.error e, next, s'⟩) (alike : Alike s' t) :
      Follows ctx visit base q s a ⟨.failed e, a, t⟩
  | suspended {q next : Query} {s s' : State} {a : α} {o : Outcome α}
      (answered : q.Resumes ctx s ⟨.ok .suspended, next, s'⟩)
      (onward : ∀ s'', Returns s' s'' → SameRest s'' s' → Follows ctx visit base next s'' a o) :
      Follows ctx visit base q s a o
  | cut {q next : Query} {s s' t : State} {a : α} {o : Outcome α}
      (answered : q.Resumes ctx s ⟨.ok .solution, next, s'⟩) (grows : Grows base s')
      (alike : Alike s' t) (visited : visit a t = some o) (ended : o.ending ≠ .exhausted) :
      Follows ctx visit base q s a o
  | found {q next : Query} {s s' t t' : State} {a a' : α} {o : Outcome α}
      (answered : q.Resumes ctx s ⟨.ok .solution, next, s'⟩) (grows : Grows base s')
      (alike : Alike s' t) (visited : visit a t = some ⟨.exhausted, a', t'⟩)
      (onward : ∀ s'', Returns s' s'' → SameRest s'' t' → Follows ctx visit base next s'' a' o) :
      Follows ctx visit base q s a o

namespace Follows

variable {ctx : Context} {α : Type} {visit : Visitor α} {base s s' t : State} {q next : Query}
  {a : α} {o first : Outcome α} {g : Term} {c : Choicepoint}

/-- The outcome of a first part is that of the whole, unless the first part is exhausted. -/
def Ends (first o : Outcome α) : Prop := first.ending ≠ .exhausted → first = o

theorem of_mimics {other : Query} (mimics : q.Mimics ctx s other s')
    (follows : Follows ctx visit base other s' a o) : Follows ctx visit base q s a o := by
  cases follows with
  | exhausted answered returns rest =>
    obtain ⟨_, answered, -⟩ := mimics _ answered
    exact .exhausted answered returns rest
  | failed answered alike =>
    obtain ⟨_, answered, -⟩ := mimics _ answered
    exact .failed answered alike
  | suspended answered onward =>
    obtain ⟨_, answered, same⟩ := mimics _ answered
    obtain rfl := same _ rfl
    exact .suspended answered onward
  | cut answered grows alike visited ended =>
    obtain ⟨_, answered, -⟩ := mimics _ answered
    exact .cut answered grows alike visited ended
  | found answered grows alike visited onward =>
    obtain ⟨_, answered, same⟩ := mimics _ answered
    obtain rfl := same _ rfl
    exact .found answered grows alike visited onward

/-- The end of the enumeration. -/
theorem of_exhausted (answered : q.Resumes ctx s ⟨.ok .exhausted, next, s'⟩)
    (returns : Returns base s') (rest : SameRest s' o.state) (ended : o.ending = .exhausted)
    (same : o.gathered = a) : Follows ctx visit base q s a o := by
  obtain ⟨ending, gathered, state⟩ := o
  obtain rfl : ending = .exhausted := ended
  obtain rfl : gathered = a := same
  exact .exhausted answered returns rest

/-- A solution is visited, and unless the visit ends it all the query goes on. -/
theorem of_visit (answered : q.Resumes ctx s ⟨.ok .solution, next, s'⟩) (grows : Grows base s')
    (alike : Alike s' t) (visited : visit a t = some first) (ends : Ends first o)
    (onward : first.ending = .exhausted → ∀ s'', Returns s' s'' → SameRest s'' first.state →
      Follows ctx visit base next s'' first.gathered o) : Follows ctx visit base q s a o := by
  by_cases ended : first.ending = .exhausted
  · obtain ⟨ending, gathered, state⟩ := first
    obtain rfl : ending = .exhausted := ended
    exact .found answered grows alike visited (onward rfl)
  · obtain rfl := ends ended
    exact .cut answered grows alike visited ended

/-- A query that passes on what an inner one gives follows it up to its exhaustion. -/
theorem pass (wrap : Query → Query) {inner : State}
    (passes : ∀ q s result next s', q.Resumes ctx s ⟨result, next, s'⟩ →
      result ≠ .ok .exhausted → (wrap q).Resumes ctx s ⟨result, wrap next, s'⟩)
    (grown : Grows base inner) (follows : Follows ctx visit inner q s a first)
    (ends : Ends first o)
    (onward : first.ending = .exhausted → ∀ q s next s',
      q.Resumes ctx s ⟨.ok .exhausted, next, s'⟩ → Returns inner s' → SameRest s' first.state →
      Follows ctx visit base (wrap q) s first.gathered o) :
    Follows ctx visit base (wrap q) s a o := by
  induction follows with
  | exhausted answered returns rest => exact onward rfl _ _ _ _ answered returns rest
  | failed answered alike =>
    obtain rfl := ends (by simp)
    exact .failed (passes _ _ _ _ _ answered (by simp)) alike
  | suspended answered _ ih =>
    refine .suspended (passes _ _ _ _ _ answered (by simp)) ?_
    intro s'' returns rest
    exact ih s'' returns rest ends onward
  | cut answered grows alike visited ended =>
    obtain rfl := ends ended
    exact .cut (passes _ _ _ _ _ answered (by simp)) (grown.trans grows) alike visited ended
  | found answered grows alike visited _ ih =>
    refine .found (passes _ _ _ _ _ answered (by simp)) (grown.trans grows) alike visited ?_
    intro s'' returns rest
    exact ih s'' returns rest ends onward

end Follows

/-- Whatever has grown on a choicepoint and returned, undoing it goes back before it. -/
theorem State.Grows.undo {s s' s'' t : State} (grows : Grows s.mark.2 s') (returns : Returns s' s'')
    (rest : SameRest s'' t) :
    ∃ back, s''.reroll s.mark.1 = .ok back ∧ Returns s back ∧ SameRest back t := by
  obtain ⟨back, undone, same, returned⟩ := (grows.trans returns.grows).toStacks.reroll
  refine ⟨back, undone, returned, ?_⟩
  rw [same]
  exact (rest.withBindings _ t.bindings).trans ⟨rfl, rfl, rfl, rfl, rfl, rfl, rfl, rfl⟩

/-- The first part of an enumeration and what comes after it. -/
theorem Enumeration.andThen_eq_some {α : Type} {start : State} {rest : Visitor α}
    {first : Option (Outcome α)} {o : Outcome α} (ended : andThen start rest first = some o) :
    ∃ outcome, first = some outcome ∧ Follows.Ends outcome o ∧
      (outcome.ending = .exhausted →
        rest outcome.gathered (start.backtrack outcome.state) = some o) := by
  obtain _ | ⟨_ | e | _, gathered, state⟩ := first
  · simp [andThen] at ended
  · exact ⟨_, rfl, by simp [Follows.Ends], fun _ => ended⟩
  · exact ⟨_, rfl, fun _ => Option.some.inj ended, by simp⟩
  · exact ⟨_, rfl, fun _ => Option.some.inj ended, by simp⟩

namespace Follows

variable {ctx : Context} {α : Type} {visit : Visitor α} {base s s' t : State} {q left next : Query}
  {a : α} {o first : Outcome α} {g r : Term}

/-- The right conjunct under a solution of the left one. It may begin after a suspension. -/
theorem conj_solution {solveRight : Visitor α}
    (right : ∀ {a t o}, solveRight a t = some o → ∀ {s}, Alike s t →
      Follows ctx visit s (.new r) s a o)
    (answered : left.Resumes ctx s ⟨.ok .solution, next, s'⟩) (grows : Grows base s')
    (alike : Alike s' t) (visited : solveRight a t = some first) (ends : Ends first o)
    (onward : first.ending = .exhausted → ∀ s'', Returns s' s'' → SameRest s'' first.state →
      Follows ctx visit base (.running g (.conj next r)) s'' first.gathered o) :
    Follows ctx visit base (.running g (.conj left r)) s a o := by
  have enter (entered : State) (returns : Returns s' entered) (rest : SameRest entered s') :
      Follows ctx visit base (.running g (.conjRight next r (.new r))) entered a o := by
    have scope := returns.scope
    rw [if_pos rest.resets] at scope
    have begun := right visited (Alike.trans ⟨rest, scope⟩ alike)
    refine pass (fun right => .running g (.conjRight next r right))
      (fun _ _ _ _ _ => Query.conjRight_passes) (grows.trans returns.grows) begun ends ?_
    intro ended q s1 _ s2 answered returned same
    refine of_mimics (Query.conjRight_returns answered) ?_
    exact onward ended s2 (returns.trans returned) same
  have read : Returns s' s'.readClock.2 := .of_unchanged rfl rfl (Nat.le_refl _)
  have unseen := (readClock_alike s').toSameRest
  by_cases waiting : s'.readClock.2.intention.isWaiting s'.readClock.1 = true
  · refine .suspended (Query.conj_waits answered waiting) ?_
    intro s'' returns rest
    exact enter s'' (read.trans returns) (rest.trans unseen)
  · exact of_mimics (Query.conj_enters answered waiting) (enter _ read unseen)

theorem conj {solveRight : Visitor α}
    (right : ∀ {a t o}, solveRight a t = some o → ∀ {s}, Alike s t →
      Follows ctx visit s (.new r) s a o)
    (follows : Follows ctx solveRight base left s a o) :
    Follows ctx visit base (.running g (.conj left r)) s a o := by
  induction follows with
  | exhausted answered returns rest =>
    exact .exhausted (Query.conj_passes answered (by simp)) returns rest
  | failed answered alike => exact .failed (Query.conj_passes answered (by simp)) alike
  | suspended answered _ ih => exact .suspended (Query.conj_passes answered (by simp)) ih
  | cut answered grows alike visited ended =>
    exact conj_solution right answered grows alike visited (fun _ => rfl)
      fun exhausted => absurd exhausted ended
  | found answered grows alike visited _ ih =>
    exact conj_solution right answered grows alike visited (fun ended => absurd rfl ended)
      fun _ => ih

theorem disj {solveRight : Visitor α}
    (right : ∀ {a t o}, solveRight a t = some o → ∀ {s}, Alike s t →
      Follows ctx visit s (.new r) s a o)
    (alike : Alike s t) (follows : Follows ctx visit s left s a first) (ends : Ends first o)
    (turned : first.ending = .exhausted →
      solveRight first.gathered (t.backtrack first.state) = some o) :
    Follows ctx visit s (.running g (.disj left r)) s a o := by
  refine pass (fun left => .running g (.disj left r))
    (fun _ _ _ _ _ => Query.disj_passes) (.refl s) follows ends ?_
  intro ended q s1 _ s2 answered returns rest
  refine of_mimics (Query.disj_turns answered) ?_
  have begun := right (turned ended) (returns.alike alike rest)
  refine pass (fun right => .running g (.disjRight right)) ?_ returns.grows begun (fun _ => rfl) ?_
  · intro q s result next s' answered more
    rw [← Query.ofSearch_of_ne more]
    exact Query.disjRight_passes answered
  · intro finished q s1 _ s3 answered returned same
    exact of_exhausted (Query.disjRight_passes answered) (returns.trans returned) same finished rfl

/-- The negated goal runs above a choicepoint, which is undone in either case. -/
theorem negation {taken : Unit} {inner : Outcome Unit} (alike : Alike base t)
    (follows : Follows ctx content base.mark.2 q s taken inner)
    (ended : absence visit a t (some inner) = some o) :
    Follows ctx visit base (.running g (.negation q (some base.mark.1))) s a o := by
  induction follows with
  | exhausted answered returns rest =>
    obtain ⟨back, undone, returned, same⟩ := (Grows.refl base.mark.2).undo returns rest
    have holds := @Query.negation_holds _ g _ _ _ _ base.mark.1 answered
    rw [Search.afterReroll, undone] at holds
    refine of_visit holds returned.grows (returned.alike alike same) ended (fun _ => rfl) ?_
    intro finished s'' again rest
    exact of_exhausted Query.spent_ends (returned.trans again) rest finished rfl
  | failed answered alike =>
    obtain rfl := Option.some.inj ended
    exact .failed (Query.negation_passes answered (by simp) (by simp)) alike
  | suspended answered _ ih =>
    refine .suspended (Query.negation_passes answered (by simp) (by simp)) ?_
    intro s'' returns rest
    exact ih s'' returns rest ended
  | cut answered grows alike visited finished =>
    obtain rfl := Option.some.inj visited
    obtain rfl := Option.some.inj ended
    obtain ⟨back, undone, returned, same⟩ := grows.undo (.refl _) alike.toSameRest
    have refuted := @Query.negation_refuted _ g _ _ _ _ base.mark.1 answered
    rw [Search.afterReroll, undone] at refuted
    exact .exhausted refuted returned same
  | found answered grows alike visited onward ih => simp [content] at visited

/-- The snapshot taken in a state alike to that of the visitor. -/
theorem snapshot_alike {pattern : Term} {names : Renaming} {found : List Term}
    {taken : Renaming × List Term} {t' : State} (alike : Alike s t)
    (visited : snapshot pattern (names, found) t = some ⟨.exhausted, taken, t'⟩) :
    ∃ value names' supply,
      s.scope.freeze pattern names s.platform.supply = (value, names', supply) ∧
        taken = (names', value :: found) ∧ Returns s (s.withSupply supply) ∧
        SameRest (s.withSupply supply) t' := by
  obtain ⟨value, renamed, supply⟩ := s.scope.freeze_alike pattern names alike.supply
  have marks := s.scope.freeze_nextChoicepoint pattern names s.platform.supply
  simp only [snapshot, ← alike.scope, Option.some.injEq, Outcome.mk.injEq, true_and] at visited
  obtain ⟨rfl, rfl⟩ := visited
  generalize s.scope.freeze pattern names s.platform.supply = frozen at *
  refine ⟨frozen.1, frozen.2.1, frozen.2.2, rfl, ?_, withSupply_returns s marks,
    (alike.withSupply supply).toSameRest⟩
  rw [value, renamed]

/-- Running the inner query to its end gathers the snapshots that its visitor takes. -/
theorem gathers {pattern : Term} {names : Renaming} {found : List Term}
    {taken : Renaming × List Term} {inner : Outcome (Renaming × List Term)}
    (follows : Follows ctx (snapshot pattern) base q s taken inner)
    (same : taken = (names, found)) :
    (inner.ending = .exhausted → ∃ s',
      Query.Gathers ctx pattern q names found s (.ok inner.gathered.2.reverse, s') ∧
        Returns base s' ∧ SameRest s' inner.state) ∧
      ∀ e, inner.ending = .failed e → ∃ s',
        Query.Gathers ctx pattern q names found s (.error e, s') ∧ Alike s' inner.state := by
  induction follows generalizing names found with
  | exhausted answered returns rest =>
    subst same
    exact ⟨fun _ => ⟨_, Query.gathers_exhausted answered, returns, rest⟩, by simp⟩
  | failed answered alike =>
    refine ⟨by simp, ?_⟩
    intro e failed
    obtain rfl := Ending.failed.inj failed
    exact ⟨_, Query.gathers_failed answered, alike⟩
  | suspended answered _ ih =>
    obtain ⟨exhausted, failed⟩ := ih _ (.refl _) (Alike.refl _).toSameRest same
    refine ⟨fun finished => ?_, fun e finished => ?_⟩
    · obtain ⟨s', gathers, rest⟩ := exhausted finished
      exact ⟨s', Query.gathers_suspended answered gathers, rest⟩
    · obtain ⟨s', gathers, rest⟩ := failed e finished
      exact ⟨s', Query.gathers_suspended answered gathers, rest⟩
  | cut answered grows alike visited ended =>
    obtain rfl := Option.some.inj visited
    simp at ended
  | found answered grows alike visited _ ih =>
    subst same
    obtain ⟨value, names', supply, frozen, rfl, returns, rest⟩ := snapshot_alike alike visited
    obtain ⟨exhausted, failed⟩ := ih _ returns rest rfl
    refine ⟨fun finished => ?_, fun e finished => ?_⟩
    · obtain ⟨s', gathers, rest⟩ := exhausted finished
      exact ⟨s', Query.gathers_solution answered frozen gathers, rest⟩
    · obtain ⟨s', gathers, rest⟩ := failed e finished
      exact ⟨s', Query.gathers_solution answered frozen gathers, rest⟩

end Follows

end Deliberation
