import Deliberation.Proofs.NestedResumption
import Deliberation.Proofs.StandardActions

/-! Exhaustion restores. When a query that met no error is exhausted, its intention has the trail it
had before the first resumption, and its scope too unless all bindings were dropped, which leaves
none. The same holds for every query that is resumed inside: it is resumed only where a run of its
own without errors has brought it. -/
namespace Deliberation

open State

/-- A goal was resumed for the first time in the state `start` and then again and again, never with
an error, and is about to be resumed at some stage in some state. Between two resumptions bindings
may only be dropped all at once. -/
inductive Query.UnderWay (ctx : Context) (start : State) : Query → State → Prop where
  | first (goal : Term) : UnderWay ctx start (.new goal) start
  | again {q next : Query} {s s' s'' : State} {event : Event} (earlier : UnderWay ctx start q s)
      (resumed : q.Resumes ctx s ⟨.ok event, next, s'⟩) (meanwhile : Returns s' s'') :
      UnderWay ctx start next s''

namespace Query

variable {ctx : Context} {start s s' : State} {q : Query}

theorem UnderWay.later (underWay : q.UnderWay ctx start s) (returns : Returns s s') :
    ∃ start, q.UnderWay ctx start s' := by
  cases underWay with
  | first goal => exact ⟨s', .first goal⟩
  | again earlier resumed meanwhile =>
    exact ⟨start, earlier.again resumed (meanwhile.trans returns)⟩

end Query

/-- The strict sense: the base is restored exactly, and queries are under way without errors. -/
def Footing.restoring {ctx : Context} (tidy : ctx.Tidy) : Footing ctx where
  reaches := Returns
  loose := False
  underWay q s := ∃ start, q.UnderWay ctx start s
  returns := id
  grows := Returns.grows
  trans := Returns.trans
  covers := False.elim
  offers := .inl tidy
  begins goal s := ⟨s, .first goal⟩
  later := by
    rintro q s s' ⟨start, underWay⟩ returns
    exact underWay.later returns
  resumed := by
    rintro q s event next s' ⟨start, underWay⟩ resumed
    exact ⟨start, underWay.again resumed (.refl s')⟩
  failed := False.elim

namespace Query

variable {ctx : Context} {start s : State} {q : Query}

theorem UnderWay.anchored (tidy : ctx.Tidy) (underWay : q.UnderWay ctx start s) :
    q.Anchored (.restoring tidy) start s := by
  induction underWay with
  | first goal => exact new_anchored (.restoring tidy) goal start
  | again earlier resumed meanwhile ih =>
    exact Anchored.later _ ((resumed.settles ih).1 _ rfl) meanwhile

end Query

end Deliberation
