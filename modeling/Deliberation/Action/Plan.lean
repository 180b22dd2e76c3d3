import Deliberation.State

/-!
What a call of an action is going to do. A plan looks at the situation, may unify terms on the way,
and names a deed or a list of candidates; only the evaluator carries these out. So an action can
touch an intention in no other way than by unifying and by the deeds listed here.
-/
namespace Deliberation

/-- The situation as an action sees it. -/
structure View where
  mind : Mind
  scope : Scope
  calendar : Calendar
  sample : Double

/-- What an action does at the end. -/
inductive Deed where
  /-- Nothing, and it holds or not. -/
  | answer (holds : Bool)
  | unify (pairs : List (Term × Term))
  | print (parts : List Term)
  | stop
  | dump
  | forget
  /-- Set the deadline of the intention this far ahead, as a number of milliseconds has it. -/
  | delay (duration : Time) (millis : Number)

/-- A number of milliseconds is no duration, or one that the clock does not reach. -/
def EngineError.unreachable (millis : Number) : EngineError :=
  .precondition ".wait"
    ("delay must be a non-negative number of milliseconds, got " ++ millis.text)

/-- Candidate values, tried in order; a range of integers is not spelled out. -/
inductive Candidates where
  | terms (rest : List Term)
  | range (next stop : Int)

namespace Candidates

def remaining : Candidates → Nat
  | terms rest => rest.length
  | range next stop => (stop - next).toNat

def next? : Candidates → Option (Term × Candidates)
  | terms [] => none
  | terms (t :: rest) => some (t, terms rest)
  | range next stop =>
    if next < stop then some (.int (Int64.ofInt next), range (next + 1) stop) else none

theorem remaining_of_next? {c rest : Candidates} {t : Term} (h : c.next? = some (t, rest)) :
    rest.remaining < c.remaining := by
  cases c with
  | terms ts =>
    cases ts with
    | nil => simp [next?] at h
    | cons u us =>
      simp only [next?, Option.some.injEq, Prod.mk.injEq] at h
      simp [← h.2, remaining]
  | range next stop =>
    by_cases less : next < stop
    · simp only [next?, less, if_true, Option.some.injEq, Prod.mk.injEq] at h
      simp only [← h.2, remaining]
      omega
    · simp [next?, less] at h

end Candidates

/-- Candidates that may contain variables of their own, taken fresh when the offer is made. -/
structure Offer where
  fresh : Nat := 0
  candidates : List Var → Candidates

def Offer.of (candidates : Candidates) : Offer := { candidates := fun _ => candidates }

/-- The inner steps of an action that unifies before it comes to its result. -/
inductive Script (α : Type) where
  /-- The result, or why the action comes to none. -/
  | done (result : Except Halt α)
  /-- Unify two terms, and go on by the answer and the scope as it is then. -/
  | unify (left right : Term) (next : Bool → Scope → Script α)
  | fresh (next : Var → Script α)

inductive Plan where
  /-- One solution at most: the deed that the steps come to. -/
  | act (steps : View → Script Deed)
  /-- One solution for each candidate, of those the steps come to, that unifies with the target. -/
  | offer (target : Term) (steps : View → Script Offer)
  /-- One solution at most: the snapshots of a pattern over all solutions of a goal. -/
  | collect (pattern goal result : Term)

namespace Plan

def once (decide : View → Except Halt Deed) : Plan := .act fun view => .done (decide view)

def choices (target : Term) (candidates : View → Except Halt Offer) : Plan :=
  .offer target fun view => .done (candidates view)

end Plan

end Deliberation
