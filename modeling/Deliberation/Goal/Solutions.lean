import Deliberation.Goal.Resume

/-! Running a query to its end within one step, with a look at the state of every solution. -/
namespace Deliberation

structure Survey (α : Type) where
  /-- The number of solutions, or why the run ended without one. -/
  result : Except Halt Nat
  seen : List α
  next : Query
  state : State

/--
Resumes a query until it is exhausted. At each solution `observe` adds what it sees and may end the
run with an error. Suspensions are passed over: a deadline takes effect after the run.
-/
def Query.survey {α : Type} (ctx : Context) (limit : Nat)
    (observe : State → List α × Option Halt) :
    Nat → Query → Nat → List α → State → Option (Survey α)
  | 0, _, _, _, _ => none
  | rounds + 1, q, count, seen, s =>
    match q.resume ctx limit s with
    | none => none
    | some ⟨.error e, q, s⟩ => some ⟨.error e, seen, q, s⟩
    | some ⟨.ok .exhausted, q, s⟩ => some ⟨.ok count, seen, q, s⟩
    | some ⟨.ok .suspended, q, s⟩ => q.survey ctx limit observe rounds count seen s
    | some ⟨.ok .solution, q, s⟩ =>
      match observe s with
      | (values, some e) => some ⟨.error e, seen ++ values, q, s⟩
      | (values, none) => q.survey ctx limit observe rounds (count + 1) (seen ++ values) s

end Deliberation
