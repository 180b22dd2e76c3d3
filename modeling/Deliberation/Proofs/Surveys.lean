import Deliberation.Goal.Solutions
import Deliberation.Proofs.ResumptionRules

/-! Driving a query to its end. A survey that notes the state of every solution is a finite run of
resumptions: solutions and suspensions, and then exhaustion. No limit is part of the run. -/
namespace Deliberation.Query

variable {ctx : Context} {q next : Query} {s t : State} {states : List State}

/-- Resumed until it is exhausted, and never with an error, the query has its solutions in these
states, one after the other, and leaves the last state behind. -/
inductive Solves (ctx : Context) : Query → State → List State → State → Prop where
  | exhausted {q next : Query} {s t : State} (answered : q.Resumes ctx s ⟨.ok .exhausted, next, t⟩) :
    Solves ctx q s [] t
  | suspended {q next : Query} {s s' t : State} {states : List State}
      (answered : q.Resumes ctx s ⟨.ok .suspended, next, s'⟩)
      (rest : Solves ctx next s' states t) : Solves ctx q s states t
  | solution {q next : Query} {s s' t : State} {states : List State}
      (answered : q.Resumes ctx s ⟨.ok .solution, next, s'⟩)
      (rest : Solves ctx next s' states t) : Solves ctx q s (s' :: states) t

/-- Notes the state of a solution. -/
def note (s : State) : List State × Option Halt := ([s], none)

theorem Solves.of_mimics {other : Query} {s' : State} (mimics : Mimics ctx q s other s')
    (solves : other.Solves ctx s' states t) : q.Solves ctx s states t := by
  cases solves with
  | exhausted answered =>
    obtain ⟨next, resumes, -⟩ := mimics _ answered
    exact .exhausted resumes
  | suspended answered rest =>
    obtain ⟨next, resumes, same⟩ := mimics _ answered
    obtain rfl := same _ rfl
    exact .suspended resumes rest
  | solution answered rest =>
    obtain ⟨next, resumes, same⟩ := mimics _ answered
    obtain rfl := same _ rfl
    exact .solution resumes rest

theorem survey_mono {α : Type} {observe : State → List α × Option Halt} {n m : Nat}
    (less : n ≤ m) {rounds more : Nat} (fewer : rounds ≤ more) {count : Nat} {seen : List α}
    {found : Survey α} (surveyed : q.survey ctx n observe rounds count seen s = some found) :
    q.survey ctx m observe more count seen s = some found := by
  induction rounds generalizing more q count seen s with
  | zero => simp [survey] at surveyed
  | succ rounds ih =>
    obtain ⟨more, rfl⟩ := Nat.exists_eq_add_of_le' fewer
    have rest : rounds ≤ more + rounds := Nat.le_add_left rounds more
    cases answer : q.resume ctx n s with
    | none => simp [survey, answer] at surveyed
    | some reply =>
      simp only [survey, answer] at surveyed
      simp only [survey, resume_mono ctx less q s reply answer]
      obtain ⟨_ | (_ | _ | _), next, state⟩ := reply
      · exact surveyed
      · dsimp only at surveyed ⊢
        split at surveyed
        · exact surveyed
        · exact ih rest surveyed
      · exact ih rest surveyed
      · exact surveyed

/-- A survey that comes to its end without an error is a run to the end. -/
theorem solves_of_survey {limit rounds count n : Nat} {seen : List State}
    (surveyed : q.survey ctx limit note rounds count seen s = some ⟨.ok n, states, next, t⟩) :
    ∃ more, states = seen ++ more ∧ n = count + more.length ∧ q.Solves ctx s more t := by
  induction rounds generalizing q count seen s with
  | zero => simp [survey] at surveyed
  | succ rounds ih =>
    cases answer : q.resume ctx limit s with
    | none => simp [survey, answer] at surveyed
    | some reply =>
      simp only [survey, answer] at surveyed
      obtain ⟨e | (_ | _ | _), after, state⟩ := reply
      · simp at surveyed
      · obtain ⟨more, rfl, rfl, solves⟩ := ih surveyed
        refine ⟨state :: more, by simp, ?_, .solution ⟨limit, answer⟩ solves⟩
        rw [List.length_cons]
        omega
      · obtain ⟨more, same, counted, solves⟩ := ih surveyed
        exact ⟨more, same, counted, .suspended ⟨limit, answer⟩ solves⟩
      · simp only [Option.some.injEq, Survey.mk.injEq, Except.ok.injEq] at surveyed
        obtain ⟨rfl, rfl, -, rfl⟩ := surveyed
        exact ⟨[], by simp, rfl, .exhausted ⟨limit, answer⟩⟩

theorem Solves.survey (solves : q.Solves ctx s states t) :
    ∃ limit, ∀ count seen, ∃ next, q.survey ctx limit note limit count seen s =
      some ⟨.ok (count + states.length), seen ++ states, next, t⟩ := by
  -- One limit for the first answer and for the rest of the run.
  have together {q next : Query} {s s' t : State} {states : List State}
      {result : Except Halt Event} (answered : q.Resumes ctx s ⟨result, next, s'⟩)
      (rest : ∃ limit, ∀ count seen, ∃ last, next.survey ctx limit note limit count seen s' =
        some ⟨.ok (count + states.length), seen ++ states, last, t⟩) :
      ∃ limit, q.resume ctx (limit + 1) s = some ⟨result, next, s'⟩ ∧ ∀ count seen, ∃ last,
        next.survey ctx (limit + 1) note limit count seen s' =
          some ⟨.ok (count + states.length), seen ++ states, last, t⟩ := by
    obtain ⟨n, resumed⟩ := answered
    obtain ⟨m, surveyed⟩ := rest
    refine ⟨max n m, ?_, fun count seen => ?_⟩
    · exact resume_mono ctx (Nat.le_succ_of_le (Nat.le_max_left n m)) q s _ resumed
    · obtain ⟨last, found⟩ := surveyed count seen
      have limits := Nat.le_max_right n m
      exact ⟨last, survey_mono (Nat.le_succ_of_le limits) limits found⟩
  induction solves with
  | @exhausted q next s t answered =>
    obtain ⟨n, resumed⟩ := answered
    refine ⟨n + 1, fun count seen => ⟨next, ?_⟩⟩
    simp [Query.survey, resume_mono ctx (Nat.le_succ n) q s _ resumed]
  | suspended answered _ ih =>
    obtain ⟨limit, resumed, surveyed⟩ := together answered ih
    refine ⟨limit + 1, fun count seen => ?_⟩
    simpa only [Query.survey, resumed] using surveyed count seen
  | solution answered _ ih =>
    obtain ⟨limit, resumed, surveyed⟩ := together answered ih
    refine ⟨limit + 1, fun count seen => ?_⟩
    obtain ⟨last, found⟩ := surveyed (count + 1) (seen ++ [_])
    refine ⟨last, ?_⟩
    simp only [Query.survey, resumed, note, List.length_cons]
    rw [found, Nat.add_right_comm, Nat.add_assoc, List.append_assoc]
    rfl

end Deliberation.Query
