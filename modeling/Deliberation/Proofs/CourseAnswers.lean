import Deliberation.Proofs.Courses

/-! The answers of courses. What the evaluator does on a course follows its rules one after another,
so that every course ends in an answer of the evaluator. -/
namespace Deliberation

/-- The evaluator gives the answer to the task, except that an error may leave another stage. -/
def Task.Gives (ctx : Context) (s : State) : Task → Answer → Prop
  | resume q, .reply r => q.Gives ctx s r
  | gather pattern q names found, .gathered outcome t =>
    Query.Gathers ctx pattern q names found s (outcome, t)
  | _, _ => False

variable {ctx : Context} {s s' t : State} {task next : Task} {q : Query} {reply : Reply Query}
  {answer : Answer} {trace last : List Happening}

open Query

namespace Search

theorem Ends.resumes {search : Search} {found : Reply Search} (ended : search.Ends ctx s trace found)
    (g : Term) : (running g search).Resumes ctx s (ofSearch g found) := by
  have advances (search : Search) (found : Reply Search)
      (advanced : search.advance ctx (Query.resume ctx 0) 0 s = some found) :
      (running g search).Resumes ctx s (ofSearch g found) := running_resumes found 0 advanced
  cases ended with
  | actFails ran =>
    refine advances _ _ ?_
    simp only [advance, runPlan, runAct, ran]
  | act ran =>
    refine advances _ _ ?_
    simp only [advance, runPlan, runAct, ran]
  | offerFails ran => exact offer_fails ran
  | choosingLost lost =>
    refine advances _ _ ?_
    simp only [advance, State.rerollIf, lost]
  | choosingOver finished => exact choosing_over finished
  | choosingFound offered unified => exact choosing_found offered unified
  | held => exact advances _ _ rfl
  | spent => exact spent_ends
  | recallingLost lost =>
    refine advances _ _ ?_
    simp only [advance, undoAndScan, State.rerollIf, lost]
  | recallingStuck ungrouped =>
    refine advances _ _ ?_
    simp only [advance, undoAndScan, State.rerollIf, scan, ungrouped]
  | recallingFinished => exact advances _ _ rfl
  | factFound dropped unified => exact fact_found dropped unified
  | rulesOver dropped => exact rules_over dropped

theorem Turns.mimics {search next : Search} (turned : search.Turns ctx s trace next s') (g : Term) :
    Mimics ctx (running g search) s (running g next) s' := by
  cases turned with
  | offer ran => exact offer_starts ran
  | choosingUndoes undone => exact choosing_undoes undone
  | choosingMissed offered unified undone => exact choosing_missed offered unified undone
  | recallingUndoes undone => exact recalling_undoes undone
  | recallingStarts grouped => exact recalling_starts grouped
  | factMissed dropped unified undone => exact fact_missed dropped unified undone
  | factsOver dropped => exact facts_over dropped
  | ruleMissed dropped unified undone => exact rule_missed dropped unified undone
  | negationEnters => exact negation_enters

end Search

namespace Task

theorem Passes.gives (passed : task.Passes reply last answer) (inside : task.inner? = some q)
    (gives : q.Gives ctx s reply) : task.Gives ctx s answer := by
  cases passed with
  | applying unfinished =>
    obtain rfl := Option.some.inj inside
    obtain ⟨next, answered, same⟩ := gives
    exact ⟨_, applying_passes answered unfinished, fun event ok => by rw [same event ok]⟩
  | conj other =>
    obtain rfl := Option.some.inj inside
    obtain ⟨next, answered, same⟩ := gives
    exact .ofSearch (conj_passes answered other) fun event ok => by rw [same event ok]
  | conjWaits waiting =>
    obtain rfl := Option.some.inj inside
    exact (conj_waits gives.resumes waiting).gives
  | conjRight unfinished =>
    obtain rfl := Option.some.inj inside
    obtain ⟨next, answered, same⟩ := gives
    exact ⟨_, conjRight_passes answered unfinished, fun event ok => by rw [same event ok]⟩
  | disj unfinished =>
    obtain rfl := Option.some.inj inside
    obtain ⟨next, answered, same⟩ := gives
    exact ⟨_, disj_passes answered unfinished, fun event ok => by rw [same event ok]⟩
  | disjRight =>
    obtain rfl := Option.some.inj inside
    obtain ⟨next, answered, same⟩ := gives
    exact .ofSearch (disjRight_passes answered) fun event ok => by rw [same event ok]
  | negation unsolved unfinished =>
    obtain rfl := Option.some.inj inside
    obtain ⟨next, answered, same⟩ := gives
    exact ⟨_, negation_passes answered unsolved unfinished, fun event ok => by rw [same event ok]⟩
  | negationRefuted =>
    obtain rfl := Option.some.inj inside
    exact (negation_refuted gives.resumes).gives
  | negationHolds =>
    obtain rfl := Option.some.inj inside
    exact (negation_holds gives.resumes).gives
  | gatherFails =>
    obtain rfl := Option.some.inj inside
    obtain ⟨next, answered, -⟩ := gives
    exact gathers_failed answered
  | gatherEnds =>
    obtain rfl := Option.some.inj inside
    exact gathers_exhausted gives.resumes

theorem GoesOn.gives (goes : task.GoesOn reply last next t) (inside : task.inner? = some q)
    (inner : q.Gives ctx s reply) (rest : next.Gives ctx t answer) : task.Gives ctx s answer := by
  have onward {q other : Query} (mimics : Mimics ctx q s other t)
      (rest : (resume other).Gives ctx t answer) : (resume q).Gives ctx s answer := by
    cases answer with
    | reply r => exact mimics.gives rest
    | gathered => exact rest
  cases goes with
  | applying =>
    obtain rfl := Option.some.inj inside
    exact onward (applying_returns inner.resumes) rest
  | conj awake =>
    obtain rfl := Option.some.inj inside
    exact onward (conj_enters inner.resumes (Bool.eq_false_iff.mp awake)) rest
  | conjRight =>
    obtain rfl := Option.some.inj inside
    exact onward (conjRight_returns inner.resumes) rest
  | disj =>
    obtain rfl := Option.some.inj inside
    exact onward (disj_turns inner.resumes) rest
  | gatherPasses =>
    obtain rfl := Option.some.inj inside
    cases answer with
    | reply r => exact rest
    | gathered => exact gathers_suspended inner.resumes rest
  | gatherFinds frozen =>
    obtain rfl := Option.some.inj inside
    cases answer with
    | reply r => exact rest
    | gathered => exact gathers_solution inner.resumes frozen rest

end Task

/-- Every course ends in an answer of the evaluator. -/
theorem Course.gives (course : Course ctx task s trace answer) : task.Gives ctx s answer := by
  induction course with
  | done => exact Resumes.gives ⟨1, rfl⟩
  | stuck failed => exact (new_fails failed).gives
  | begins begun rest ih => exact (mimics_new begun).gives ih
  | ends ended => exact (ended.resumes _).gives
  | turns turned rest ih => exact (turned.mimics _).gives ih
  | passes inside inner passed ih => exact passed.gives inside ih
  | goesOn inside inner goes rest ihInner ihRest => exact goes.gives inside ihInner ihRest
  | ruleFails dropped unified inner ih =>
    obtain ⟨next, answered, -⟩ := ih
    obtain ⟨stage, entered, -⟩ := rule_enters dropped unified _ (applying_passes answered nofun)
    exact ⟨stage, entered, nofun⟩
  | rulePasses dropped unified inner unfinished ih =>
    exact rule_enters dropped unified _ (applying_passes ih.resumes (by simpa using unfinished))
  | ruleReturns dropped unified inner rest ihInner ihRest =>
    exact ((rule_enters dropped unified).trans (applying_returns ihInner.resumes)).gives ihRest
  | collectFails inner ih => exact (collect_failed ih).gives
  | collects inner ih => exact (collect_gathered ih).gives

end Deliberation
