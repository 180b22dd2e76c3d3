import Deliberation.Proofs.CourseAnswers

/-! What a task comes to before it is answered: it calls other tasks one after another, each after
the courses that come before it. A task that is never answered makes calls without end, so that the
calls reach every moment that no course does. An error of a task that is called is one of the task
that calls it. -/
namespace Deliberation

open Query (factTry ruleTry Mimics)

/-- The evaluator comes from a task to the next one that it has to answer. -/
inductive Calls (ctx : Context) : Task → State → List Happening → Task → State → Prop where
  | enters {task : Task} {q : Query} {s : State} (inside : task.inner? = some q) :
      Calls ctx task s [] (.resume q) s
  | begins {g : Term} {search : Search} {s : State}
      (begun : Search.ofGoal ctx s.scope g = .ok search) :
      Calls ctx (.resume (.pending g)) s [] (.resume (.running g search)) s
  | turns {g : Term} {search next : Search} {s s' : State} {trace : List Happening}
      (turned : search.Turns ctx s trace next s') :
      Calls ctx (.resume (.running g search)) s trace (.resume (.running g next)) s'
  | goesOn {task next : Task} {q : Query} {s t : State} {trace last : List Happening}
      {reply : Reply Query} (inside : task.inner? = some q)
      (inner : Course ctx (.resume q) s trace (.reply reply))
      (goes : task.GoesOn reply last next t) : Calls ctx task s (trace ++ last) next t
  | ruleEnters {g goal : Term} {rule : Rule} {group : Group} {i : Nat} {more : List Rule}
      {s s' : State} (dropped : (ctx.mind.beliefs.rules group).drop i = rule :: more)
      (unified : (ruleTry s rule).2.2.mark.2.unify goal (ruleTry s rule).1 = (true, s')) :
      Calls ctx (.resume (.running g (.recalling goal (.rules group i) none))) s
        [.state s, .ofRule s rule] (.resume (.new (ruleTry s rule).2.1)) s'
  | ruleReturns {g goal : Term} {rule : Rule} {group : Group} {i : Nat} {more : List Rule}
      {s s' t : State} {body : Query} {trace : List Happening}
      (dropped : (ctx.mind.beliefs.rules group).drop i = rule :: more)
      (unified : (ruleTry s rule).2.2.mark.2.unify goal (ruleTry s rule).1 = (true, s'))
      (inner : Course ctx (.resume (.new (ruleTry s rule).2.1)) s' trace
        (.reply ⟨.ok .exhausted, body, t⟩)) :
      Calls ctx (.resume (.running g (.recalling goal (.rules group i) none))) s
        ([.state s, .ofRule s rule] ++ trace)
        (.resume (.running g (.recalling goal (.rules group (i + 1))
          (some (ruleTry s rule).2.2.mark.1)))) t
  | collectEnters {g pattern goal result : Term} {s : State} :
      Calls ctx (.resume (.running g (.planned (.collect pattern goal result)))) s [.state s]
        (.gather pattern (.new goal) [] []) s.mark.2

/-- Calls one after another. -/
inductive Comes (ctx : Context) : Nat → Task → State → List Happening → Task → State → Prop where
  | stays {task : Task} {s : State} : Comes ctx 0 task s [] task s
  | goes {n : Nat} {task task' task'' : Task} {s s' s'' : State} {trace later : List Happening}
      (called : Calls ctx task s trace task' s')
      (rest : Comes ctx n task' s' later task'' s'') :
      Comes ctx (n + 1) task s (trace ++ later) task'' s''

/-- The evaluator answers the task. -/
def Task.Answers (ctx : Context) (s : State) (task : Task) : Prop :=
  ∃ answer, task.Gives ctx s answer

/-- A task is answered, or it calls one that is not. -/
def Task.Progresses (ctx : Context) (task : Task) (s : State) : Prop :=
  task.Answers ctx s ∨ ∃ trace task' s', Calls ctx task s trace task' s' ∧ ¬task'.Answers ctx s'

namespace Task

variable {ctx : Context} {s s' : State} {task task' : Task} {q : Query} {trace : List Happening}

theorem Answers.of_resumes {reply : Reply Query} (answered : q.Resumes ctx s reply) :
    (resume q).Answers ctx s :=
  ⟨.reply reply, answered.gives⟩

theorem Answers.resumes (answers : (resume q).Answers ctx s) : ∃ reply, q.Resumes ctx s reply := by
  obtain ⟨_ | _, gives⟩ := answers
  · obtain ⟨next, answered, -⟩ := gives
    exact ⟨_, answered⟩
  · exact gives.elim

theorem Answers.of_mimics {other : Query} (mimics : Mimics ctx q s other s')
    (answers : (resume other).Answers ctx s') : (resume q).Answers ctx s := by
  obtain ⟨reply, answered⟩ := answers.resumes
  exact ⟨.reply reply, mimics reply answered⟩

/-- Whatever the query inside replies, the task is answered or goes on. -/
theorem passes_or_goesOn (inside : task.inner? = some q) (reply : Reply Query) :
    (∃ last answer, task.Passes reply last answer) ∨
      ∃ last next t, task.GoesOn reply last next t := by
  obtain ⟨result, stage, t⟩ := reply
  have exhausted_or : result = .ok .exhausted ∨ result ≠ .ok .exhausted := Classical.em _
  match task, inside with
  | .gather .., _ =>
    obtain e | (_ | _ | _) := result
    · exact .inl ⟨_, _, .gatherFails⟩
    · exact .inr ⟨_, _, _, .gatherFinds rfl⟩
    · exact .inr ⟨_, _, _, .gatherPasses⟩
    · exact .inl ⟨_, _, .gatherEnds⟩
  | .resume (.running _ (.applying ..)), _ =>
    obtain rfl | unfinished := exhausted_or
    · exact .inr ⟨_, _, _, .applying⟩
    · exact .inl ⟨_, _, .applying unfinished⟩
  | .resume (.running _ (.conj ..)), _ =>
    by_cases solved : result = .ok .solution
    · subst solved
      cases waiting : t.intention.isWaiting t.readClock.1 with
      | true => exact .inl ⟨_, _, .conjWaits waiting⟩
      | false => exact .inr ⟨_, _, _, .conj waiting⟩
    · exact .inl ⟨_, _, .conj solved⟩
  | .resume (.running _ (.conjRight ..)), _ =>
    obtain rfl | unfinished := exhausted_or
    · exact .inr ⟨_, _, _, .conjRight⟩
    · exact .inl ⟨_, _, .conjRight unfinished⟩
  | .resume (.running _ (.disj ..)), _ =>
    obtain rfl | unfinished := exhausted_or
    · exact .inr ⟨_, _, _, .disj⟩
    · exact .inl ⟨_, _, .disj unfinished⟩
  | .resume (.running _ (.disjRight _)), _ => exact .inl ⟨_, _, .disjRight⟩
  | .resume (.running _ (.negation _ (some _))), _ =>
    obtain e | (_ | _ | _) := result
    · exact .inl ⟨_, _, .negation (by simp) (by simp)⟩
    · exact .inl ⟨_, _, .negationRefuted⟩
    · exact .inl ⟨_, _, .negation (by simp) (by simp)⟩
    · exact .inl ⟨_, _, .negationHolds⟩

namespace Progresses

/-- A call whose answer would answer the task. -/
theorem of_call (called : Calls ctx task s trace task' s')
    (answers : task'.Answers ctx s' → task.Answers ctx s) : task.Progresses ctx s := by
  by_cases answered : task'.Answers ctx s'
  · exact .inl (answers answered)
  · exact .inr ⟨trace, task', s', called, answered⟩

theorem of_mimics {other : Query} (called : Calls ctx (.resume q) s trace (.resume other) s')
    (mimics : Mimics ctx q s other s') : (resume q).Progresses ctx s :=
  of_call called (.of_mimics mimics)

/-- It is left to look at the replies of the query that is called. -/
theorem of_reply (called : Calls ctx task s trace (.resume q) s')
    (answered : ∀ reply later, q.Resumes ctx s' reply →
      Course ctx (.resume q) s' later (.reply reply) → task.Progresses ctx s) :
    task.Progresses ctx s := by
  by_cases answers : (resume q).Answers ctx s'
  · obtain ⟨reply, resumes⟩ := answers.resumes
    obtain ⟨later, course⟩ := resumes.course
    exact answered reply later resumes course
  · exact .inr ⟨trace, .resume q, s', called, answers⟩

theorem of_inner (inside : task.inner? = some q) : task.Progresses ctx s := by
  refine of_reply (.enters inside) fun reply later resumes course => ?_
  obtain ⟨last, answer, passed⟩ | ⟨last, next, t, goes⟩ := passes_or_goesOn inside reply
  · exact .inl ⟨answer, passed.gives inside resumes.gives⟩
  · refine of_call (.goesOn inside course goes) ?_
    rintro ⟨answer, rest⟩
    exact ⟨answer, goes.gives inside resumes.gives rest⟩

end Progresses

end Task

namespace Search

open Query

variable {ctx : Context} {s : State}

/-- A search makes progress under every goal. -/
def Progresses (ctx : Context) (search : Search) (s : State) : Prop :=
  ∀ g, (Task.resume (.running g search)).Progresses ctx s

theorem Ends.progresses {search : Search} {trace : List Happening} {found : Reply Search}
    (ended : search.Ends ctx s trace found) : search.Progresses ctx s :=
  fun g => .inl (.of_resumes (ended.resumes g))

theorem Turns.progresses {search next : Search} {s' : State} {trace : List Happening}
    (turned : search.Turns ctx s trace next s') : search.Progresses ctx s :=
  fun g => .of_mimics (.turns turned) (turned.mimics g)

theorem choosing_progresses (target : Term) (rest : Candidates) :
    (choosing target rest none).Progresses ctx s := by
  cases offered : rest.next? with
  | none => exact Ends.progresses (.choosingOver offered)
  | some offer =>
    cases unified : s.mark.2.unify target offer.1 with
    | mk ok s' =>
      obtain ⟨back, undone, -⟩ := State.reroll_of_unify unified
      cases ok with
      | true => exact Ends.progresses (.choosingFound offered unified)
      | false => exact Turns.progresses (.choosingMissed offered unified undone)

theorem plan_progresses (plan : Plan) : (planned plan).Progresses ctx s := by
  cases plan with
  | act steps => exact fun g => .inl (.of_resumes (act_runs steps))
  | offer target steps =>
    cases ran : (steps (look ctx s).1).run (look ctx s).2 with
    | mk outcome s' =>
      cases outcome with
      | error e => exact Ends.progresses (.offerFails ran)
      | ok offer => exact Turns.progresses (.offer ran)
  | collect pattern goal result =>
    intro g
    refine .of_call .collectEnters ?_
    rintro ⟨_ | ⟨e | found, t⟩, gathers⟩
    · exact gathers.elim
    · exact .of_resumes (collect_failed gathers)
    · exact .of_resumes (collect_gathered gathers)

theorem recalling_progresses (goal : Term) (cursor : Cursor) :
    (recalling goal cursor none).Progresses ctx s := by
  cases cursor with
  | start =>
    cases grouped : groupOf s.scope goal with
    | error e => exact Ends.progresses (.recallingStuck grouped)
    | ok group => exact Turns.progresses (.recallingStarts grouped)
  | facts group i =>
    cases dropped : (ctx.mind.beliefs.lookup group).drop i with
    | nil => exact Turns.progresses (.factsOver dropped)
    | cons fact rest =>
      cases unified : (factTry s fact).2.mark.2.unify goal (factTry s fact).1 with
      | mk ok s' =>
        obtain ⟨back, undone, -⟩ := State.reroll_of_unify unified
        cases ok with
        | true => exact Ends.progresses (.factFound dropped unified)
        | false => exact Turns.progresses (.factMissed dropped unified undone)
  | rules group i =>
    cases dropped : (ctx.mind.beliefs.rules group).drop i with
    | nil => exact Ends.progresses (.rulesOver dropped)
    | cons rule rest =>
      cases unified : (ruleTry s rule).2.2.mark.2.unify goal (ruleTry s rule).1 with
      | mk ok s' =>
        obtain ⟨back, undone, -⟩ := State.reroll_of_unify unified
        cases ok with
        | false => exact Turns.progresses (.ruleMissed dropped unified undone)
        | true =>
          intro g
          have enters := rule_enters (g := g) dropped unified
          refine .of_reply (.ruleEnters dropped unified) fun reply later answered course => ?_
          obtain ⟨result, body, t⟩ := reply
          by_cases finished : result = .ok .exhausted
          · subst finished
            exact .of_mimics (.ruleReturns dropped unified course)
              (enters.trans (applying_returns answered))
          · exact .inl (.of_mimics enters (.of_resumes (applying_passes answered finished)))
  | finished => exact Ends.progresses .recallingFinished

theorem progresses (search : Search) : search.Progresses ctx s := by
  cases search with
  | planned plan => exact plan_progresses plan
  | held c => exact Ends.progresses .held
  | choosing target rest mark =>
    cases mark with
    | none => exact choosing_progresses target rest
    | some c =>
      cases undone : s.reroll c with
      | ok s' => exact Turns.progresses (.choosingUndoes undone)
      | error e => exact Ends.progresses (.choosingLost undone)
  | spent => exact Ends.progresses .spent
  | recalling goal cursor mark =>
    cases mark with
    | none => exact recalling_progresses goal cursor
    | some c =>
      cases undone : s.reroll c with
      | ok s' => exact Turns.progresses (.recallingUndoes undone)
      | error e => exact Ends.progresses (.recallingLost undone)
  | negation inner mark =>
    cases mark with
    | none => exact Turns.progresses .negationEnters
    | some c => exact fun g => .of_inner rfl
  | applying | conj | conjRight | disj | disjRight => exact fun g => .of_inner rfl

end Search

namespace Task

theorem progresses (ctx : Context) (task : Task) (s : State) : task.Progresses ctx s := by
  cases task with
  | resume q =>
    cases q with
    | pending goal =>
      cases begun : Search.ofGoal ctx s.scope goal with
      | error e => exact .inl (.of_resumes (Query.new_fails begun))
      | ok search => exact .of_mimics (.begins begun) (Query.mimics_new begun)
    | running goal search => exact search.progresses goal
    | done goal => exact .inl (.of_resumes ⟨1, rfl⟩)
  | gather pattern q names found => exact .of_inner rfl

/-- A task that is never answered makes as many calls as one likes. -/
theorem comes_of_unanswered {ctx : Context} {task : Task} {s : State}
    (never : ¬task.Answers ctx s) (n : Nat) :
    ∃ trace task' s', Comes ctx n task s trace task' s' ∧ ¬task'.Answers ctx s' := by
  induction n generalizing task s with
  | zero => exact ⟨[], task, s, .stays, never⟩
  | succ n ih =>
    obtain answered | ⟨trace, task', s', called, unanswered⟩ := task.progresses ctx s
    · exact absurd answered never
    · obtain ⟨later, task'', s'', rest, still⟩ := ih unanswered
      exact ⟨trace ++ later, task'', s'', .goes called rest, still⟩

end Task

end Deliberation
