import Deliberation.Proofs.Calls
import Deliberation.Proofs.SettledQueries

/-! Where resumptions panic. An error of a task that is called is one of the task that calls it, so
that a resumption panics wherever it comes to a call of `.sort` with a sequence that has no order.
Over the standard library it panics nowhere else: the induction is on the course that ends in the
panic. -/
namespace Deliberation

open Query (factTry ruleTry Mimics)

def Answer.Fails (e : Halt) : Answer → Prop
  | reply r => r.result = .error e
  | gathered found _ => found = .error e

/-- The evaluator answers the task with an error. -/
def Task.Fails (ctx : Context) (s : State) (e : Halt) (task : Task) : Prop :=
  ∃ answer, task.Gives ctx s answer ∧ answer.Fails e

/-- The task is to run a call of `.sort` whose first argument stands for a sequence. -/
def Task.Sorts (items : List Term) (s : State) (task : Task) : Prop :=
  ∃ g input output,
    task = .resume (.running g (.planned (Library.sorting.plan ".sort" [input, output]))) ∧
      s.scope.grounded input = .ok (.seq items)

/-- The evaluator comes from the task to a sequence that `.sort` finds no order for. -/
def Task.SortsInVain (ctx : Context) (s : State) (task : Task) : Prop :=
  ∃ n trace task' t items, Comes ctx n task s trace task' t ∧ task'.Sorts items t ∧
    Library.sort? items = none

variable {ctx : Context} {s s' : State} {trace : List Happening} {task task' : Task} {e : Halt}

namespace Task

theorem Fails.of_mimics {q other : Query} (mimics : Mimics ctx q s other s')
    (fails : (resume other).Fails ctx s' e) : (resume q).Fails ctx s e := by
  obtain ⟨_ | _, gives, failed⟩ := fails
  · exact ⟨.reply _, mimics.gives gives, failed⟩
  · exact gives.elim

theorem Passes.fails {next : Query} {t : State} {last : List Happening} {answer : Answer}
    (passed : task.Passes ⟨.error e, next, t⟩ last answer) : answer.Fails e := by
  cases passed <;> rfl

theorem Sorts.fails {items : List Term} (sorts : task.Sorts items s)
    (vain : Library.sort? items = none) : task.Fails ctx s .panicked := by
  obtain ⟨g, input, output, rfl, ground⟩ := sorts
  have raised : (Library.sorting.plan ".sort" [input, output]).RaisesIn
      (Search.look ctx s.mark.2).1 .panicked := Library.sorting_panics output ground vain
  have ended : (Search.planned (Library.sorting.plan ".sort" [input, output])).Ends ctx s _
      ⟨.error .panicked, .spent, (Search.look ctx s.mark.2).2⟩ :=
    .actFails (congrArg (·, (Search.look ctx s.mark.2).2) raised)
  exact ⟨.reply _, (ended.resumes g).gives, rfl⟩

end Task

theorem Calls.fails (called : Calls ctx task s trace task' s') (fails : task'.Fails ctx s' e) :
    task.Fails ctx s e := by
  cases called with
  | enters inside =>
    obtain ⟨⟨result, next, t⟩ | _, gives, failed⟩ := fails
    · obtain rfl : result = .error e := failed
      obtain ⟨last, answer, passed⟩ | ⟨_, _, _, goes⟩ :=
        Task.passes_or_goesOn inside ⟨.error e, next, t⟩
      · exact ⟨answer, passed.gives inside gives, passed.fails⟩
      · cases goes
    · exact gives.elim
  | begins begun => exact fails.of_mimics (Query.mimics_new begun)
  | turns turned => exact fails.of_mimics (turned.mimics _)
  | goesOn inside inner goes =>
    obtain ⟨answer, gives, failed⟩ := fails
    exact ⟨answer, goes.gives inside inner.gives gives, failed⟩
  | ruleEnters dropped unified =>
    obtain ⟨⟨result, body, t⟩ | _, gives, failed⟩ := fails
    · obtain rfl : result = .error e := failed
      obtain ⟨next, answered, -⟩ := gives
      exact ⟨.reply ⟨.error e, _, t⟩,
        Query.rule_enters dropped unified _ (Query.applying_passes answered nofun), rfl⟩
    · exact gives.elim
  | ruleReturns dropped unified inner =>
    exact fails.of_mimics ((Query.rule_enters dropped unified).trans
      (Query.applying_returns (Query.Gives.resumes inner.gives)))
  | collectEnters =>
    obtain ⟨_ | ⟨found, t⟩, gives, failed⟩ := fails
    · exact gives.elim
    · obtain rfl : found = .error e := failed
      exact ⟨.reply _, (Query.collect_failed gives).gives, rfl⟩

/-- A call that fails in the end is one of a task that fails. -/
theorem Comes.fails {n : Nat} (comes : Comes ctx n task s trace task' s')
    (fails : task'.Fails ctx s' e) : task.Fails ctx s e := by
  induction comes with
  | stays => exact fails
  | goes called _ ih => exact called.fails (ih fails)

theorem Task.SortsInVain.fails (vain : task.SortsInVain ctx s) : task.Fails ctx s .panicked := by
  obtain ⟨n, trace, task', t, items, comes, sorts, unordered⟩ := vain
  exact comes.fails (sorts.fails unordered)

theorem Task.SortsInVain.of_call (called : Calls ctx task s trace task' s')
    (vain : task'.SortsInVain ctx s') : task.SortsInVain ctx s := by
  obtain ⟨n, later, last, t, items, comes, sorts⟩ := vain
  exact ⟨n + 1, trace ++ later, last, t, items, .goes called comes, sorts⟩

-- Nothing but a call of an action panics.

theorem State.reroll_ne_panicked (s : State) (c : Choicepoint) : s.reroll c ≠ .error .panicked := by
  unfold reroll
  split <;> nofun

namespace Search

theorem afterReroll_ne_panicked (s : State) (c : Choicepoint) (event : Event) (next : Search) :
    (afterReroll s c event next).result ≠ .error .panicked := by
  unfold afterReroll
  split
  · nofun
  · rename_i lost
    intro same
    obtain rfl := Except.error.inj same
    exact s.reroll_ne_panicked c lost

theorem holdOrUndo_ne_panicked (c : Choicepoint) (done : Bool × State) :
    (holdOrUndo c done).result ≠ .error .panicked := by
  obtain ⟨_ | _, t⟩ := done
  · exact afterReroll_ne_panicked t c .exhausted .spent
  · nofun

theorem conclude_perform_ne_panicked (c : Choicepoint) (deed : Deed) (mind : Mind) (s : State) :
    (conclude c (deed.perform mind s)).result ≠ .error .panicked := by
  cases performed : deed.perform mind s with
  | mk result t =>
    cases result with
    | ok holds => exact holdOrUndo_ne_panicked c (holds, t)
    | error e =>
      intro same
      obtain rfl := Except.error.inj same
      cases deed with
      | delay duration millis =>
        rw [State.perform_delay] at performed
        split at performed <;> cases performed
      | _ => cases performed

theorem groupOf_ne_panicked (scope : Scope) (goal : Term) :
    groupOf scope goal ≠ .error .panicked := by
  unfold groupOf
  split
  · nofun
  · split <;> nofun

theorem ofGoal_ne_panicked (ctx : Context) (scope : Scope) (goal : Term) :
    ofGoal ctx scope goal ≠ .error .panicked := by
  unfold ofGoal
  split
  case h_8 =>
    split
    · unfold call
      split <;> nofun
    · nofun
  all_goals nofun

/-- A search that panics at once runs the plan of `.sort`. -/
theorem Ends.sortsInVain {search : Search} {found : Reply Search}
    (ended : search.Ends ctx s trace found) (settled : search.Settled)
    (panics : found.result = .error .panicked) (g : Term) :
    (Task.resume (.running g search)).SortsInVain ctx s := by
  have sorts {plan : Plan} {view : View} (calm : plan.Calm)
      (raised : plan.RaisesIn view .panicked) (same : view.scope = s.scope) :
      (Task.resume (.running g (.planned plan))).SortsInVain ctx s := by
    obtain ⟨args, rfl, input, output, items, rfl, ground, unordered⟩ := calm view raised
    exact ⟨0, [], _, s, items, .stays, ⟨g, input, output, rfl, same ▸ ground⟩, unordered⟩
  cases ended with
  | actFails ran =>
    obtain rfl := Except.error.inj panics
    exact sorts settled.2 (Script.raises_of_run ran) rfl
  | offerFails ran =>
    obtain rfl := Except.error.inj panics
    exact sorts settled.2 (Script.raises_of_run ran) rfl
  | act ran => exact absurd panics (conclude_perform_ne_panicked _ _ _ _)
  | held => exact absurd panics (afterReroll_ne_panicked _ _ _ _)
  | choosingLost lost | recallingLost lost =>
    obtain rfl := Except.error.inj panics
    exact absurd lost (s.reroll_ne_panicked _)
  | recallingStuck ungrouped =>
    obtain rfl := Except.error.inj panics
    exact absurd ungrouped (groupOf_ne_panicked _ _)
  | choosingOver | choosingFound | spent | recallingFinished | factFound | rulesOver =>
    cases panics

end Search

theorem Task.Passes.panics {reply : Reply Query} {last : List Happening} {answer : Answer}
    (passed : task.Passes reply last answer) (panics : answer.Fails .panicked) :
    reply.result = .error .panicked := by
  cases passed with
  | applying | conjRight | disj | negation => exact panics
  | conj | disjRight => exact (Query.ofSearch_result _ _).symm.trans panics
  | negationRefuted | negationHolds =>
    exact absurd ((Query.ofSearch_result _ _).symm.trans panics)
      (Search.afterReroll_ne_panicked _ _ _ _)
  | gatherFails =>
    obtain rfl := Except.error.inj panics
    rfl
  | conjWaits | gatherEnds => cases panics

/-- A settled task that panics has come to a sequence without an order. -/
theorem Course.sortsInVain {rank : Group → Nat} (stratified : ctx.Stratified rank)
    {answer : Answer} (course : Course ctx task s trace answer) (settled : task.Settled)
    (panics : answer.Fails .panicked) : task.SortsInVain ctx s := by
  induction course with
  | done => cases panics
  | stuck failed =>
    obtain rfl := Except.error.inj panics
    exact absurd failed (Search.ofGoal_ne_panicked _ _ _)
  | begins begun rest ih =>
    exact .of_call (.begins begun) (ih (Search.ofGoal_settled stratified settled begun) panics)
  | ends ended =>
    exact ended.sortsInVain settled ((Query.ofSearch_result _ _).symm.trans panics) _
  | turns turned rest ih => exact .of_call (.turns turned) (ih (turned.settled settled) panics)
  | passes inside inner passed ih =>
    exact .of_call (.enters inside) (ih (settled.inner inside) (passed.panics panics))
  | goesOn inside inner goes rest ihInner ihRest =>
    have onward := goes.settled settled (inner.settled stratified (settled.inner inside))
    exact .of_call (.goesOn inside inner goes) (ihRest onward panics)
  | ruleFails dropped unified inner ih =>
    have member := List.mem_of_mem_drop (dropped ▸ List.mem_cons_self)
    exact .of_call (.ruleEnters dropped unified) (ih (stratified.body member _) panics)
  | rulePasses => cases panics
  | ruleReturns dropped unified inner rest ihInner ihRest =>
    exact .of_call (.ruleReturns dropped unified inner) (ihRest trivial panics)
  | collectFails inner ih =>
    obtain rfl := Except.error.inj panics
    exact .of_call .collectEnters (ih (settled.1 _ rfl) rfl)
  | collects =>
    exact absurd ((Query.ofSearch_result _ _).symm.trans panics)
      (Search.holdOrUndo_ne_panicked _ _)

/-- A resumption of a settled query panics exactly if it comes to a sequence without an order. -/
theorem Query.panics_iff {rank : Group → Nat} (stratified : ctx.Stratified rank) {q : Query}
    (settled : q.Settled) {reply : Reply Query} (answered : q.Resumes ctx s reply) :
    reply.result = .error .panicked ↔ (Task.resume q).SortsInVain ctx s := by
  constructor
  · intro panics
    obtain ⟨trace, course⟩ := answered.course
    exact course.sortsInVain stratified settled panics
  · intro vain
    obtain ⟨r | _, gives, failed⟩ := vain.fails
    · obtain ⟨next, other, -⟩ := gives
      rw [answered.unique other]
      exact failed
    · exact gives.elim

end Deliberation
