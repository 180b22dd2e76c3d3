import Deliberation.Proofs.Growth
import Deliberation.Proofs.ResumptionRules

/-! The course of a resumption: the states that the evaluator comes to, the clauses that it uses and
the readings of the clock that it compares deadlines with, in the order in which they happen. A
search ends at once, turns into another search, or waits for the courses of the queries inside it.
Every answer of the evaluator is the end of a course. -/
namespace Deliberation

/-- What is stored in a belief base. -/
inductive Clause where
  | fact (fact : Term)
  | rule (rule : Rule)

def Clause.vars : Clause → List Var
  | fact t => t.vars
  | rule r => r.head.vars ++ r.body.vars

inductive Happening where
  | state (s : State)
  /-- A copy of a stored clause with fresh variables, and the states before and after they are
  taken. -/
  | use (stored copy : Clause) (s s' : State)
  /-- A conjunction looks whether the intention waits; the state is the one after the reading. -/
  | check (now : Time) (s : State)

namespace Happening

def before : Happening → State
  | state s => s
  | use _ _ s _ => s
  | check _ s => s

def after : Happening → State
  | state s => s
  | use _ _ _ s' => s'
  | check _ s => s

end Happening

open Query (factTry ruleTry)

/-- The use of a fact. -/
def Happening.ofFact (s : State) (fact : Term) : Happening :=
  .use (.fact fact) (.fact (factTry s fact).1) s (factTry s fact).2

/-- The use of a rule. -/
def Happening.ofRule (s : State) (rule : Rule) : Happening :=
  .use (.rule rule) (.rule ⟨(ruleTry s rule).1, (ruleTry s rule).2.1⟩) s (ruleTry s rule).2.2

namespace Search

/-- A search replies without resuming a query. -/
inductive Ends (ctx : Context) : Search → State → List Happening → Reply Search → Prop where
  | actFails {steps : View → Script Deed} {s s' : State} {e : Halt}
      (ran : (steps (look ctx s.mark.2).1).run (look ctx s.mark.2).2 = (.error e, s')) :
      Ends ctx (.planned (.act steps)) s [.state s, .state s'] ⟨.error e, .spent, s'⟩
  | act {steps : View → Script Deed} {s s' : State} {deed : Deed}
      (ran : (steps (look ctx s.mark.2).1).run (look ctx s.mark.2).2 = (.ok deed, s')) :
      Ends ctx (.planned (.act steps)) s
        [.state s, .state s', .state (deed.perform ctx.mind s').2,
          .state (conclude s.mark.1 (deed.perform ctx.mind s')).state]
        (conclude s.mark.1 (deed.perform ctx.mind s'))
  | offerFails {target : Term} {steps : View → Script Offer} {s s' : State} {e : Halt}
      (ran : (steps (look ctx s).1).run (look ctx s).2 = (.error e, s')) :
      Ends ctx (.planned (.offer target steps)) s [.state s, .state s'] ⟨.error e, .spent, s'⟩
  | choosingLost {target : Term} {rest : Candidates} {c : Choicepoint} {s : State}
      {e : Halt} (lost : s.reroll c = .error e) :
      Ends ctx (.choosing target rest (some c)) s [.state s]
        ⟨.error e, .choosing target rest none, s⟩
  | choosingOver {target : Term} {rest : Candidates} {s : State} (finished : rest.next? = none) :
      Ends ctx (.choosing target rest none) s [.state s] ⟨.ok .exhausted, .spent, s⟩
  | choosingFound {target candidate : Term} {rest more : Candidates} {s s' : State}
      (offered : rest.next? = some (candidate, more))
      (unified : s.mark.2.unify target candidate = (true, s')) :
      Ends ctx (.choosing target rest none) s [.state s, .state s']
        ⟨.ok .solution, .choosing target more (some s.mark.1), s'⟩
  | held {c : Choicepoint} {s : State} :
      Ends ctx (.held c) s [.state s, .state (afterReroll s c .exhausted .spent).state]
        (afterReroll s c .exhausted .spent)
  | spent {s : State} : Ends ctx .spent s [.state s] ⟨.ok .exhausted, .spent, s⟩
  | recallingLost {goal : Term} {cursor : Cursor} {c : Choicepoint} {s : State} {e : Halt}
      (lost : s.reroll c = .error e) :
      Ends ctx (.recalling goal cursor (some c)) s [.state s]
        ⟨.error e, .recalling goal cursor none, s⟩
  | recallingStuck {goal : Term} {s : State} {e : Halt}
      (ungrouped : groupOf s.scope goal = .error e) :
      Ends ctx (.recalling goal .start none) s [.state s] ⟨.error e, .recalling goal .start none, s⟩
  | recallingFinished {goal : Term} {s : State} :
      Ends ctx (.recalling goal .finished none) s [.state s]
        ⟨.ok .exhausted, .recalling goal .finished none, s⟩
  | factFound {goal fact : Term} {group : Group} {i : Nat} {rest : List Term} {s s' : State}
      (dropped : (ctx.mind.beliefs.lookup group).drop i = fact :: rest)
      (unified : (factTry s fact).2.mark.2.unify goal (factTry s fact).1 = (true, s')) :
      Ends ctx (.recalling goal (.facts group i) none) s
        [.state s, .ofFact s fact, .state s']
        ⟨.ok .solution, .recalling goal (.facts group (i + 1)) (some (factTry s fact).2.mark.1), s'⟩
  | rulesOver {goal : Term} {group : Group} {i : Nat} {s : State}
      (dropped : (ctx.mind.beliefs.rules group).drop i = []) :
      Ends ctx (.recalling goal (.rules group i) none) s [.state s]
        ⟨.ok .exhausted, .recalling goal .finished none, s⟩

/-- A search goes on as another one without resuming a query. -/
inductive Turns (ctx : Context) : Search → State → List Happening → Search → State → Prop where
  | offer {target : Term} {steps : View → Script Offer} {offer : Offer} {s s' : State}
      (ran : (steps (look ctx s).1).run (look ctx s).2 = (.ok offer, s')) :
      Turns ctx (.planned (.offer target steps)) s [.state s, .state s']
        (.choosing target (offer.candidates (s'.platform.supply.freshVars offer.fresh).1) none)
        (s'.withSupply (s'.platform.supply.freshVars offer.fresh).2)
  | choosingUndoes {target : Term} {rest : Candidates} {c : Choicepoint} {s s' : State}
      (undone : s.reroll c = .ok s') :
      Turns ctx (.choosing target rest (some c)) s [.state s] (.choosing target rest none) s'
  | choosingMissed {target candidate : Term} {rest more : Candidates} {s s' back : State}
      (offered : rest.next? = some (candidate, more))
      (unified : s.mark.2.unify target candidate = (false, s'))
      (undone : s'.reroll s.mark.1 = .ok back) :
      Turns ctx (.choosing target rest none) s [.state s, .state s']
        (.choosing target more none) back
  | recallingUndoes {goal : Term} {cursor : Cursor} {c : Choicepoint} {s s' : State}
      (undone : s.reroll c = .ok s') :
      Turns ctx (.recalling goal cursor (some c)) s [.state s] (.recalling goal cursor none) s'
  | recallingStarts {goal : Term} {group : Group} {s : State}
      (grouped : groupOf s.scope goal = .ok group) :
      Turns ctx (.recalling goal .start none) s [.state s] (.recalling goal (.facts group 0) none) s
  | factMissed {goal fact : Term} {group : Group} {i : Nat} {rest : List Term}
      {s s' back : State} (dropped : (ctx.mind.beliefs.lookup group).drop i = fact :: rest)
      (unified : (factTry s fact).2.mark.2.unify goal (factTry s fact).1 = (false, s'))
      (undone : s'.reroll (factTry s fact).2.mark.1 = .ok back) :
      Turns ctx (.recalling goal (.facts group i) none) s [.state s, .ofFact s fact, .state s']
        (.recalling goal (.facts group (i + 1)) none) back
  | factsOver {goal : Term} {group : Group} {i : Nat} {s : State}
      (dropped : (ctx.mind.beliefs.lookup group).drop i = []) :
      Turns ctx (.recalling goal (.facts group i) none) s [.state s]
        (.recalling goal (.rules group 0) none) s
  | ruleMissed {goal : Term} {rule : Rule} {group : Group} {i : Nat} {rest : List Rule}
      {s s' back : State} (dropped : (ctx.mind.beliefs.rules group).drop i = rule :: rest)
      (unified : (ruleTry s rule).2.2.mark.2.unify goal (ruleTry s rule).1 = (false, s'))
      (undone : s'.reroll (ruleTry s rule).2.2.mark.1 = .ok back) :
      Turns ctx (.recalling goal (.rules group i) none) s [.state s, .ofRule s rule, .state s']
        (.recalling goal (.rules group (i + 1)) none) back
  | negationEnters {inner : Query} {s : State} :
      Turns ctx (.negation inner none) s [.state s] (.negation inner (some s.mark.1)) s.mark.2

end Search

/-- What the evaluator is asked to do: resume a query, or run one to its end and gather snapshots of
a pattern. -/
inductive Task where
  | resume (q : Query)
  | gather (pattern : Term) (q : Query) (names : Renaming) (found : List Term)

inductive Answer where
  | reply (reply : Reply Query)
  | gathered (found : Except Halt (List Term)) (s : State)

def Answer.state : Answer → State
  | reply r => r.state
  | gathered _ s => s

open Query (ofSearch)

/-- The query that a search resumes first. -/
def Search.inner? : Search → Option Query
  | .applying _ _ _ body => some body
  | .conj left _ => some left
  | .conjRight _ _ right => some right
  | .disj left _ => some left
  | .disjRight right => some right
  | .negation inner (some _) => some inner
  | _ => none

def Task.inner? : Task → Option Query
  | resume (.running _ search) => search.inner?
  | resume _ => none
  | gather _ q _ _ => some q

namespace Task

/-- What the query inside a task replies makes the answer of the task, after what happens last. -/
inductive Passes : Task → Reply Query → List Happening → Answer → Prop where
  | applying {g goal : Term} {cursor : Cursor} {c : Choicepoint} {body next : Query} {t : State}
      {result : Except Halt Event} (unfinished : result ≠ .ok .exhausted) :
      Passes (.resume (.running g (.applying goal cursor c body))) ⟨result, next, t⟩ []
        (.reply ⟨result, .running g (.applying goal cursor c next), t⟩)
  | conj {g r : Term} {left next : Query} {t : State} {result : Except Halt Event}
      (other : result ≠ .ok .solution) :
      Passes (.resume (.running g (.conj left r))) ⟨result, next, t⟩ []
        (.reply (ofSearch g ⟨result, .conj next r, t⟩))
  -- The suspension check: after a solution of the left conjunct the clock is read.
  | conjWaits {g r : Term} {left next : Query} {t : State}
      (waiting : t.intention.isWaiting t.readClock.1 = true) :
      Passes (.resume (.running g (.conj left r))) ⟨.ok .solution, next, t⟩
        [.check t.readClock.1 t.readClock.2]
        (.reply ⟨.ok .suspended, .running g (.conjRight next r (.new r)), t.readClock.2⟩)
  | conjRight {g r : Term} {left right next : Query} {t : State} {result : Except Halt Event}
      (unfinished : result ≠ .ok .exhausted) :
      Passes (.resume (.running g (.conjRight left r right))) ⟨result, next, t⟩ []
        (.reply ⟨result, .running g (.conjRight left r next), t⟩)
  | disj {g r : Term} {left next : Query} {t : State} {result : Except Halt Event}
      (unfinished : result ≠ .ok .exhausted) :
      Passes (.resume (.running g (.disj left r))) ⟨result, next, t⟩ []
        (.reply ⟨result, .running g (.disj next r), t⟩)
  | disjRight {g : Term} {right next : Query} {t : State} {result : Except Halt Event} :
      Passes (.resume (.running g (.disjRight right))) ⟨result, next, t⟩ []
        (.reply (ofSearch g ⟨result, .disjRight next, t⟩))
  | negation {g : Term} {inner next : Query} {c : Choicepoint} {t : State}
      {result : Except Halt Event} (unsolved : result ≠ .ok .solution)
      (unfinished : result ≠ .ok .exhausted) :
      Passes (.resume (.running g (.negation inner (some c)))) ⟨result, next, t⟩ []
        (.reply ⟨result, .running g (.negation next (some c)), t⟩)
  | negationRefuted {g : Term} {inner next : Query} {c : Choicepoint} {t : State} :
      Passes (.resume (.running g (.negation inner (some c)))) ⟨.ok .solution, next, t⟩
        [.state (Search.afterReroll t c .exhausted .spent).state]
        (.reply (ofSearch g (Search.afterReroll t c .exhausted .spent)))
  | negationHolds {g : Term} {inner next : Query} {c : Choicepoint} {t : State} :
      Passes (.resume (.running g (.negation inner (some c)))) ⟨.ok .exhausted, next, t⟩
        [.state (Search.afterReroll t c .solution .spent).state]
        (.reply (ofSearch g (Search.afterReroll t c .solution .spent)))
  | gatherFails {pattern : Term} {q next : Query} {names : Renaming} {found : List Term}
      {t : State} {e : Halt} :
      Passes (.gather pattern q names found) ⟨.error e, next, t⟩ [] (.gathered (.error e) t)
  | gatherEnds {pattern : Term} {q next : Query} {names : Renaming} {found : List Term}
      {t : State} :
      Passes (.gather pattern q names found) ⟨.ok .exhausted, next, t⟩ []
        (.gathered (.ok found.reverse) t)

/-- After what the query inside a task replies, and what happens then, the task goes on as another
one. -/
inductive GoesOn : Task → Reply Query → List Happening → Task → State → Prop where
  | applying {g goal : Term} {cursor : Cursor} {c : Choicepoint} {body next : Query} {t : State} :
      GoesOn (.resume (.running g (.applying goal cursor c body))) ⟨.ok .exhausted, next, t⟩ []
        (.resume (.running g (.recalling goal cursor (some c)))) t
  | conj {g r : Term} {left next : Query} {t : State}
      (awake : t.intention.isWaiting t.readClock.1 = false) :
      GoesOn (.resume (.running g (.conj left r))) ⟨.ok .solution, next, t⟩
        [.check t.readClock.1 t.readClock.2]
        (.resume (.running g (.conjRight next r (.new r)))) t.readClock.2
  | conjRight {g r : Term} {left right next : Query} {t : State} :
      GoesOn (.resume (.running g (.conjRight left r right))) ⟨.ok .exhausted, next, t⟩ []
        (.resume (.running g (.conj left r))) t
  | disj {g r : Term} {left next : Query} {t : State} :
      GoesOn (.resume (.running g (.disj left r))) ⟨.ok .exhausted, next, t⟩ []
        (.resume (.running g (.disjRight (.new r)))) t
  | gatherPasses {pattern : Term} {q next : Query} {names : Renaming} {found : List Term}
      {t : State} :
      GoesOn (.gather pattern q names found) ⟨.ok .suspended, next, t⟩ []
        (.gather pattern next names found) t
  | gatherFinds {pattern value : Term} {q next : Query} {names names' : Renaming}
      {found : List Term} {supply : Supply} {t : State}
      (frozen : t.scope.freeze pattern names t.platform.supply = (value, names', supply)) :
      GoesOn (.gather pattern q names found) ⟨.ok .solution, next, t⟩ []
        (.gather pattern next names' (value :: found)) (t.withSupply supply)

end Task

inductive Course (ctx : Context) : Task → State → List Happening → Answer → Prop where
  | done {g : Term} {s : State} :
      Course ctx (.resume (.done g)) s [.state s] (.reply ⟨.ok .exhausted, .done g, s⟩)
  | stuck {g : Term} {s : State} {e : Halt}
      (failed : Search.ofGoal ctx s.scope g = .error e) :
      Course ctx (.resume (.pending g)) s [.state s] (.reply ⟨.error e, .pending g, s⟩)
  | begins {g : Term} {search : Search} {s : State} {trace : List Happening} {reply : Reply Query}
      (begun : Search.ofGoal ctx s.scope g = .ok search)
      (rest : Course ctx (.resume (.running g search)) s trace (.reply reply)) :
      Course ctx (.resume (.pending g)) s trace (.reply reply)
  | ends {g : Term} {search : Search} {s : State} {trace : List Happening} {found : Reply Search}
      (ended : search.Ends ctx s trace found) :
      Course ctx (.resume (.running g search)) s trace (.reply (ofSearch g found))
  | turns {g : Term} {search next : Search} {s s' : State} {first trace : List Happening}
      {reply : Reply Query} (turned : search.Turns ctx s first next s')
      (rest : Course ctx (.resume (.running g next)) s' trace (.reply reply)) :
      Course ctx (.resume (.running g search)) s (first ++ trace) (.reply reply)
  | passes {task : Task} {q : Query} {s : State} {trace last : List Happening}
      {reply : Reply Query} {answer : Answer} (inside : task.inner? = some q)
      (inner : Course ctx (.resume q) s trace (.reply reply))
      (passed : task.Passes reply last answer) : Course ctx task s (trace ++ last) answer
  | goesOn {task next : Task} {q : Query} {s t : State} {trace last later : List Happening}
      {reply : Reply Query} {answer : Answer} (inside : task.inner? = some q)
      (inner : Course ctx (.resume q) s trace (.reply reply))
      (goes : task.GoesOn reply last next t) (rest : Course ctx next t later answer) :
      Course ctx task s (trace ++ last ++ later) answer
  -- The head of a rule has unified, and its body runs.
  | ruleFails {g goal : Term} {rule : Rule} {group : Group} {i : Nat} {more : List Rule}
      {s s' t : State} {body : Query} {e : Halt} {trace : List Happening}
      (dropped : (ctx.mind.beliefs.rules group).drop i = rule :: more)
      (unified : (ruleTry s rule).2.2.mark.2.unify goal (ruleTry s rule).1 = (true, s'))
      (inner : Course ctx (.resume (.new (ruleTry s rule).2.1)) s' trace
        (.reply ⟨.error e, body, t⟩)) :
      Course ctx (.resume (.running g (.recalling goal (.rules group i) none))) s
        ([.state s, .ofRule s rule] ++ trace)
        (.reply ⟨.error e, .running g (.recalling goal (.rules group (i + 1))
          (some (ruleTry s rule).2.2.mark.1)), t⟩)
  | rulePasses {g goal : Term} {rule : Rule} {group : Group} {i : Nat} {more : List Rule}
      {s s' t : State} {body : Query} {event : Event} {trace : List Happening}
      (dropped : (ctx.mind.beliefs.rules group).drop i = rule :: more)
      (unified : (ruleTry s rule).2.2.mark.2.unify goal (ruleTry s rule).1 = (true, s'))
      (inner : Course ctx (.resume (.new (ruleTry s rule).2.1)) s' trace
        (.reply ⟨.ok event, body, t⟩)) (unfinished : event ≠ .exhausted) :
      Course ctx (.resume (.running g (.recalling goal (.rules group i) none))) s
        ([.state s, .ofRule s rule] ++ trace)
        (.reply ⟨.ok event, .running g (.applying goal (.rules group (i + 1))
          (ruleTry s rule).2.2.mark.1 body), t⟩)
  | ruleReturns {g goal : Term} {rule : Rule} {group : Group} {i : Nat} {more : List Rule}
      {s s' t : State} {body : Query} {trace later : List Happening} {reply : Reply Query}
      (dropped : (ctx.mind.beliefs.rules group).drop i = rule :: more)
      (unified : (ruleTry s rule).2.2.mark.2.unify goal (ruleTry s rule).1 = (true, s'))
      (inner : Course ctx (.resume (.new (ruleTry s rule).2.1)) s' trace
        (.reply ⟨.ok .exhausted, body, t⟩))
      (rest : Course ctx (.resume (.running g (.recalling goal (.rules group (i + 1))
        (some (ruleTry s rule).2.2.mark.1)))) t later (.reply reply)) :
      Course ctx (.resume (.running g (.recalling goal (.rules group i) none))) s
        ([.state s, .ofRule s rule] ++ trace ++ later) (.reply reply)
  | collectFails {g pattern goal result : Term} {s t : State} {e : Halt}
      {trace : List Happening}
      (inner : Course ctx (.gather pattern (.new goal) [] []) s.mark.2 trace
        (.gathered (.error e) t)) :
      Course ctx (.resume (.running g (.planned (.collect pattern goal result)))) s
        (.state s :: trace) (.reply ⟨.error e, .running g .spent, t⟩)
  | collects {g pattern goal result : Term} {s t : State} {found : List Term}
      {trace : List Happening}
      (inner : Course ctx (.gather pattern (.new goal) [] []) s.mark.2 trace
        (.gathered (.ok found) t)) :
      Course ctx (.resume (.running g (.planned (.collect pattern goal result)))) s
        (.state s :: trace ++ [.state (t.unify result (.seq found)).2,
          .state (Search.holdOrUndo s.mark.1 (t.unify result (.seq found))).state])
        (.reply (ofSearch g (Search.holdOrUndo s.mark.1 (t.unify result (.seq found)))))

/-- A way to resume all of whose answers are ends of courses. -/
def Resumption.Follows (ctx : Context) (resume : Resumption) : Prop :=
  ∀ q s reply, resume q s = some reply → ∃ trace, Course ctx (.resume q) s trace (.reply reply)

/-- The reply of a search is the end of a course of every query that holds the search. -/
def Search.Leads (ctx : Context) (search : Search) (s : State) (found : Reply Search) : Prop :=
  ∀ g, ∃ trace, Course ctx (.resume (.running g search)) s trace (.reply (ofSearch g found))

namespace Search

variable {ctx : Context} {resume : Resumption} {s : State}

theorem Ends.leads {search : Search} {trace : List Happening} {found : Reply Search}
    (ended : search.Ends ctx s trace found) : search.Leads ctx s found :=
  fun _ => ⟨trace, .ends ended⟩

theorem Turns.leads {search next : Search} {s' : State} {trace : List Happening}
    {found : Reply Search} (turned : search.Turns ctx s trace next s')
    (leads : next.Leads ctx s' found) : search.Leads ctx s found := by
  intro g
  obtain ⟨more, course⟩ := leads g
  exact ⟨trace ++ more, .turns turned course⟩

theorem choose_leads (target : Term) (rest : Candidates) (s : State) :
    (choosing target rest none).Leads ctx s (choose target rest s) := by
  fun_induction choose target rest s with
  | case1 rest s finished => exact Ends.leads (.choosingOver finished)
  | case2 rest s candidate more offered c marked laid bound unified =>
    obtain ⟨rfl, rfl⟩ : s.mark.1 = c ∧ s.mark.2 = marked := by simp [laid]
    exact Ends.leads (.choosingFound offered unified)
  | case3 rest s candidate more offered c marked laid failed unified e missing =>
    obtain ⟨rfl, rfl⟩ : s.mark.1 = c ∧ s.mark.2 = marked := by simp [laid]
    obtain ⟨back, undone, -⟩ := State.reroll_of_unify unified
    simp [undone] at missing
  | case4 rest s candidate more offered c marked laid failed unified back undone ih =>
    obtain ⟨rfl, rfl⟩ : s.mark.1 = c ∧ s.mark.2 = marked := by simp [laid]
    exact Turns.leads (.choosingMissed offered unified undone) ih

theorem gather_follows (follows : resume.Follows ctx) (pattern : Term) (limit : Nat) (q : Query)
    (names : Renaming) (found : List Term) (s : State) (outcome)
    (gathered : gather resume pattern limit q names found s = some outcome) :
    ∃ trace, Course ctx (.gather pattern q names found) s trace
      (.gathered outcome.1 outcome.2) := by
  induction limit generalizing q names found s with
  | zero => simp [gather] at gathered
  | succ limit ih =>
    cases answer : resume q s with
    | none => simp [gather, answer] at gathered
    | some reply =>
      obtain ⟨trace, inner⟩ := follows q s reply answer
      simp only [gather, answer] at gathered
      obtain ⟨_ | (_ | _ | _), next, state⟩ := reply
      · obtain rfl := Option.some.inj gathered
        exact ⟨_, .passes rfl inner .gatherFails⟩
      · obtain ⟨later, rest⟩ := ih _ _ _ _ gathered
        exact ⟨_, .goesOn rfl inner (.gatherFinds rfl) rest⟩
      · obtain ⟨later, rest⟩ := ih _ _ _ _ gathered
        exact ⟨_, .goesOn rfl inner .gatherPasses rest⟩
      · obtain rfl := Option.some.inj gathered
        exact ⟨_, .passes rfl inner .gatherEnds⟩

theorem runAct_leads (steps : View → Script Deed) :
    (planned (.act steps)).Leads ctx s (runAct ctx steps s) := by
  unfold runAct
  dsimp only
  split
  · rename_i ran
    exact Ends.leads (.actFails ran)
  · rename_i ran
    exact Ends.leads (.act ran)

theorem runOffer_leads (target : Term) (steps : View → Script Offer) :
    (planned (.offer target steps)).Leads ctx s (runOffer ctx target steps s) := by
  unfold runOffer
  dsimp only
  split
  · rename_i ran
    exact Ends.leads (.offerFails ran)
  · rename_i ran
    exact Turns.leads (.offer ran) (choose_leads _ _ _)

theorem runPlan_leads (follows : resume.Follows ctx) (limit : Nat) (plan : Plan) (found)
    (ran : runPlan ctx resume limit s plan = some found) : (planned plan).Leads ctx s found := by
  cases plan with
  | act steps =>
    obtain rfl := Option.some.inj ran
    exact runAct_leads steps
  | offer target steps =>
    obtain rfl := Option.some.inj ran
    exact runOffer_leads target steps
  | collect pattern goal result =>
    intro g
    simp only [runPlan, runCollect] at ran
    cases gathered : gather resume pattern limit (.new goal) [] [] s.mark.2 with
    | none => simp [gathered] at ran
    | some outcome =>
      obtain ⟨trace, inner⟩ := gather_follows follows pattern limit _ _ _ _ _ gathered
      rw [gathered] at ran
      obtain ⟨e | items, t⟩ := outcome
      · obtain rfl := Option.some.inj ran
        exact ⟨_, .collectFails inner⟩
      · obtain rfl := Option.some.inj ran
        exact ⟨_, .collects inner⟩

theorem scanRules_leads (follows : resume.Follows ctx) (goal : Term) (group : Group) (next : Nat)
    (rules : List Rule) (s : State) (found)
    (dropped : (ctx.mind.beliefs.rules group).drop next = rules)
    (scanned : scanRules resume goal group next rules s = some found) :
    (recalling goal (.rules group next) none).Leads ctx s found := by
  induction rules generalizing next s with
  | nil =>
    obtain rfl := Option.some.inj scanned
    exact Ends.leads (.rulesOver dropped)
  | cons rule rest ih =>
    have onward := ih (next + 1)
    rw [Query.drop_succ_of_cons dropped] at onward
    cases unified : (ruleTry s rule).2.2.mark.2.unify goal (ruleTry s rule).1 with
    | mk ok s' =>
      obtain ⟨back, undone, -⟩ := State.reroll_of_unify unified
      have tried := unified
      simp only [ruleTry] at unified undone
      cases ok with
      | false =>
        simp only [scanRules, unified, Bool.false_eq_true, if_false, undone] at scanned
        exact Turns.leads (.ruleMissed dropped tried undone) (onward back rfl scanned)
      | true =>
        cases answer : resume (.new (ruleTry s rule).2.1) s' with
        | none =>
          simp only [ruleTry] at answer
          simp [scanRules, unified, answer] at scanned
        | some inner =>
          obtain ⟨trace, course⟩ := follows _ s' inner answer
          simp only [ruleTry] at answer
          simp only [scanRules, unified, if_true, answer] at scanned
          obtain ⟨e | (_ | _ | _), body, t⟩ := inner
          · obtain rfl := Option.some.inj scanned
            exact fun g => ⟨_, .ruleFails dropped tried course⟩
          · obtain rfl := Option.some.inj scanned
            exact fun g => ⟨_, .rulePasses dropped tried course (by simp)⟩
          · obtain rfl := Option.some.inj scanned
            exact fun g => ⟨_, .rulePasses dropped tried course (by simp)⟩
          · intro g
            dsimp only at scanned
            split at scanned
            · rename_i lost
              obtain rfl := Option.some.inj scanned
              exact ⟨_, .ruleReturns dropped tried course (.ends (.recallingLost lost))⟩
            · rename_i undone
              obtain ⟨later, rest⟩ := onward _ rfl scanned g
              exact ⟨_, .ruleReturns dropped tried course (.turns (.recallingUndoes undone) rest)⟩

theorem scanFacts_leads (follows : resume.Follows ctx) (goal : Term) (group : Group) (next : Nat)
    (facts : List Term) (s : State) (found)
    (dropped : (ctx.mind.beliefs.lookup group).drop next = facts)
    (scanned : scanFacts ctx resume goal group next facts s = some found) :
    (recalling goal (.facts group next) none).Leads ctx s found := by
  induction facts generalizing next s with
  | nil =>
    exact Turns.leads (.factsOver dropped)
      (scanRules_leads follows goal group 0 _ s found List.drop_zero scanned)
  | cons fact rest ih =>
    have onward := ih (next + 1)
    rw [Query.drop_succ_of_cons dropped] at onward
    cases unified : (factTry s fact).2.mark.2.unify goal (factTry s fact).1 with
    | mk ok s' =>
      obtain ⟨back, undone, -⟩ := State.reroll_of_unify unified
      have tried := unified
      simp only [factTry] at unified undone
      cases ok with
      | false =>
        simp only [scanFacts, unified, Bool.false_eq_true, if_false, undone] at scanned
        exact Turns.leads (.factMissed dropped tried undone) (onward back rfl scanned)
      | true =>
        simp only [scanFacts, unified, if_true] at scanned
        obtain rfl := Option.some.inj scanned
        exact Ends.leads (.factFound dropped tried)

theorem scan_leads (follows : resume.Follows ctx) (goal : Term) (cursor : Cursor) (found)
    (scanned : scan ctx resume goal s cursor = some found) :
    (recalling goal cursor none).Leads ctx s found := by
  cases cursor with
  | start =>
    simp only [scan] at scanned
    split at scanned
    · rename_i ungrouped
      obtain rfl := Option.some.inj scanned
      exact Ends.leads (.recallingStuck ungrouped)
    · rename_i group grouped
      refine Turns.leads (.recallingStarts grouped) ?_
      exact scanFacts_leads follows goal group 0 _ s found List.drop_zero scanned
  | facts group next => exact scanFacts_leads follows goal group next _ s found rfl scanned
  | rules group next => exact scanRules_leads follows goal group next _ s found rfl scanned
  | finished =>
    obtain rfl := Option.some.inj scanned
    exact Ends.leads .recallingFinished

theorem undoAndScan_leads (follows : resume.Follows ctx) (goal : Term) (cursor : Cursor)
    (mark : Option Choicepoint) (s : State) (found)
    (scanned : undoAndScan ctx resume goal cursor mark s = some found) :
    (recalling goal cursor mark).Leads ctx s found := by
  cases mark with
  | none => exact scan_leads follows goal cursor found scanned
  | some c =>
    simp only [undoAndScan, State.rerollIf] at scanned
    split at scanned
    · rename_i lost
      obtain rfl := Option.some.inj scanned
      exact Ends.leads (.recallingLost lost)
    · rename_i undone
      exact Turns.leads (.recallingUndoes undone) (scan_leads follows goal cursor found scanned)

theorem resumeBody_leads (follows : resume.Follows ctx) (goal : Term) (cursor : Cursor)
    (c : Choicepoint) (body : Query) (s : State) (found)
    (resumed : resumeBody ctx resume goal cursor c body s = some found) :
    (applying goal cursor c body).Leads ctx s found := by
  intro g
  cases answer : resume body s with
  | none => simp [resumeBody, answer] at resumed
  | some reply =>
    obtain ⟨trace, inner⟩ := follows body s reply answer
    simp only [resumeBody, answer] at resumed
    obtain ⟨_ | (_ | _ | _), next, t⟩ := reply
    · obtain rfl := Option.some.inj resumed
      exact ⟨_, .passes rfl inner (.applying (by simp))⟩
    · obtain rfl := Option.some.inj resumed
      exact ⟨_, .passes rfl inner (.applying (by simp))⟩
    · obtain rfl := Option.some.inj resumed
      exact ⟨_, .passes rfl inner (.applying (by simp))⟩
    · obtain ⟨later, rest⟩ := undoAndScan_leads follows goal cursor (some c) t found resumed g
      exact ⟨_, .goesOn rfl inner .applying rest⟩

/-- The stage of a conjunction with or without a right conjunct that runs. -/
def ofConjuncts (left : Query) (rightGoal : Term) : Option Query → Search
  | none => conj left rightGoal
  | some right => conjRight left rightGoal right

theorem resumeConj_leads (follows : resume.Follows ctx) (rightGoal : Term) (limit : Nat)
    (left : Query) (right : Option Query) (s : State) (found)
    (resumed : resumeConj resume rightGoal limit left right s = some found) :
    (ofConjuncts left rightGoal right).Leads ctx s found := by
  induction limit generalizing left right s with
  | zero => simp [resumeConj] at resumed
  | succ limit ih =>
    intro g
    cases right with
    | some right =>
      cases answer : resume right s with
      | none => simp [resumeConj, answer] at resumed
      | some reply =>
        obtain ⟨trace, inner⟩ := follows right s reply answer
        simp only [resumeConj, answer] at resumed
        obtain ⟨_ | (_ | _ | _), next, t⟩ := reply
        · obtain rfl := Option.some.inj resumed
          exact ⟨_, .passes rfl inner (.conjRight (by simp))⟩
        · obtain rfl := Option.some.inj resumed
          exact ⟨_, .passes rfl inner (.conjRight (by simp))⟩
        · obtain rfl := Option.some.inj resumed
          exact ⟨_, .passes rfl inner (.conjRight (by simp))⟩
        · obtain ⟨later, rest⟩ := ih left none t resumed g
          exact ⟨_, .goesOn rfl inner .conjRight rest⟩
    | none =>
      cases answer : resume left s with
      | none => simp [resumeConj, answer] at resumed
      | some reply =>
        obtain ⟨trace, inner⟩ := follows left s reply answer
        simp only [resumeConj, answer] at resumed
        obtain ⟨_ | (_ | _ | _), next, t⟩ := reply
        · obtain rfl := Option.some.inj resumed
          exact ⟨_, .passes rfl inner (.conj (by simp))⟩
        · dsimp only at resumed
          split at resumed
          · rename_i waiting
            obtain rfl := Option.some.inj resumed
            exact ⟨_, .passes rfl inner (.conjWaits waiting)⟩
          · rename_i awake
            obtain ⟨later, rest⟩ := ih next (some (.new rightGoal)) _ resumed g
            exact ⟨_, .goesOn rfl inner (.conj (Bool.eq_false_iff.mpr awake)) rest⟩
        · obtain rfl := Option.some.inj resumed
          exact ⟨_, .passes rfl inner (.conj (by simp))⟩
        · obtain rfl := Option.some.inj resumed
          exact ⟨_, .passes rfl inner (.conj (by simp))⟩

theorem resumeDisjRight_leads (follows : resume.Follows ctx) (right : Query) (s : State) (found)
    (resumed : resumeDisjRight resume right s = some found) :
    (disjRight right).Leads ctx s found := by
  intro g
  cases answer : resume right s with
  | none => simp [resumeDisjRight, answer] at resumed
  | some reply =>
    obtain ⟨trace, inner⟩ := follows right s reply answer
    simp only [resumeDisjRight, answer, Option.some.injEq] at resumed
    subst found
    exact ⟨_, .passes rfl inner .disjRight⟩

theorem resumeDisj_leads (follows : resume.Follows ctx) (left : Query) (rightGoal : Term)
    (s : State) (found) (resumed : resumeDisj resume left rightGoal s = some found) :
    (disj left rightGoal).Leads ctx s found := by
  intro g
  cases answer : resume left s with
  | none => simp [resumeDisj, answer] at resumed
  | some reply =>
    obtain ⟨trace, inner⟩ := follows left s reply answer
    simp only [resumeDisj, answer] at resumed
    obtain ⟨_ | (_ | _ | _), next, t⟩ := reply
    · obtain rfl := Option.some.inj resumed
      exact ⟨_, .passes rfl inner (.disj (by simp))⟩
    · obtain rfl := Option.some.inj resumed
      exact ⟨_, .passes rfl inner (.disj (by simp))⟩
    · obtain rfl := Option.some.inj resumed
      exact ⟨_, .passes rfl inner (.disj (by simp))⟩
    · obtain ⟨later, rest⟩ := resumeDisjRight_leads follows _ t found resumed g
      exact ⟨_, .goesOn rfl inner .disj rest⟩

theorem resumeNegation_leads (follows : resume.Follows ctx) (inner : Query) (c : Choicepoint)
    (s : State) (found) (resumed : resumeNegation resume inner c s = some found) :
    (negation inner (some c)).Leads ctx s found := by
  intro g
  cases answer : resume inner s with
  | none => simp [resumeNegation, answer] at resumed
  | some reply =>
    obtain ⟨trace, course⟩ := follows inner s reply answer
    simp only [resumeNegation, answer] at resumed
    obtain ⟨_ | (_ | _ | _), next, t⟩ := reply
    · obtain rfl := Option.some.inj resumed
      exact ⟨_, .passes rfl course (.negation (by simp) (by simp))⟩
    · obtain rfl := Option.some.inj resumed
      exact ⟨_, .passes rfl course .negationRefuted⟩
    · obtain rfl := Option.some.inj resumed
      exact ⟨_, .passes rfl course (.negation (by simp) (by simp))⟩
    · obtain rfl := Option.some.inj resumed
      exact ⟨_, .passes rfl course .negationHolds⟩

theorem advance_leads (follows : resume.Follows ctx) (limit : Nat) (search : Search) (found)
    (advanced : search.advance ctx resume limit s = some found) : search.Leads ctx s found := by
  cases search with
  | planned plan => exact runPlan_leads follows limit plan found advanced
  | held c =>
    obtain rfl := Option.some.inj advanced
    exact Ends.leads .held
  | choosing target rest mark =>
    cases mark with
    | none =>
      obtain rfl := Option.some.inj advanced
      exact choose_leads target rest s
    | some c =>
      simp only [advance, State.rerollIf] at advanced
      split at advanced
      · rename_i lost
        obtain rfl := Option.some.inj advanced
        exact Ends.leads (.choosingLost lost)
      · rename_i undone
        obtain rfl := Option.some.inj advanced
        exact Turns.leads (.choosingUndoes undone) (choose_leads _ _ _)
  | spent =>
    obtain rfl := Option.some.inj advanced
    exact Ends.leads .spent
  | recalling goal cursor mark => exact undoAndScan_leads follows goal cursor mark s found advanced
  | applying goal cursor c body =>
    exact resumeBody_leads follows goal cursor c body s found advanced
  | conj left rightGoal => exact resumeConj_leads follows rightGoal limit left none s found advanced
  | conjRight left rightGoal right =>
    exact resumeConj_leads follows rightGoal limit left (some right) s found advanced
  | disj left rightGoal => exact resumeDisj_leads follows left rightGoal s found advanced
  | disjRight right => exact resumeDisjRight_leads follows right s found advanced
  | negation inner mark =>
    cases mark with
    | some c => exact resumeNegation_leads follows inner c s found advanced
    | none =>
      exact Turns.leads .negationEnters (resumeNegation_leads follows inner _ _ found advanced)

end Search

namespace Query

theorem resume_follows (ctx : Context) (limit : Nat) :
    Resumption.Follows ctx (resume ctx limit) := by
  induction limit with
  | zero =>
    intro q s reply resumed
    simp [resume] at resumed
  | succ limit ih =>
    intro q s reply resumed
    have searched (goal : Term) (search : Search)
        (mapped : (search.advance ctx (resume ctx limit) limit s).map (ofSearch goal) =
          some reply) :
        ∃ trace, Course ctx (.resume (.running goal search)) s trace (.reply reply) := by
      obtain ⟨found, advanced, rfl⟩ := Option.map_eq_some_iff.mp mapped
      exact Search.advance_leads ih limit search found advanced goal
    cases q with
    | pending goal =>
      simp only [resume, advance] at resumed
      split at resumed
      · rename_i failed
        obtain rfl := Option.some.inj resumed
        exact ⟨_, .stuck failed⟩
      · rename_i begun
        obtain ⟨trace, rest⟩ := searched goal _ resumed
        exact ⟨trace, .begins begun rest⟩
    | running goal search => exact searched goal search resumed
    | done goal =>
      obtain rfl := Option.some.inj resumed
      exact ⟨_, .done⟩

theorem Resumes.course {ctx : Context} {q : Query} {s : State} {reply : Reply Query}
    (answered : q.Resumes ctx s reply) :
    ∃ trace, Course ctx (.resume q) s trace (.reply reply) := by
  obtain ⟨limit, resumed⟩ := answered
  exact resume_follows ctx limit q s reply resumed

end Query

end Deliberation
