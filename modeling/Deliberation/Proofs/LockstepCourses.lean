import Deliberation.Proofs.Courses
import Deliberation.Proofs.PairedResumption
import Deliberation.Proofs.UniformActions

/-! Resumptions in lockstep. Where one query answers without an error, a query that is paired with it
gives the same answer in a state in step with its own. The proof follows the course of the one
resumption and rebuilds the other from the rules of the evaluator. -/
namespace Deliberation

variable {P P' : Pairing} {below below' : Trail}

open Query (factTry ruleTry Mimics Gathers ofSearch running)

namespace State

variable {s s' : State}

theorem InStep.attempt (states : s.InStep below below' P s') {left left' right right' : Term}
    (lefts : left.Paired P left') (rights : right.Paired P right') :
    ∃ P', P.Extends P' ∧ P'.marks s.mark.1 s'.mark.1 ∧
      (s.mark.2.unify left right).1 = (s'.mark.2.unify left' right').1 ∧
      (s.mark.2.unify left right).2.InStep below below' P' (s'.mark.2.unify left' right').2 := by
  obtain ⟨P', more, same, marked⟩ := states.mark
  exact ⟨P', more, same, marked.unify (lefts.mono more) (rights.mono more)⟩

theorem InStep.attempt_found (states : s.InStep below below' P s') {left left' right right' : Term}
    (lefts : left.Paired P left') (rights : right.Paired P right') {t : State}
    (unified : s.mark.2.unify left right = (true, t)) :
    ∃ P' t', P.Extends P' ∧ P'.marks s.mark.1 s'.mark.1 ∧
      s'.mark.2.unify left' right' = (true, t') ∧ t.InStep below below' P' t' := by
  obtain ⟨P', more, same, answers, after⟩ := states.attempt lefts rights
  rw [unified] at answers after
  exact ⟨P', (s'.mark.2.unify left' right').2, more, same, Prod.ext answers.symm rfl, after⟩

theorem InStep.attempt_missed (states : s.InStep below below' P s')
    {left left' right right' : Term} (lefts : left.Paired P left') (rights : right.Paired P right')
    {t back : State} (unified : s.mark.2.unify left right = (false, t))
    (undone : t.reroll s.mark.1 = .ok back) :
    ∃ P' t' back', P.Extends P' ∧ s'.mark.2.unify left' right' = (false, t') ∧
      t'.reroll s'.mark.1 = .ok back' ∧ back.InStep below below' P' back' := by
  obtain ⟨P', more, same, answers, after⟩ := states.attempt lefts rights
  rw [unified] at answers after
  obtain ⟨back', undone', returned⟩ := after.reroll same undone
  exact ⟨P', (s'.mark.2.unify left' right').2, back', more, Prod.ext answers.symm rfl, undone',
    returned⟩

theorem InStep.factTry (states : s.InStep below below' P s') {fact : Term}
    (stored : fact.Paired P fact) :
    ∃ P', P.Extends P' ∧ (factTry s fact).1.Paired P' (factTry s' fact).1 ∧
      (factTry s fact).2.InStep below below' P' (factTry s' fact).2 := by
  obtain ⟨above, above', -, -, paired⟩ := states.paired
  obtain ⟨P', more, candidates, after⟩ := paired.factTry stored
  exact ⟨P', more.toExtends, candidates, states.takes more after.fits (Scope.before_freeze ..)⟩

theorem InStep.ruleTry (states : s.InStep below below' P s') {rule : Rule}
    (head : rule.head.Paired P rule.head) (body : rule.body.Paired P rule.body) :
    ∃ P', P.Extends P' ∧ (ruleTry s rule).1.Paired P' (ruleTry s' rule).1 ∧
      (ruleTry s rule).2.1.Paired P' (ruleTry s' rule).2.1 ∧
      (ruleTry s rule).2.2.InStep below below' P' (ruleTry s' rule).2.2 := by
  obtain ⟨above, above', -, -, paired⟩ := states.paired
  obtain ⟨P', more, heads, bodies, after⟩ := paired.ruleTry head body
  exact ⟨P', more.toExtends, heads, bodies, states.takes more after.fits
    ((Scope.before_freeze ..).trans (Scope.before_freeze ..))⟩

/-- A rule whose head has unified is entered on both sides. -/
theorem InStep.rule_entered {ctx : Context} (states : s.InStep below below' P s')
    (mind : ctx.mind.Paired P ctx.mind) {goal goal' : Term} (goals : goal.Paired P goal')
    {group : Group} {i : Nat} {rule : Rule} {rules : List Rule}
    (dropped : (ctx.mind.beliefs.rules group).drop i = rule :: rules) {t : State}
    (unified : (Query.ruleTry s rule).2.2.mark.2.unify goal (Query.ruleTry s rule).1 = (true, t)) :
    ∃ P' t', P.Extends P' ∧ goal.Paired P' goal' ∧
      P'.marks (Query.ruleTry s rule).2.2.mark.1 (Query.ruleTry s' rule).2.2.mark.1 ∧
      (Query.ruleTry s rule).2.1.Paired P' (Query.ruleTry s' rule).2.1 ∧
      (Query.ruleTry s' rule).2.2.mark.2.unify goal' (Query.ruleTry s' rule).1 = (true, t') ∧
      t.InStep below below' P' t' := by
  have member : rule ∈ ctx.mind.beliefs.rules group :=
    List.mem_of_mem_drop (dropped ▸ List.mem_cons_self)
  obtain ⟨head, body⟩ := mind.rules group rule member
  obtain ⟨P₁, more₁, heads, bodies, tries⟩ := states.ruleTry head body
  obtain ⟨P₂, t', more₂, same, unified', entered⟩ :=
    tries.attempt_found (goals.mono more₁) heads unified
  have more := more₁.trans more₂
  exact ⟨P₂, t', more, goals.mono more, same, bodies.mono more₂, unified', entered⟩

theorem InStep.freeze (states : s.InStep below below' P s') {names names' : Renaming}
    (known : names.Paired P names') {t t' : Term} (terms : t.Paired P t') :
    ∃ P', P.Extends P' ∧
      (s.scope.freeze t names s.platform.supply).1.Paired P'
        (s'.scope.freeze t' names' s'.platform.supply).1 ∧
      (s.scope.freeze t names s.platform.supply).2.1.Paired P'
        (s'.scope.freeze t' names' s'.platform.supply).2.1 ∧
      (s.withSupply (s.scope.freeze t names s.platform.supply).2.2).InStep below below' P'
        (s'.withSupply (s'.scope.freeze t' names' s'.platform.supply).2.2) := by
  obtain ⟨P', more, value, names, fits⟩ := states.scope.freeze terms known states.fits
  exact ⟨P', more.toExtends, value, names, states.takes more fits (Scope.before_freeze ..)⟩

/-- Both intentions wait, or neither does. -/
theorem InStep.isWaiting (states : s.InStep below below' P s') :
    s'.intention.isWaiting s'.readClock.1 = s.intention.isWaiting s.readClock.1 := by
  rw [Intention.isWaiting, Intention.isWaiting, states.deadline, states.readClock.1]

end State

/-- The answer is no error. -/
inductive Reply.Succeeds {σ : Type} : Reply σ → Prop where
  | ok {event : Event} {next : σ} {s : State} : Succeeds ⟨.ok event, next, s⟩

/-- The same event at paired stages and in states that are in step. -/
inductive Reply.InStep {σ : Type} (stages : Pairing → σ → σ → Prop) (below below' : Trail)
    (P : Pairing) : Reply σ → Reply σ → Prop where
  | ok {P' : Pairing} {event : Event} {next next' : σ} {s s' : State} (more : P.Extends P')
      (nexts : stages P' next next') (states : s.InStep below below' P' s') :
      InStep stages below below' P ⟨.ok event, next, s⟩ ⟨.ok event, next', s'⟩

theorem Reply.InStep.weaken {σ : Type} {stages : Pairing → σ → σ → Prop} (more : P.Extends P')
    {reply reply' : Reply σ} (replies : reply.InStep stages below below' P' reply') :
    reply.InStep stages below below' P reply' := by
  cases replies with
  | ok more' nexts states => exact .ok (more.trans more') nexts states

theorem Reply.InStep.ofSearch {reply reply' : Reply Search}
    (replies : reply.InStep Search.Paired below below' P reply') (g g' : Term) :
    (ofSearch g reply).InStep Query.Paired below below' P (ofSearch g' reply') := by
  cases replies with
  | @ok _ event _ _ _ _ more nexts states =>
    cases event with
    | exhausted => exact .ok more .done states
    | _ => exact .ok more (.running nexts) states

namespace Search

variable {ctx : Context} {s s' t : State} {search search' next : Search} {trace : List Happening}

theorem afterReroll_inStep (states : s.InStep below below' P s') {c d : Choicepoint}
    (same : P.marks c d) {event : Event} {next next' : Search} (nexts : next.Paired P next')
    (success : (afterReroll s c event next).Succeeds) :
    (afterReroll s c event next).InStep Search.Paired below below' P
      (afterReroll s' d event next') := by
  unfold afterReroll at success ⊢
  cases undone : s.reroll c with
  | error e =>
    rw [undone] at success
    cases success
  | ok back =>
    obtain ⟨back', undone', returned⟩ := states.reroll same undone
    rw [undone']
    exact .ok (.refl P) nexts returned

theorem holdOrUndo_inStep {c d : Choicepoint} (same : P.marks c d) {done done' : Bool × State}
    (answers : done.1 = done'.1) (states : done.2.InStep below below' P done'.2)
    (success : (holdOrUndo c done).Succeeds) :
    (holdOrUndo c done).InStep Search.Paired below below' P (holdOrUndo d done') := by
  obtain ⟨holds, s⟩ := done
  obtain ⟨holds', s'⟩ := done'
  obtain rfl : holds = holds' := answers
  cases holds with
  | true => exact .ok (.refl P) (.held same) states
  | false => exact afterReroll_inStep states same .spent success

theorem conclude_inStep {c d : Choicepoint} (same : P.marks c d)
    {done done' : Except Halt Bool × State} (answers : done.1 = done'.1)
    (states : done.2.InStep below below' P done'.2) (success : (conclude c done).Succeeds) :
    (conclude c done).InStep Search.Paired below below' P (conclude d done') := by
  obtain ⟨result, s⟩ := done
  obtain ⟨result', s'⟩ := done'
  obtain rfl : result = result' := answers
  cases result with
  | error e => cases success
  | ok holds => exact holdOrUndo_inStep same rfl states success

/-- The searches of queries that are begun. -/
inductive Abreast (P : Pairing) : Search → Search → Prop where
  | planned {plan plan' : Plan} (plans : plan.InStep P plan') :
      Abreast P (.planned plan) (.planned plan')
  | known {search search' : Search} (searches : search.Paired P search') :
      Abreast P search search'

theorem ofGoal_abreast (uniform : ctx.Uniform) {scope scope' : Scope}
    (scopes : scope.Paired P scope') {goal goal' : Term} (goals : goal.Paired P goal')
    (begun : ofGoal ctx scope goal = .ok search) :
    ∃ search', ofGoal ctx scope' goal' = .ok search' ∧ search.Abreast P search' := by
  have asked := (scopes.walk goals).asked
  rw [ofGoal_eq] at begun ⊢
  generalize (scope.walk goal).asked = what at asked begun
  generalize (scope'.walk goal').asked = what' at asked
  cases asked with
  | truth holds =>
    obtain rfl := Except.ok.inj begun
    exact ⟨_, rfl, .planned (Plan.answer_paired holds).inStep⟩
  | both lefts rights =>
    obtain rfl := Except.ok.inj begun
    exact ⟨_, rfl, .known (.conj (.pending lefts) rights)⟩
  | either lefts rights =>
    obtain rfl := Except.ok.inj begun
    exact ⟨_, rfl, .known (.disj (.pending lefts) rights)⟩
  | absence inners =>
    obtain rfl := Except.ok.inj begun
    exact ⟨_, rfl, .known (.negation (.pending inners) .none)⟩
  | equality lefts rights =>
    obtain rfl := Except.ok.inj begun
    exact ⟨_, rfl, .planned (.once fun more _ =>
      .ok (Deed.unify_paired (lefts.mono more) (rights.mono more)))⟩
  | @call name args args' known terms =>
    simp only [Search.call, ← terms.length_eq] at begun ⊢
    cases found : ctx.actions.lookup name args.length with
    | none =>
      rw [found] at begun
      cases begun
    | some action =>
      rw [found] at begun
      obtain rfl := Except.ok.inj begun
      exact ⟨_, rfl, .planned (uniform _ _ _ found terms)⟩
  | belief literals =>
    obtain rfl := Except.ok.inj begun
    exact ⟨_, rfl, .known (.recalling literals .none)⟩
  | fault kind => cases begun

theorem Ends.inStep (mind : ctx.mind.Paired P ctx.mind) (states : s.InStep below below' P s')
    (searches : search.Abreast P search') {found : Reply Search}
    (ended : search.Ends ctx s trace found) (success : found.Succeeds) (g' : Term) :
    ∃ found', (running g' search').Resumes ctx s' (ofSearch g' found') ∧
      found.InStep Search.Paired below below' P found' := by
  cases ended with
  | actFails | offerFails | choosingLost | recallingLost | recallingStuck => cases success
  | act ran =>
    obtain ⟨plans⟩ | ⟨⟨⟩⟩ := searches
    cases plans with
    | @once decide decide' alike =>
      obtain ⟨P', more, same, marked⟩ := states.mark
      obtain ⟨views, looked⟩ := look_inStep (mind.mono more) marked
      obtain ⟨decided, rfl⟩ := Prod.mk.inj ran
      have deeds := alike more views
      rw [decided] at deeds
      generalize decided' : decide' (look ctx s'.mark.2).1 = r at deeds
      cases deeds with
      | @ok _ deed' deeds =>
        obtain ⟨answers, performed⟩ := looked.perform deeds ctx.mind ctx.mind
        refine ⟨conclude s'.mark.1 (deed'.perform ctx.mind (look ctx s'.mark.2).2), ?_,
          (conclude_inStep same answers performed success).weaken more⟩
        have ran' := @Query.act_runs ctx g' s' fun view => .done (decide' view)
        simp only [runAct, Script.run, decided'] at ran'
        exact ran'
  | choosingOver finished =>
    obtain _ | ⟨_ | ⟨targets, offers, ⟨⟩⟩⟩ := searches
    have nexts := offers.next?
    rw [finished] at nexts
    generalize offered : Candidates.next? _ = r at nexts
    cases nexts
    exact ⟨⟨.ok .exhausted, .spent, s'⟩, Query.choosing_over offered, .ok (.refl P) .spent states⟩
  | choosingFound offered unified =>
    obtain _ | ⟨_ | ⟨targets, offers, ⟨⟩⟩⟩ := searches
    have nexts := offers.next?
    rw [offered] at nexts
    generalize offered' : Candidates.next? _ = r at nexts
    cases nexts with
    | @some _ offer' both =>
      obtain ⟨P', t', more, same, unified', after⟩ :=
        states.attempt_found targets both.1 unified
      exact ⟨⟨.ok .solution, .choosing _ _ (some _), t'⟩, Query.choosing_found offered' unified',
        .ok more (.choosing (targets.mono more) (both.2.mono more) (.some same)) after⟩
  | held =>
    obtain _ | ⟨⟨same⟩⟩ := searches
    exact ⟨_, Query.running_resumes _ 0 rfl, afterReroll_inStep states same .spent success⟩
  | spent =>
    obtain _ | ⟨⟨⟩⟩ := searches
    exact ⟨⟨.ok .exhausted, .spent, s'⟩, Query.spent_ends, .ok (.refl P) .spent states⟩
  | recallingFinished =>
    obtain _ | ⟨_ | _ | _ | ⟨goals, ⟨⟩⟩⟩ := searches
    exact ⟨⟨.ok .exhausted, .recalling _ .finished none, s'⟩, Query.running_resumes _ 0 rfl,
      .ok (.refl P) (.recalling goals .none) states⟩
  | @factFound goal fact group i rest _ _ dropped unified =>
    obtain _ | ⟨_ | _ | _ | ⟨goals, ⟨⟩⟩⟩ := searches
    have member : fact ∈ ctx.mind.beliefs.lookup group :=
      List.mem_of_mem_drop (dropped ▸ List.mem_cons_self)
    obtain ⟨P₁, more₁, candidates, tries⟩ := states.factTry (mind.facts group fact member)
    obtain ⟨P₂, t', more₂, same, unified', after⟩ :=
      tries.attempt_found (goals.mono more₁) candidates unified
    have more := more₁.trans more₂
    exact ⟨⟨.ok .solution, .recalling _ _ (some _), t'⟩, Query.fact_found dropped unified',
      .ok more (.recalling (goals.mono more) (.some same)) after⟩
  | rulesOver dropped =>
    obtain _ | ⟨_ | _ | _ | ⟨goals, ⟨⟩⟩⟩ := searches
    exact ⟨⟨.ok .exhausted, .recalling _ .finished none, s'⟩, Query.rules_over dropped,
      .ok (.refl P) (.recalling goals .none) states⟩

/-- Where one search goes on as another, so does the search beside it. -/
theorem Turns.inStep (mind : ctx.mind.Paired P ctx.mind) (states : s.InStep below below' P s')
    (searches : search.Abreast P search') (turned : search.Turns ctx s trace next t) (g' : Term) :
    ∃ P' next' t', P.Extends P' ∧ next.Abreast P' next' ∧ t.InStep below below' P' t' ∧
      Mimics ctx (running g' search') s' (running g' next') t' := by
  cases turned with
  | offer ran =>
    obtain ⟨plans⟩ | ⟨⟨⟩⟩ := searches
    cases plans with
    | @choices target target' candidates candidates' targets alike =>
      obtain ⟨views, looked⟩ := look_inStep mind states
      obtain ⟨decided, rfl⟩ := Prod.mk.inj ran
      have offers := alike (.refl P) views
      rw [decided] at offers
      generalize decided' : candidates' (look ctx s').1 = r at offers
      cases offers with
      | ok offers =>
        cases offers with
        | @of rest rest' rests =>
          have offered' : ((fun view => Script.done (candidates' view)) (look ctx s').1).run
              (look ctx s').2 = (.ok (.of rest'), (look ctx s').2) :=
            congrArg (·, (look ctx s').2) decided'
          refine ⟨P, _, _, .refl P, ?_, ?_, Query.offer_starts offered'⟩
          · exact .known (.choosing targets rests .none)
          · exact looked.takes (.refl P) looked.fits (.refl _)
  | choosingUndoes undone =>
    obtain _ | ⟨_ | ⟨targets, offers, ⟨same⟩⟩⟩ := searches
    obtain ⟨back', undone', returned⟩ := states.reroll same undone
    exact ⟨P, _, back', .refl P, .known (.choosing targets offers .none), returned,
      Query.choosing_undoes undone'⟩
  | choosingMissed offered unified undone =>
    obtain _ | ⟨_ | ⟨targets, offers, ⟨⟩⟩⟩ := searches
    have nexts := offers.next?
    rw [offered] at nexts
    generalize offered' : Candidates.next? _ = r at nexts
    cases nexts with
    | @some _ offer' both =>
      obtain ⟨P', t', back', more, unified', undone', returned⟩ :=
        states.attempt_missed targets both.1 unified undone
      exact ⟨P', _, back', more, .known (.choosing (targets.mono more) (both.2.mono more) .none),
        returned, Query.choosing_missed offered' unified' undone'⟩
  | recallingUndoes undone =>
    obtain _ | ⟨_ | _ | _ | ⟨goals, ⟨same⟩⟩⟩ := searches
    obtain ⟨back', undone', returned⟩ := states.reroll same undone
    exact ⟨P, _, back', .refl P, .known (.recalling goals .none), returned,
      Query.recalling_undoes undone'⟩
  | recallingStarts grouped =>
    obtain _ | ⟨_ | _ | _ | ⟨goals, ⟨⟩⟩⟩ := searches
    have groups := groupOf_paired states.scope goals
    rw [grouped] at groups
    generalize grouped' : groupOf s'.scope _ = r at groups
    cases groups with
    | ok same =>
      subst same
      exact ⟨P, _, s', .refl P, .known (.recalling goals .none), states,
        Query.recalling_starts grouped'⟩
  | @factMissed goal fact group i rest _ _ _ dropped unified undone =>
    obtain _ | ⟨_ | _ | _ | ⟨goals, ⟨⟩⟩⟩ := searches
    have member : fact ∈ ctx.mind.beliefs.lookup group :=
      List.mem_of_mem_drop (dropped ▸ List.mem_cons_self)
    obtain ⟨P₁, more₁, candidates, tries⟩ := states.factTry (mind.facts group fact member)
    obtain ⟨P₂, t', back', more₂, unified', undone', returned⟩ :=
      tries.attempt_missed (goals.mono more₁) candidates unified undone
    have more := more₁.trans more₂
    exact ⟨P₂, _, back', more, .known (.recalling (goals.mono more) .none), returned,
      Query.fact_missed dropped unified' undone'⟩
  | factsOver dropped =>
    obtain _ | ⟨_ | _ | _ | ⟨goals, ⟨⟩⟩⟩ := searches
    exact ⟨P, _, s', .refl P, .known (.recalling goals .none), states, Query.facts_over dropped⟩
  | @ruleMissed goal rule group i rest _ _ _ dropped unified undone =>
    obtain _ | ⟨_ | _ | _ | ⟨goals, ⟨⟩⟩⟩ := searches
    have member : rule ∈ ctx.mind.beliefs.rules group :=
      List.mem_of_mem_drop (dropped ▸ List.mem_cons_self)
    obtain ⟨head, body⟩ := mind.rules group rule member
    obtain ⟨P₁, more₁, heads, -, tries⟩ := states.ruleTry head body
    obtain ⟨P₂, t', back', more₂, unified', undone', returned⟩ :=
      tries.attempt_missed (goals.mono more₁) heads unified undone
    have more := more₁.trans more₂
    exact ⟨P₂, _, back', more, .known (.recalling (goals.mono more) .none), returned,
      Query.rule_missed dropped unified' undone'⟩
  | negationEnters =>
    obtain _ | ⟨_ | _ | _ | _ | _ | _ | _ | _ | _ | ⟨inners, ⟨⟩⟩⟩ := searches
    obtain ⟨P', more, same, marked⟩ := states.mark
    exact ⟨P', _, _, more, .known (.negation (inners.mono more) (.some same)), marked,
      Query.negation_enters⟩

end Search

/-- Tasks that ask for the same up to numbers. -/
inductive Task.Paired (P : Pairing) : Task → Task → Prop where
  | resume {q q' : Query} (queries : q.Paired P q') : Paired P (.resume q) (.resume q')
  | begun {g g' : Term} {search search' : Search} (searches : search.Abreast P search') :
      Paired P (.resume (.running g search)) (.resume (.running g' search'))
  | gather {pattern pattern' : Term} {q q' : Query} {names names' : Renaming}
      {found found' : List Term} (patterns : pattern.Paired P pattern') (queries : q.Paired P q')
      (known : names.Paired P names') (values : List.Forall₂ (Term.Paired P) found found') :
      Paired P (.gather pattern q names found) (.gather pattern' q' names' found')

theorem Task.Paired.running {g : Term} {search : Search} {task' : Task}
    (tasks : (Task.resume (.running g search)).Paired P task') :
    ∃ g' search', task' = .resume (.running g' search') ∧ search.Abreast P search' := by
  cases tasks with
  | resume queries =>
    cases queries with
    | running searches => exact ⟨_, _, rfl, .known searches⟩
  | begun searches => exact ⟨_, _, rfl, searches⟩

namespace Task.Paired

variable {g : Term} {search : Search} {task task' : Task} {q : Query}

/-- A search that resumes a query is paired with one in the same stage. -/
theorem stage (tasks : (Task.resume (.running g search)).Paired P task')
    (inside : search.inner? = some q) :
    ∃ g' search', task' = .resume (.running g' search') ∧ search.Paired P search' := by
  obtain ⟨g', search', rfl, searches⟩ := tasks.running
  cases searches with
  | planned plans => cases inside
  | known searches => exact ⟨g', search', rfl, searches⟩

theorem inner (tasks : task.Paired P task') (inside : task.inner? = some q) :
    ∃ q', task'.inner? = some q' ∧ q.Paired P q' := by
  have found {search search' : Search} (searches : search.Paired P search')
      (inside : search.inner? = some q) : ∃ q', search'.inner? = some q' ∧ q.Paired P q' := by
    cases searches with
    | applying _ _ inners | conj inners | conjRight _ _ inners | disj inners | disjRight inners =>
      obtain rfl := Option.some.inj inside
      exact ⟨_, rfl, inners⟩
    | negation inners marks =>
      cases marks with
      | none => cases inside
      | some =>
        obtain rfl := Option.some.inj inside
        exact ⟨_, rfl, inners⟩
    | held | choosing | spent | recalling => cases inside
  cases tasks with
  | resume queries =>
    cases queries with
    | running searches => exact found searches inside
    | pending | done => cases inside
  | begun searches =>
    cases searches with
    | planned plans => cases inside
    | known searches => exact found searches inside
  | gather patterns queries known values =>
    obtain rfl := Option.some.inj inside
    exact ⟨_, rfl, queries⟩

end Task.Paired

/-- Unless an answer is an error, a task in some state is answered in the same way, up to numbers and
in step. -/
inductive Answer.Mirrored (ctx : Context) (below below' : Trail) (P : Pairing) :
    Answer → Task → State → Prop where
  | replied {P' : Pairing} {event : Event} {next next' q' : Query} {t t' s' : State}
      (more : P.Extends P') (nexts : next.Paired P' next') (states : t.InStep below below' P' t')
      (answered : q'.Resumes ctx s' ⟨.ok event, next', t'⟩) :
      Mirrored ctx below below' P (.reply ⟨.ok event, next, t⟩) (.resume q') s'
  | gathered {P' : Pairing} {pattern' : Term} {q' : Query} {names' : Renaming}
      {found' values values' : List Term} {t t' s' : State} (more : P.Extends P')
      (terms : List.Forall₂ (Term.Paired P') values values')
      (states : t.InStep below below' P' t')
      (gathers : Gathers ctx pattern' q' names' found' s' (.ok values', t')) :
      Mirrored ctx below below' P (.gathered (.ok values) t) (.gather pattern' q' names' found') s'
  | failed {e : Halt} {next : Query} {t s' : State} {task' : Task} :
      Mirrored ctx below below' P (.reply ⟨.error e, next, t⟩) task' s'
  | gatherFailed {e : Halt} {t s' : State} {task' : Task} :
      Mirrored ctx below below' P (.gathered (.error e) t) task' s'

namespace Answer.Mirrored

variable {ctx : Context} {answer : Answer} {task' : Task} {q' other : Query} {s' s'' : State}
  {reply : Reply Query} {g g' : Term} {search' : Search} {found : Reply Search}

theorem weaken (more : P.Extends P') (mirrored : answer.Mirrored ctx below below' P' task' s') :
    answer.Mirrored ctx below below' P task' s' := by
  cases mirrored with
  | replied more' nexts states answered => exact .replied (more.trans more') nexts states answered
  | gathered more' terms states gathers => exact .gathered (more.trans more') terms states gathers
  | failed => exact .failed
  | gatherFailed => exact .gatherFailed

theorem of_mimics (mimics : Mimics ctx q' s' other s'')
    (mirrored : answer.Mirrored ctx below below' P (.resume other) s'') :
    answer.Mirrored ctx below below' P (.resume q') s' := by
  cases mirrored with
  | replied more nexts states answered =>
    exact .replied more nexts states (mimics.resumes answered)
  | failed => exact .failed
  | gatherFailed => exact .gatherFailed

theorem of_search (answers : found.Succeeds → ∃ found',
      (running g' search').Resumes ctx s' (ofSearch g' found') ∧
      found.InStep Search.Paired below below' P found') :
    (Answer.reply (ofSearch g found)).Mirrored ctx below below' P
      (.resume (running g' search')) s' := by
  obtain ⟨e | event, next, t⟩ := found
  · exact .failed
  · obtain ⟨found', answered, replies⟩ := answers .ok
    have same := replies.ofSearch g g'
    generalize ofSearch g ⟨.ok event, next, t⟩ = reply at same ⊢
    generalize ofSearch g' found' = reply' at same answered
    cases same with
    | ok more nexts states => exact .replied more nexts states answered

theorem of_gather {pattern : Term} {names names' : Renaming} {values values' : List Term}
    (gathers : ∀ {outcome}, Gathers ctx pattern other names' values' s'' outcome →
      Gathers ctx pattern q' names values s' outcome)
    (mirrored : answer.Mirrored ctx below below' P (.gather pattern other names' values') s'') :
    answer.Mirrored ctx below below' P (.gather pattern q' names values) s' := by
  cases mirrored with
  | gathered more terms states gathered => exact .gathered more terms states (gathers gathered)
  | failed => exact .failed
  | gatherFailed => exact .gatherFailed

end Answer.Mirrored

section Stages

variable {ctx : Context} {task task' next : Task} {q' stage stage' : Query} {event : Event}
  {t t' s' : State} {last : List Happening} {answer : Answer}

/-- What a task does with a reply, a task paired with it does with a paired one. -/
theorem Task.Passes.mirrored (passed : task.Passes ⟨.ok event, stage, t⟩ last answer)
    (tasks : task.Paired P task') (inside : task'.inner? = some q') (more : P.Extends P')
    (stages : stage.Paired P' stage') (states : t.InStep below below' P' t')
    (answered : q'.Resumes ctx s' ⟨.ok event, stage', t'⟩) :
    answer.Mirrored ctx below below' P task' s' := by
  cases passed with
  | applying unfinished =>
    obtain ⟨g', _, rfl, searches⟩ := tasks.stage rfl
    cases searches with
    | applying goals same bodies =>
      obtain rfl := Option.some.inj inside
      exact .replied more (.running (.applying (goals.mono more) (more.marks same) stages)) states
        (Query.applying_passes answered unfinished)
  | conj other =>
    obtain ⟨g', _, rfl, searches⟩ := tasks.stage rfl
    cases searches with
    | conj lefts goals =>
      obtain rfl := Option.some.inj inside
      exact .of_search fun _ => ⟨_, Query.conj_passes answered other,
        .ok more (.conj stages (goals.mono more)) states⟩
  | conjWaits waiting =>
    obtain ⟨g', _, rfl, searches⟩ := tasks.stage rfl
    cases searches with
    | conj lefts goals =>
      obtain rfl := Option.some.inj inside
      exact .replied more (.running (.conjRight stages (goals.mono more)
        (.pending (goals.mono more)))) states.readClock.2
        (Query.conj_waits answered (states.isWaiting.trans waiting))
  | conjRight unfinished =>
    obtain ⟨g', _, rfl, searches⟩ := tasks.stage rfl
    cases searches with
    | conjRight lefts goals rights =>
      obtain rfl := Option.some.inj inside
      exact .replied more (.running (.conjRight (lefts.mono more) (goals.mono more) stages)) states
        (Query.conjRight_passes answered unfinished)
  | disj unfinished =>
    obtain ⟨g', _, rfl, searches⟩ := tasks.stage rfl
    cases searches with
    | disj lefts goals =>
      obtain rfl := Option.some.inj inside
      exact .replied more (.running (.disj stages (goals.mono more))) states
        (Query.disj_passes answered unfinished)
  | disjRight =>
    obtain ⟨g', _, rfl, searches⟩ := tasks.stage rfl
    cases searches with
    | disjRight rights =>
      obtain rfl := Option.some.inj inside
      exact .of_search fun _ => ⟨_, Query.disjRight_passes answered,
        .ok more (.disjRight stages) states⟩
  | negation unsolved unfinished =>
    obtain ⟨g', _, rfl, searches⟩ := tasks.stage rfl
    cases searches with
    | negation inners marks =>
      obtain ⟨same⟩ := marks
      obtain rfl := Option.some.inj inside
      exact .replied more (.running (.negation stages (.some (more.marks same)))) states
        (Query.negation_passes answered unsolved unfinished)
  | negationRefuted =>
    obtain ⟨g', _, rfl, searches⟩ := tasks.stage rfl
    cases searches with
    | negation inners marks =>
      obtain ⟨same⟩ := marks
      obtain rfl := Option.some.inj inside
      exact .of_search fun success => ⟨_, Query.negation_refuted answered,
        (Search.afterReroll_inStep states (more.marks same) .spent success).weaken more⟩
  | negationHolds =>
    obtain ⟨g', _, rfl, searches⟩ := tasks.stage rfl
    cases searches with
    | negation inners marks =>
      obtain ⟨same⟩ := marks
      obtain rfl := Option.some.inj inside
      exact .of_search fun success => ⟨_, Query.negation_holds answered,
        (Search.afterReroll_inStep states (more.marks same) .spent success).weaken more⟩
  | gatherEnds =>
    obtain _ | _ | ⟨patterns, queries, known, values⟩ := tasks
    obtain rfl := Option.some.inj inside
    exact .gathered more (List.rel_reverse (terms_mono more values)) states
      (Query.gathers_exhausted answered)

theorem Task.Passes.mirrored_error {e : Halt}
    (passed : task.Passes ⟨.error e, stage, t⟩ last answer) :
    answer.Mirrored ctx below below' P task' s' := by
  cases passed with
  | gatherFails => exact .gatherFailed
  | _ => exact .failed

/-- Where a task goes on, a task paired with it goes on as one that is paired again. -/
theorem Task.GoesOn.mirrored (goes : task.GoesOn ⟨.ok event, stage, t⟩ last next s)
    (tasks : task.Paired P task') (inside : task'.inner? = some q') (more : P.Extends P')
    (stages : stage.Paired P' stage') (states : t.InStep below below' P' t')
    (answered : q'.Resumes ctx s' ⟨.ok event, stage', t'⟩) :
    ∃ P'' next' s'', P.Extends P'' ∧ next.Paired P'' next' ∧ s.InStep below below' P'' s'' ∧
      (answer.Mirrored ctx below below' P'' next' s'' →
        answer.Mirrored ctx below below' P'' task' s') := by
  cases goes with
  | applying =>
    obtain ⟨g', _, rfl, searches⟩ := tasks.stage rfl
    cases searches with
    | applying goals same bodies =>
      obtain rfl := Option.some.inj inside
      exact ⟨P', _, t', more,
        .begun (.known (.recalling (goals.mono more) (.some (more.marks same)))), states,
        .of_mimics (Query.applying_returns answered)⟩
  | conj awake =>
    obtain ⟨g', _, rfl, searches⟩ := tasks.stage rfl
    cases searches with
    | conj lefts goals =>
      obtain rfl := Option.some.inj inside
      have awake' := Bool.eq_false_iff.mp (states.isWaiting.trans awake)
      exact ⟨P', _, _, more, .begun (.known (.conjRight stages (goals.mono more)
        (.pending (goals.mono more)))), states.readClock.2,
        .of_mimics (Query.conj_enters answered awake')⟩
  | conjRight =>
    obtain ⟨g', _, rfl, searches⟩ := tasks.stage rfl
    cases searches with
    | conjRight lefts goals rights =>
      obtain rfl := Option.some.inj inside
      exact ⟨P', _, t', more, .begun (.known (.conj (lefts.mono more) (goals.mono more))), states,
        .of_mimics (Query.conjRight_returns answered)⟩
  | disj =>
    obtain ⟨g', _, rfl, searches⟩ := tasks.stage rfl
    cases searches with
    | disj lefts goals =>
      obtain rfl := Option.some.inj inside
      exact ⟨P', _, t', more, .begun (.known (.disjRight (.pending (goals.mono more)))), states,
        .of_mimics (Query.disj_turns answered)⟩
  | gatherPasses =>
    obtain _ | _ | ⟨patterns, queries, known, values⟩ := tasks
    obtain rfl := Option.some.inj inside
    exact ⟨P', _, t', more, .gather (patterns.mono more) stages (known.mono more)
      (terms_mono more values), states, .of_gather (Query.gathers_suspended answered)⟩
  | gatherFinds frozen =>
    obtain _ | _ | ⟨patterns, queries, known, values⟩ := tasks
    obtain rfl := Option.some.inj inside
    obtain ⟨P'', more', value, names, frozen'⟩ :=
      states.freeze (known.mono more) (patterns.mono more)
    rw [frozen] at value names frozen'
    have all := more.trans more'
    exact ⟨P'', _, _, all, .gather (patterns.mono all) (stages.mono more') names
      (.cons value (terms_mono all values)), frozen',
      .of_gather (Query.gathers_solution answered rfl)⟩

end Stages

/-- A resumption without an error is mirrored wherever a paired task is resumed in step. -/
theorem Course.mirrored {ctx : Context} (uniform : ctx.Uniform) {task task' : Task} {s s' : State}
    {trace : List Happening} {answer : Answer} (course : Course ctx task s trace answer)
    (mind : ctx.mind.Paired P ctx.mind) (tasks : task.Paired P task')
    (states : s.InStep below below' P s') : answer.Mirrored ctx below below' P task' s' := by
  induction course generalizing P task' s' with
  | done =>
    obtain ⟨⟨⟩⟩ := tasks
    exact .replied (.refl P) .done states ⟨1, rfl⟩
  | stuck failed => exact .failed
  | begins begun rest ih =>
    obtain ⟨⟨goals⟩⟩ := tasks
    obtain ⟨search', begun', searches⟩ := Search.ofGoal_abreast uniform states.scope goals begun
    exact .of_mimics (Query.mimics_new begun') (ih mind (.begun searches) states)
  | ends ended =>
    obtain ⟨g', search', rfl, searches⟩ := tasks.running
    exact .of_search fun success => ended.inStep mind states searches success g'
  | turns turned rest ih =>
    obtain ⟨g', search', rfl, searches⟩ := tasks.running
    obtain ⟨P', next', t', more, nexts, after, mimics⟩ := turned.inStep mind states searches g'
    exact .of_mimics mimics (.weaken more (ih (mind.mono more) (.begun nexts) after))
  | passes inside inner passed ih =>
    obtain ⟨q', inside', queries⟩ := tasks.inner inside
    cases ih mind (.resume queries) states with
    | replied more stages after answered =>
      exact passed.mirrored tasks inside' more stages after answered
    | failed => exact passed.mirrored_error
  | goesOn inside inner goes rest ihInner ihRest =>
    obtain ⟨q', inside', queries⟩ := tasks.inner inside
    cases ihInner mind (.resume queries) states with
    | replied more stages after answered =>
      obtain ⟨P', next', s'', more', nexts, onward, mirrors⟩ :=
        goes.mirrored tasks inside' more stages after answered
      exact .weaken more' (mirrors (ihRest (mind.mono more') nexts onward))
    | failed => cases goes
  | ruleFails dropped unified inner ih => exact .failed
  | @rulePasses g goal rule group i _ _ _ _ _ _ _ dropped unified inner unfinished ih =>
    obtain ⟨g', search', rfl, searches⟩ := tasks.running
    obtain _ | ⟨_ | _ | _ | ⟨goals, ⟨⟩⟩⟩ := searches
    obtain ⟨P', t', more, goals, same, bodies, unified', entered⟩ :=
      states.rule_entered mind goals dropped unified
    refine .of_mimics (Query.rule_enters dropped unified') ?_
    cases ih (mind.mono more) (.resume (.pending bodies)) entered with
    | replied more' nexts after answered =>
      exact .replied (more.trans more') (.running (.applying (goals.mono more')
        (more'.marks same) nexts)) after (Query.applying_passes answered (by simpa using unfinished))
  | ruleReturns dropped unified inner rest ihInner ihRest =>
    obtain ⟨g', search', rfl, searches⟩ := tasks.running
    obtain _ | ⟨_ | _ | _ | ⟨goals, ⟨⟩⟩⟩ := searches
    obtain ⟨P', t', more, goals, same, bodies, unified', entered⟩ :=
      states.rule_entered mind goals dropped unified
    refine .of_mimics (Query.rule_enters dropped unified') ?_
    cases ihInner (mind.mono more) (.resume (.pending bodies)) entered with
    | replied more' nexts after answered =>
      have all := more.trans more'
      refine .of_mimics (Query.applying_returns answered) (.weaken all ?_)
      exact ihRest (mind.mono all)
        (.begun (.known (.recalling (goals.mono more') (.some (more'.marks same))))) after
  | collectFails inner ih => exact .failed
  | collects inner ih =>
    obtain ⟨g', search', rfl, searches⟩ := tasks.running
    obtain ⟨plans⟩ | ⟨⟨⟩⟩ := searches
    cases plans with
    | collect patterns goals results =>
      obtain ⟨P', more, same, marked⟩ := states.mark
      cases ih (mind.mono more) (.gather (patterns.mono more) (.pending (goals.mono more))
        (by exact .nil) .nil) marked with
      | gathered more' values after gathers =>
        have all := more.trans more'
        obtain ⟨answers, unified⟩ := after.unify (results.mono all) (.seq values)
        exact .of_search fun success => ⟨_, Query.collect_gathered gathers,
          (Search.holdOrUndo_inStep (more'.marks same) answers unified success).weaken all⟩

end Deliberation
