import Deliberation.Proofs.Echoes
import Deliberation.Proofs.Refinement

/-! Resumptions side by side: whenever a query answers, one that is paired with it echoes the reply.
There is one lemma for each part of the evaluator. -/
namespace Deliberation

variable {P P' : Pairing}

open Query

/-- Whenever a query is resumed in this way, one that is paired with it echoes the reply. -/
def Resumption.Echoed (ctx ctx' : Context) (resume : Resumption) : Prop :=
  ∀ {P q q' s s' reply}, ctx.Paired P ctx' → q.Paired P q' → s.Paired P s' →
    resume q s = some reply → Echo ctx' P reply q' s'

/-- Related results of running a query to its end. -/
inductive Gathered (P : Pairing) :
    Except Halt (List Term) × State → Except Halt (List Term) × State → Prop where
  | ok {P' : Pairing} {found found' : List Term} {s s' : State} (more : P.Extends P')
      (values : List.Forall₂ (Term.Paired P') found found') (states : s.Paired P' s') :
      Gathered P (.ok found, s) (.ok found', s')
  | error {e e' : Halt} {s s' : State} (kind : e.kind = e'.kind) :
      Gathered P (.error e, s) (.error e', s')

theorem Gathered.weaken (more : P.Extends P') {outcome outcome'}
    (gathered : Gathered P' outcome outcome') : Gathered P outcome outcome' := by
  cases gathered with
  | ok more' values states => exact .ok (more.trans more') values states
  | error kind => exact .error kind

theorem Query.Gathers.of_mimics {ctx : Context} {q q' : Query} {s s' : State} {pattern : Term}
    {names : Renaming} {found : List Term} {outcome} (mimics : q.Mimics ctx s q' s')
    (gathers : Gathers ctx pattern q' names found s' outcome) :
    Gathers ctx pattern q names found s outcome := by
  obtain ⟨n, gathered⟩ := gathers
  cases n with
  | zero => simp [Search.gather] at gathered
  | succ n =>
    cases answer : Query.resume ctx (n + 1) q' s' with
    | none => simp [Search.gather, answer] at gathered
    | some reply =>
      obtain ⟨result, next, state⟩ := reply
      simp only [Search.gather, answer] at gathered
      rcases result with e | (_ | _ | _)
      · obtain ⟨last, failed, -⟩ := mimics _ ⟨_, answer⟩
        obtain rfl := Option.some.inj gathered
        exact gathers_failed failed
      · refine gathers_solution (mimics.resumes ⟨_, answer⟩) rfl ?_
        exact ⟨n + 1, Search.gather_mono (fun _ _ _ => id) pattern (Nat.le_succ n) _ _ _ _ _ gathered⟩
      · refine gathers_suspended (mimics.resumes ⟨_, answer⟩) ?_
        exact ⟨n + 1, Search.gather_mono (fun _ _ _ => id) pattern (Nat.le_succ n) _ _ _ _ _ gathered⟩
      · obtain rfl := Option.some.inj gathered
        exact gathers_exhausted (mimics.resumes ⟨_, answer⟩)

/-- What one suspension passes on holds after all of them, with a pause after each. -/
theorem Query.Eventually.elim {ctx : Context} {goal motive : Query → State → Prop}
    {pause : State → State} (paused : ∀ s, State.Undisturbed s (pause s)) {q : Query} {s : State}
    (eventually : Eventually ctx goal q s) (now : ∀ q s, goal q s → motive q s)
    (suspended : ∀ {q s next s'}, q.Resumes ctx s ⟨.ok .suspended, next, s'⟩ →
      motive next (pause s') → motive q s) : motive q s := by
  induction eventually with
  | now reached => exact now _ _ reached
  | suspended answered _ ih => exact suspended answered (ih _ (paused _))

namespace Search

variable {ctx ctx' : Context} {resume : Resumption} (echoed : resume.Echoed ctx ctx')
  {s s' : State} {g g' : Term} {reply : Reply Search}
include echoed

theorem gather_echoed (contexts : ctx.Paired P ctx') {pattern pattern' : Term}
    (patterns : pattern.Paired P pattern') {limit : Nat} {q q' : Query} (queries : q.Paired P q')
    {names names' : Renaming} (known : names.Paired P names') {found found' : List Term}
    (values : List.Forall₂ (Term.Paired P) found found') (states : s.Paired P s') {outcome}
    (gathered : gather resume pattern limit q names found s = some outcome) :
    ∃ outcome', Gathers ctx' pattern' q' names' found' s' outcome' ∧
      Gathered P outcome outcome' := by
  induction limit generalizing P q q' names names' found found' s s' with
  | zero => simp [gather] at gathered
  | succ limit ih =>
    cases answer : resume q s with
    | none => simp [gather, answer] at gathered
    | some inner =>
      refine Eventually.elim .refl (motive := fun q s => ∃ outcome',
        Gathers ctx' pattern' q names' found' s outcome' ∧ Gathered P outcome outcome')
        (echoed contexts queries states answer) ?_ ?_
      · intro q₁ s₁ reached
        simp only [gather, answer] at gathered
        cases reached with
        | lags mimics more nexts states =>
          obtain ⟨outcome', gathers, both⟩ := ih (contexts.mono more) (patterns.mono more) nexts
            (known.mono more) (terms_mono more values) states gathered
          exact ⟨outcome', gathers.of_mimics mimics, both.weaken more⟩
        | answers answered paired =>
          cases paired with
          | error kind =>
            obtain rfl := Option.some.inj gathered
            exact ⟨_, gathers_failed answered, .error kind⟩
          | @ok P' event _ _ t t' more nexts states =>
            cases event with
            | exhausted =>
              obtain rfl := Option.some.inj gathered
              exact ⟨_, gathers_exhausted answered,
                .ok more (List.rel_reverse (terms_mono more values)) states⟩
            | suspended =>
              obtain ⟨outcome', gathers, both⟩ := ih (contexts.mono more) (patterns.mono more) nexts
                (known.mono more) (terms_mono more values) states gathered
              exact ⟨outcome', gathers_suspended answered gathers, both.weaken more⟩
            | solution =>
              obtain ⟨P'', more', value, names, frozen⟩ :=
                states.freeze (known.mono more) (patterns.mono more)
              have all := more.trans more'.toExtends
              obtain ⟨outcome', gathers, both⟩ := ih (contexts.mono all) (patterns.mono all)
                (nexts.mono more'.toExtends) names (.cons value (terms_mono all values)) frozen gathered
              exact ⟨outcome', gathers_solution answered rfl gathers, both.weaken all⟩
      · rintro q₁ s₁ next t answered ⟨outcome', gathers, both⟩
        exact ⟨outcome', gathers_suspended answered gathers, both⟩

theorem runPlan_echoed (contexts : ctx.Paired P ctx') {limit : Nat} (states : s.Paired P s')
    {plan plan' : Plan} (plans : plan.Paired P plan')
    (ran : runPlan ctx resume limit s plan = some reply) :
    Echo ctx' P (ofSearch g reply) (running g' (.planned plan')) s' := by
  cases plans with
  | once alike =>
    obtain rfl := Option.some.inj ran
    exact .of_advance _ (n := 0) rfl (runAct_paired contexts states alike)
  | choices targets alike =>
    obtain rfl := Option.some.inj ran
    exact .of_advance _ (n := 0) rfl (runOffer_paired contexts states targets alike)
  | @collect pattern pattern' goal goal' result result' patterns goals results =>
    obtain ⟨P', more, same, marked⟩ := states.mark
    simp only [runPlan, runCollect] at ran
    cases gathered : gather resume pattern limit (.new goal) [] [] s.mark.2 with
    | none => simp [gathered] at ran
    | some outcome =>
      obtain ⟨outcome', gathers, both⟩ := gather_echoed echoed (contexts.mono more)
        (patterns.mono more) (.pending (goals.mono more)) (by exact .nil) .nil marked gathered
      rw [gathered] at ran
      cases both with
      | error kind =>
        obtain rfl := Option.some.inj ran
        exact .of_resumes (collect_failed gathers) (.error kind)
      | ok more' values states =>
        obtain rfl := Option.some.inj ran
        have all := more.trans more'
        obtain ⟨answers, unified⟩ := states.unify (results.mono all) (.seq values)
        have paired := holdOrUndo_paired (more'.marks same) answers unified
        exact .of_resumes (collect_gathered gathers) ((paired.weaken all).ofSearch g g')

section Beliefs

variable {goal goal' : Term} {group : Group}

section Attempts

omit echoed

variable {next : Nat} {rule : Rule} {rules : List Rule} {fact : Term} {facts : List Term}
  {back : State}

theorem scanFacts_found
    (unified : (factTry s fact).2.mark.2.unify goal (factTry s fact).1 = (true, s')) :
    scanFacts ctx resume goal group next (fact :: facts) s =
      some ⟨.ok .solution, .recalling goal (.facts group (next + 1))
        (some (factTry s fact).2.mark.1), s'⟩ := by
  simp only [factTry] at unified
  simp only [scanFacts, unified, if_true]
  rfl

theorem scanFacts_missed
    (unified : (factTry s fact).2.mark.2.unify goal (factTry s fact).1 = (false, s'))
    (undone : s'.reroll (factTry s fact).2.mark.1 = .ok back) :
    scanFacts ctx resume goal group next (fact :: facts) s =
      scanFacts ctx resume goal group (next + 1) facts back := by
  simp only [factTry] at unified undone
  simp only [scanFacts, unified, Bool.false_eq_true, if_false, undone]

theorem scanRules_missed
    (unified : (ruleTry s rule).2.2.mark.2.unify goal (ruleTry s rule).1 = (false, s'))
    (undone : s'.reroll (ruleTry s rule).2.2.mark.1 = .ok back) :
    scanRules resume goal group next (rule :: rules) s =
      scanRules resume goal group (next + 1) rules back := by
  simp only [ruleTry] at unified undone
  simp only [scanRules, unified, Bool.false_eq_true, if_false, undone]

theorem scanRules_entered
    (unified : (ruleTry s rule).2.2.mark.2.unify goal (ruleTry s rule).1 = (true, s')) :
    scanRules resume goal group next (rule :: rules) s =
      match resume (.new (ruleTry s rule).2.1) s' with
      | none => none
      | some ⟨.error e, _, t⟩ =>
        some ⟨.error e, .recalling goal (.rules group (next + 1))
          (some (ruleTry s rule).2.2.mark.1), t⟩
      | some ⟨.ok .exhausted, _, t⟩ =>
        match t.reroll (ruleTry s rule).2.2.mark.1 with
        | .error e => some ⟨.error e, .recalling goal (.rules group (next + 1)) none, t⟩
        | .ok back => scanRules resume goal group (next + 1) rules back
      | some ⟨.ok event, body, t⟩ =>
        some ⟨.ok event, .applying goal (.rules group (next + 1))
          (ruleTry s rule).2.2.mark.1 body, t⟩ := by
  simp only [ruleTry] at unified ⊢
  simp only [scanRules, unified]
  rfl

/-- A choicepoint that is not there any more cannot be undone. -/
theorem recalling_stuck {cursor : Cursor} {d : Choicepoint} {e : Halt}
    (missing : s.reroll d = .error e) :
    (running g (.recalling goal cursor (some d))).Resumes ctx s
      ⟨.error e, running g (.recalling goal cursor none), s⟩ := by
  refine running_resumes ⟨.error e, .recalling goal cursor none, s⟩ 0 ?_
  simp only [advance, undoAndScan, State.rerollIf, missing]

variable {cursor : Cursor} {c d : Choicepoint}

/-- Where the last solution is undone before the search goes on. -/
theorem undo_echoes (states : s.Paired P s') (same : P.marks c d)
    (stuck : ∀ e, s.reroll c = .error e → ∃ last, reply = ⟨.error e, last, s⟩)
    (onward : ∀ back back', s.reroll c = .ok back → back.Paired P back' →
      Echo ctx' P (ofSearch g reply) (running g' (.recalling goal' cursor none)) back') :
    Echo ctx' P (ofSearch g reply) (running g' (.recalling goal' cursor (some d))) s' := by
  have undo := states.reroll same
  generalize undone : s.reroll c = r at undo
  generalize undone' : s'.reroll d = r' at undo
  cases undo with
  | error kind =>
    obtain ⟨last, rfl⟩ := stuck _ undone
    exact .of_resumes (recalling_stuck undone') (.error kind)
  | ok states => exact .of_mimics (recalling_undoes undone') (onward _ _ undone states)

/-- The body of a rule hands on what it finds, and leaves to the next rule when it is exhausted. -/
theorem body_echoes {inner : Reply Query} {body' : Query} (echo : Echo ctx' P inner body' s')
    (goals : goal.Paired P goal') (same : P.marks c d)
    (passed : ∀ {event next t}, inner = ⟨.ok event, next, t⟩ → event ≠ .exhausted →
      reply = ⟨.ok event, .applying goal cursor c next, t⟩)
    (failed : ∀ {e next t}, inner = ⟨.error e, next, t⟩ → ∃ last, reply = ⟨.error e, last, t⟩)
    (returned : ∀ {next t}, inner = ⟨.ok .exhausted, next, t⟩ → ∀ {P' t'}, P.Extends P' →
      t.Paired P' t' →
      Echo ctx' P' (ofSearch g reply) (running g' (.recalling goal' cursor (some d))) t') :
    Echo ctx' P (ofSearch g reply) (running g' (.applying goal' cursor d body')) s' := by
  obtain ⟨e | (_ | _ | _), next, t⟩ := inner
  · obtain ⟨last, rfl⟩ := failed rfl
    exact aroundBody.echo_error echo
  · obtain rfl := passed rfl (by simp)
    refine aroundBody.echo_onward echo (by simp) fun more nexts states answered => ?_
    exact .of_resumes (applying_passes answered (by simp))
      (.ok (.refl _) (.running (.applying (goals.mono more) (more.marks same) nexts)) states)
  · obtain rfl := passed rfl (by simp)
    exact aroundBody.echo_suspended echo fun more nexts =>
      .applying (goals.mono more) (more.marks same) nexts
  · refine aroundBody.echo_onward echo (by simp) fun more nexts states answered => ?_
    exact .of_mimics (applying_returns answered) (returned rfl more states)

end Attempts

theorem scanRules_echoed (contexts : ctx.Paired P ctx') (goals : goal.Paired P goal') {next : Nat}
    {rules : List Rule} (dropped : (ctx.mind.beliefs.rules group).drop next = rules)
    (states : s.Paired P s') (scanned : scanRules resume goal group next rules s = some reply) :
    Echo ctx' P (ofSearch g reply) (running g' (.recalling goal' (.rules group next) none)) s' := by
  induction rules generalizing P next s s' with
  | nil =>
    obtain rfl := Option.some.inj scanned
    rw [← contexts.mind.beliefs] at dropped
    exact .of_resumes (rules_over dropped) (.ok (.refl P) .done states)
  | cons rule rules ih =>
    have member : rule ∈ ctx.mind.beliefs.rules group :=
      List.mem_of_mem_drop (dropped ▸ List.mem_cons_self)
    obtain ⟨head, body⟩ := contexts.mind.rules group rule member
    obtain ⟨P₁, more₁, heads, bodies, tries⟩ := states.ruleTry head body
    obtain ⟨P₂, more₂, same, outcome⟩ := tries.attempt (goals.mono more₁.toExtends) heads
    have more := more₁.toExtends.trans more₂
    have onward := drop_succ_of_cons dropped
    rw [← contexts.mind.beliefs] at dropped
    obtain ⟨t, t', tried, tried', unified⟩ |
      ⟨t, t', back, back', tried, tried', undone, undone', states⟩ := outcome
    · rw [scanRules_entered tried] at scanned
      refine .of_mimics (rule_enters dropped tried') (.weaken more ?_)
      cases answer : resume (.new (ruleTry s rule).2.1) t with
      | none => simp [answer] at scanned
      | some inner =>
        have echo := echoed (contexts.mono more) (.pending (bodies.mono more₂)) unified answer
        rw [answer] at scanned
        refine body_echoes echo (goals.mono more) same ?_ ?_ ?_
        · rintro (_ | _ | _) body t rfl event
          · exact (Option.some.inj scanned).symm
          · exact (Option.some.inj scanned).symm
          · exact absurd rfl event
        · rintro e body t rfl
          exact ⟨_, (Option.some.inj scanned).symm⟩
        · rintro body t rfl P₃ t' more₃ states
          dsimp only at scanned
          refine undo_echoes states (more₃.marks same) ?_ ?_
          · intro e missing
            rw [missing] at scanned
            exact ⟨_, (Option.some.inj scanned).symm⟩
          · intro back back' undone states
            rw [undone] at scanned
            have all := more.trans more₃
            exact ih (contexts.mono all) (goals.mono all) onward states scanned
    · rw [scanRules_missed tried undone] at scanned
      refine .of_mimics (rule_missed dropped tried' undone') (.weaken more ?_)
      exact ih (contexts.mono more) (goals.mono more) onward states scanned

theorem scanFacts_echoed (contexts : ctx.Paired P ctx') (goals : goal.Paired P goal') {next : Nat}
    {facts : List Term} (dropped : (ctx.mind.beliefs.lookup group).drop next = facts)
    (states : s.Paired P s')
    (scanned : scanFacts ctx resume goal group next facts s = some reply) :
    Echo ctx' P (ofSearch g reply) (running g' (.recalling goal' (.facts group next) none)) s' := by
  induction facts generalizing P next s s' with
  | nil =>
    rw [← contexts.mind.beliefs] at dropped
    exact .of_mimics (facts_over dropped) (scanRules_echoed echoed contexts goals rfl states scanned)
  | cons fact facts ih =>
    have member : fact ∈ ctx.mind.beliefs.lookup group :=
      List.mem_of_mem_drop (dropped ▸ List.mem_cons_self)
    obtain ⟨P₁, more₁, candidates, tries⟩ := states.factTry (contexts.mind.facts group fact member)
    obtain ⟨P₂, more₂, same, outcome⟩ := tries.attempt (goals.mono more₁.toExtends) candidates
    have more := more₁.toExtends.trans more₂
    have onward := drop_succ_of_cons dropped
    rw [← contexts.mind.beliefs] at dropped
    obtain ⟨t, t', tried, tried', unified⟩ |
      ⟨t, t', back, back', tried, tried', undone, undone', states⟩ := outcome
    · rw [scanFacts_found tried] at scanned
      obtain rfl := Option.some.inj scanned
      exact .of_resumes (fact_found dropped tried')
        (.ok more (.running (.recalling (goals.mono more) (.some same))) unified)
    · rw [scanFacts_missed tried undone] at scanned
      refine .of_mimics (fact_missed dropped tried' undone') (.weaken more ?_)
      exact ih (contexts.mono more) (goals.mono more) onward states scanned

omit echoed in
theorem groupOf_paired {scope scope' : Scope} (scopes : scope.Paired P scope')
    (goals : goal.Paired P goal') : Agree Eq (groupOf scope goal) (groupOf scope' goal') := by
  have walked := scopes.walk goals
  have groups := walked.group?
  unfold groupOf
  generalize scope.walk goal = value at walked groups
  generalize scope'.walk goal' = value' at walked groups
  cases walked with
  | lit known args annots => exact .ok (Option.some.inj groups)
  | _ => exact .error rfl

theorem scan_echoed (contexts : ctx.Paired P ctx') (goals : goal.Paired P goal')
    (states : s.Paired P s') {cursor : Cursor} (scanned : scan ctx resume goal s cursor = some reply) :
    Echo ctx' P (ofSearch g reply) (running g' (.recalling goal' cursor none)) s' := by
  cases cursor with
  | start =>
    have groups : Agree Eq (groupOf s.scope goal) (groupOf s'.scope goal') :=
      groupOf_paired states.bindings.scope goals
    simp only [scan] at scanned
    generalize grouped : groupOf s.scope goal = r at groups scanned
    generalize grouped' : groupOf s'.scope goal' = r' at groups
    cases groups with
    | ok same =>
      subst same
      exact .of_mimics (recalling_starts grouped')
        (scanFacts_echoed echoed contexts goals rfl states scanned)
    | @error _ e' kind =>
      obtain rfl := Option.some.inj scanned
      refine .of_advance ⟨.error e', .recalling goal' .start none, s'⟩ (n := 0) ?_ (.error kind)
      simp only [advance, undoAndScan, State.rerollIf, scan, grouped']
  | facts group next => exact scanFacts_echoed echoed contexts goals rfl states scanned
  | rules group next => exact scanRules_echoed echoed contexts goals rfl states scanned
  | finished =>
    obtain rfl := Option.some.inj scanned
    exact .of_advance _ (n := 0) rfl (.ok (.refl P) (.recalling goals .none) states)

theorem undoAndScan_echoed (contexts : ctx.Paired P ctx') (goals : goal.Paired P goal')
    (states : s.Paired P s') {cursor : Cursor} {mark mark' : Option Choicepoint}
    (marks : Option.Rel P.marks mark mark')
    (scanned : undoAndScan ctx resume goal cursor mark s = some reply) :
    Echo ctx' P (ofSearch g reply) (running g' (.recalling goal' cursor mark')) s' := by
  cases marks with
  | none => exact scan_echoed echoed contexts goals states scanned
  | some same =>
    simp only [undoAndScan, State.rerollIf] at scanned
    refine undo_echoes states same ?_ ?_
    · intro e missing
      rw [missing] at scanned
      exact ⟨_, (Option.some.inj scanned).symm⟩
    · intro back back' undone states
      rw [undone] at scanned
      exact scan_echoed echoed contexts goals states scanned

theorem resumeBody_echoed (contexts : ctx.Paired P ctx') (goals : goal.Paired P goal')
    (states : s.Paired P s') {cursor : Cursor} {c d : Choicepoint} (same : P.marks c d)
    {body body' : Query} (bodies : body.Paired P body')
    (resumed : resumeBody ctx resume goal cursor c body s = some reply) :
    Echo ctx' P (ofSearch g reply) (running g' (.applying goal' cursor d body')) s' := by
  cases answer : resume body s with
  | none => simp [resumeBody, answer] at resumed
  | some inner =>
    simp only [resumeBody, answer] at resumed
    refine body_echoes (echoed contexts bodies states answer) goals same ?_ ?_ ?_
    · rintro (_ | _ | _) next t rfl event
      · exact (Option.some.inj resumed).symm
      · exact (Option.some.inj resumed).symm
      · exact absurd rfl event
    · rintro e next t rfl
      exact ⟨_, (Option.some.inj resumed).symm⟩
    · rintro next t rfl P' t' more states
      exact undoAndScan_echoed echoed (contexts.mono more) (goals.mono more) states
        (.some (more.marks same)) resumed

end Beliefs

omit echoed in
/-- After a solution of its left conjunct a conjunction goes on with the right one, at once or after
a suspension. -/
theorem conj_goes_on {r : Term} {left next : Query} {reply : Reply Query}
    (answered : left.Resumes ctx s ⟨.ok .solution, next, s'⟩)
    (onward : ∀ s'', State.Undisturbed s' s'' →
      Echo ctx P reply (running g (.conjRight next r (.new r))) s'') :
    Echo ctx P reply (running g (.conj left r)) s := by
  by_cases waiting : s'.readClock.2.intention.isWaiting s'.readClock.1 = true
  · exact .suspended (conj_waits answered waiting) fun s'' undisturbed =>
      onward s'' (s'.readClock_undisturbed.trans undisturbed)
  · exact .of_mimics (conj_enters answered waiting) (onward _ s'.readClock_undisturbed)

/-- The stage of a conjunction, by whether its right conjunct is running. -/
def conjStage (left : Query) (r : Term) : Option Query → Search
  | none => .conj left r
  | some right => .conjRight left r right

theorem resumeConj_echoed (contexts : ctx.Paired P ctx') (states : s.Paired P s') {r r' : Term}
    (goals : r.Paired P r') {limit : Nat} {left left' : Query} (lefts : left.Paired P left')
    {right right' : Option Query} (rights : Option.Rel (Query.Paired P) right right')
    (resumed : resumeConj resume r limit left right s = some reply) :
    Echo ctx' P (ofSearch g reply) (running g' (conjStage left' r' right')) s' := by
  induction limit generalizing P s s' left left' right right' with
  | zero => simp [resumeConj] at resumed
  | succ limit ih =>
    cases rights with
    | @some right right' rights =>
      cases answer : resume right s with
      | none => simp [resumeConj, answer] at resumed
      | some inner =>
        have echo := echoed contexts rights states answer
        simp only [resumeConj, answer] at resumed
        obtain ⟨e | (_ | _ | _), next, t⟩ := inner
        · obtain rfl := Option.some.inj resumed
          exact aroundConjRight.echo_error echo
        · obtain rfl := Option.some.inj resumed
          refine aroundConjRight.echo_onward echo (by simp) fun more nexts states answered => ?_
          exact .of_resumes (conjRight_passes answered (by simp))
            (.ok (.refl _) (.running (.conjRight (lefts.mono more) (goals.mono more) nexts)) states)
        · obtain rfl := Option.some.inj resumed
          exact aroundConjRight.echo_suspended echo fun more nexts =>
            .conjRight (lefts.mono more) (goals.mono more) nexts
        · refine aroundConjRight.echo_onward echo (by simp) fun more nexts states answered => ?_
          refine .of_mimics (conjRight_returns answered) ?_
          exact ih (contexts.mono more) states (goals.mono more) (lefts.mono more) .none resumed
    | none =>
      cases answer : resume left s with
      | none => simp [resumeConj, answer] at resumed
      | some inner =>
        have echo := echoed contexts lefts states answer
        simp only [resumeConj, answer] at resumed
        obtain ⟨e | (_ | _ | _), next, t⟩ := inner
        · obtain rfl := Option.some.inj resumed
          exact aroundConj.echo_error echo
        · refine aroundConj.echo_onward echo (by simp) fun more nexts states answered => ?_
          refine conj_goes_on answered fun s'' undisturbed => ?_
          have later := states.later t.readClock_undisturbed undisturbed
          have fresh : Query.Paired _ (.new r) (.new r') := .pending (goals.mono more)
          dsimp only at resumed
          -- Whether to wait is up to each clock, so the other side may have gone on already.
          split at resumed
          · obtain rfl := Option.some.inj resumed
            exact .now (.lags (.refl _ _ _) (.refl _)
              (.running (.conjRight nexts (goals.mono more) fresh)) later)
          · exact ih (contexts.mono more) later (goals.mono more) nexts (.some fresh) resumed
        · obtain rfl := Option.some.inj resumed
          exact aroundConj.echo_suspended echo fun more nexts => .conj nexts (goals.mono more)
        · obtain rfl := Option.some.inj resumed
          refine aroundConj.echo_onward echo (by simp) fun more nexts states answered => ?_
          exact .of_resumes (conj_passes answered (by simp)) (.ok (.refl _) .done states)

theorem resumeDisjRight_echoed (contexts : ctx.Paired P ctx') (states : s.Paired P s')
    {right right' : Query} (rights : right.Paired P right')
    (resumed : resumeDisjRight resume right s = some reply) :
    Echo ctx' P (ofSearch g reply) (running g' (.disjRight right')) s' := by
  cases answer : resume right s with
  | none => simp [resumeDisjRight, answer] at resumed
  | some inner =>
    have echo := echoed contexts rights states answer
    simp only [resumeDisjRight, answer] at resumed
    obtain rfl := Option.some.inj resumed
    obtain ⟨e | (_ | _ | _), next, t⟩ := inner
    · exact aroundDisjRight.echo_error echo
    · refine aroundDisjRight.echo_onward echo (by simp) fun more nexts states answered => ?_
      exact .of_resumes (disjRight_passes answered) (.ok (.refl _) (.running (.disjRight nexts)) states)
    · exact aroundDisjRight.echo_suspended echo fun _ nexts => .disjRight nexts
    · refine aroundDisjRight.echo_onward echo (by simp) fun more nexts states answered => ?_
      exact .of_resumes (disjRight_passes answered) (.ok (.refl _) .done states)

theorem resumeDisj_echoed (contexts : ctx.Paired P ctx') (states : s.Paired P s') {r r' : Term}
    (goals : r.Paired P r') {left left' : Query} (lefts : left.Paired P left')
    (resumed : resumeDisj resume left r s = some reply) :
    Echo ctx' P (ofSearch g reply) (running g' (.disj left' r')) s' := by
  cases answer : resume left s with
  | none => simp [resumeDisj, answer] at resumed
  | some inner =>
    have echo := echoed contexts lefts states answer
    simp only [resumeDisj, answer] at resumed
    obtain ⟨e | (_ | _ | _), next, t⟩ := inner
    · obtain rfl := Option.some.inj resumed
      exact aroundDisj.echo_error echo
    · obtain rfl := Option.some.inj resumed
      refine aroundDisj.echo_onward echo (by simp) fun more nexts states answered => ?_
      exact .of_resumes (disj_passes answered (by simp))
        (.ok (.refl _) (.running (.disj nexts (goals.mono more))) states)
    · obtain rfl := Option.some.inj resumed
      exact aroundDisj.echo_suspended echo fun more nexts => .disj nexts (goals.mono more)
    · refine aroundDisj.echo_onward echo (by simp) fun more nexts states answered => ?_
      refine .of_mimics (disj_turns answered) ?_
      exact resumeDisjRight_echoed echoed (contexts.mono more) states (.pending (goals.mono more))
        resumed

theorem resumeNegation_echoed (contexts : ctx.Paired P ctx') (states : s.Paired P s')
    {c d : Choicepoint} (same : P.marks c d) {inner inner' : Query} (inners : inner.Paired P inner')
    (resumed : resumeNegation resume inner c s = some reply) :
    Echo ctx' P (ofSearch g reply) (running g' (.negation inner' (some d))) s' := by
  cases answer : resume inner s with
  | none => simp [resumeNegation, answer] at resumed
  | some first =>
    have echo := echoed contexts inners states answer
    simp only [resumeNegation, answer] at resumed
    obtain ⟨e | (_ | _ | _), next, t⟩ := first
    · obtain rfl := Option.some.inj resumed
      exact aroundNegation.echo_error echo
    · obtain rfl := Option.some.inj resumed
      refine aroundNegation.echo_onward echo (by simp) fun more nexts states answered => ?_
      exact .of_resumes (aroundNegation.resumes answered fun _ => rfl)
        ((afterReroll_paired states (more.marks same) _ .spent).ofSearch g g')
    · obtain rfl := Option.some.inj resumed
      exact aroundNegation.echo_suspended echo fun more nexts =>
        .negation nexts (.some (more.marks same))
    · obtain rfl := Option.some.inj resumed
      refine aroundNegation.echo_onward echo (by simp) fun more nexts states answered => ?_
      exact .of_resumes (aroundNegation.resumes answered fun _ => rfl)
        ((afterReroll_paired states (more.marks same) _ .spent).ofSearch g g')

/-- The search of a query that is begun. -/
inductive Begun (P : Pairing) : Search → Search → Prop where
  | planned {plan plan' : Plan} (plans : plan.Paired P plan') :
      Begun P (.planned plan) (.planned plan')
  | known {search search' : Search} (searches : search.Paired P search') : Begun P search search'

theorem advance_echoed (contexts : ctx.Paired P ctx') (states : s.Paired P s') {limit : Nat}
    {search search' : Search} (searches : Begun P search search')
    (advanced : search.advance ctx resume limit s = some reply) :
    Echo ctx' P (ofSearch g reply) (running g' search') s' := by
  rcases searches with plans | searches
  · exact runPlan_echoed echoed contexts states plans advanced
  · cases searches with
    | held same =>
      obtain rfl := Option.some.inj advanced
      exact .of_advance _ (n := 0) rfl (afterReroll_paired states same .exhausted .spent)
    | @choosing target target' rest rest' mark mark' targets offers marks =>
      have undo := states.rerollIf marks
      simp only [advance] at advanced
      generalize s.rerollIf _ = r at undo advanced
      generalize undone : s'.rerollIf _ = r' at undo
      cases undo with
      | ok states =>
        obtain rfl := Option.some.inj advanced
        exact .of_advance _ (n := 0) (by simp only [advance, undone])
          (choose_paired targets offers states)
      | error kind =>
        obtain rfl := Option.some.inj advanced
        refine .of_advance ⟨.error _, .choosing target' rest' none, s'⟩ (n := 0) ?_ (.error kind)
        simp only [advance, undone]
    | spent =>
      obtain rfl := Option.some.inj advanced
      exact .of_advance _ (n := 0) rfl (.ok (.refl P) .spent states)
    | recalling goals marks =>
      exact undoAndScan_echoed echoed contexts goals states marks advanced
    | applying goals same bodies =>
      exact resumeBody_echoed echoed contexts goals states same bodies advanced
    | conj lefts goals => exact resumeConj_echoed echoed contexts states goals lefts .none advanced
    | conjRight lefts goals rights =>
      exact resumeConj_echoed echoed contexts states goals lefts (.some rights) advanced
    | disj lefts goals => exact resumeDisj_echoed echoed contexts states goals lefts advanced
    | disjRight rights => exact resumeDisjRight_echoed echoed contexts states rights advanced
    | negation inners marks =>
      cases marks with
      | some same => exact resumeNegation_echoed echoed contexts states same inners advanced
      | none =>
        obtain ⟨P', more, same, marked⟩ := states.mark
        refine .of_mimics negation_enters (.weaken more ?_)
        exact resumeNegation_echoed echoed (contexts.mono more) marked same (inners.mono more)
          advanced

end Search

/-- What is asked for is the same up to numbers. -/
inductive Asked.Paired (P : Pairing) : Asked → Asked → Prop where
  | truth (holds : Bool) : Paired P (.truth holds) (.truth holds)
  | both {left left' right right' : Term} (lefts : left.Paired P left')
      (rights : right.Paired P right') : Paired P (.both left right) (.both left' right')
  | either {left left' right right' : Term} (lefts : left.Paired P left')
      (rights : right.Paired P right') : Paired P (.either left right) (.either left' right')
  | absence {inner inner' : Term} (inners : inner.Paired P inner') :
      Paired P (.absence inner) (.absence inner')
  | equality {left left' right right' : Term} (lefts : left.Paired P left')
      (rights : right.Paired P right') : Paired P (.equality left right) (.equality left' right')
  | call {name : String} {args args' : List Term} (known : P.literals name args.length)
      (terms : List.Forall₂ (Term.Paired P) args args') :
      Paired P (.call name args) (.call name args')
  | belief {functor : String} {args args' annots annots' : List Term}
      (literals : Term.Paired P (.lit functor args annots) (.lit functor args' annots')) :
      Paired P (.belief functor args annots) (.belief functor args' annots')
  | fault {e e' : Halt} (kind : e.kind = e'.kind) : Paired P (.fault e) (.fault e')

/-- A literal that is no connective is a call or a belief by its name. -/
theorem Term.asked_plain {f : String} {xs ys as bs : List Term}
    (args : List.Forall₂ (Term.Paired P) xs ys) (annots : List.Forall₂ (Term.Paired P) as bs)
    (noTruth : f = "true" → xs = [] → as = [] → False)
    (noFalsity : f = "false" → xs = [] → as = [] → False)
    (noBoth : ∀ left right, f = "&" → xs = [left, right] → False)
    (noEither : ∀ left right, f = "|" → xs = [left, right] → False)
    (noAbsence : ∀ inner, f = "not" → xs = [inner] → False)
    (noEquality : ∀ left right, f = "=" → xs = [left, right] → False) :
    (Term.lit f ys bs).asked = if isActionName f then .call f ys else .belief f ys bs := by
  have two {left right : Term} (same : ys = [left, right]) : ∃ left right, xs = [left, right] := by
    subst same
    obtain _ | ⟨_, _ | ⟨_, _ | _⟩⟩ := args
    exact ⟨_, _, rfl⟩
  rw [Term.asked]
  · rintro rfl rfl rfl
    cases args
    cases annots
    exact noTruth rfl rfl rfl
  · rintro rfl rfl rfl
    cases args
    cases annots
    exact noFalsity rfl rfl rfl
  · rintro left right rfl same
    obtain ⟨left, right, same⟩ := two same
    exact noBoth left right rfl same
  · rintro left right rfl same
    obtain ⟨left, right, same⟩ := two same
    exact noEither left right rfl same
  · rintro inner rfl rfl
    obtain _ | ⟨_, _ | _⟩ := args
    exact noAbsence _ rfl rfl
  · rintro left right rfl same
    obtain ⟨left, right, same⟩ := two same
    exact noEquality left right rfl same

theorem Term.Paired.asked {t t' : Term} (paired : t.Paired P t') : t.asked.Paired P t'.asked := by
  have kept := paired
  fun_cases Term.asked t with
  | case1 v =>
    cases paired
    exact .fault rfl
  | case2 =>
    obtain _ | _ | _ | _ | ⟨known, _ | _, _ | _⟩ := paired
    exact .truth true
  | case3 =>
    obtain _ | _ | _ | _ | ⟨known, _ | _, _ | _⟩ := paired
    exact .truth false
  | case4 left right annots =>
    obtain _ | _ | _ | _ | ⟨known, _ | ⟨lefts, _ | ⟨rights, _ | _⟩⟩, annots⟩ := paired
    exact .both lefts rights
  | case5 left right annots =>
    obtain _ | _ | _ | _ | ⟨known, _ | ⟨lefts, _ | ⟨rights, _ | _⟩⟩, annots⟩ := paired
    exact .either lefts rights
  | case6 inner annots =>
    obtain _ | _ | _ | _ | ⟨known, _ | ⟨inners, _ | _⟩, annots⟩ := paired
    exact .absence inners
  | case7 left right annots =>
    obtain _ | _ | _ | _ | ⟨known, _ | ⟨lefts, _ | ⟨rights, _ | _⟩⟩, annots⟩ := paired
    exact .equality lefts rights
  | case8 f xs as noTruth noFalsity noBoth noEither noAbsence noEquality action =>
    cases paired with
    | lit known args annots =>
      rw [asked_plain args annots noTruth noFalsity noBoth noEither noAbsence noEquality,
        if_pos action]
      exact .call known args
  | case9 f xs as noTruth noFalsity noBoth noEither noAbsence noEquality belief =>
    cases paired with
    | lit known args annots =>
      rw [asked_plain args annots noTruth noFalsity noBoth noEither noAbsence noEquality,
        if_neg belief]
      exact .belief kept
  | case10 _ noVar _ _ _ _ _ _ noLiteral =>
    cases paired with
    | var => exact absurd rfl (noVar _)
    | lit => exact absurd rfl (noLiteral _ _ _)
    | _ => exact .fault rfl

open Search in
/-- Paired goals begin with paired searches. -/
theorem Search.ofGoal_paired {ctx ctx' : Context} (contexts : ctx.Paired P ctx')
    {scope scope' : Scope} (scopes : scope.Paired P scope') {goal goal' : Term}
    (goals : goal.Paired P goal') :
    Agree (Begun P) (ofGoal ctx scope goal) (ofGoal ctx' scope' goal') := by
  have asked := (scopes.walk goals).asked
  rw [ofGoal_eq, ofGoal_eq]
  generalize (scope.walk goal).asked = what at asked
  generalize (scope'.walk goal').asked = what' at asked
  cases asked with
  | truth holds => exact .ok (.planned (Plan.answer_paired holds))
  | both lefts rights => exact .ok (.known (.conj (.pending lefts) rights))
  | either lefts rights => exact .ok (.known (.disj (.pending lefts) rights))
  | absence inners => exact .ok (.known (.negation (.pending inners) .none))
  | equality lefts rights =>
    exact .ok (.planned (.once fun more _ =>
      .ok (Deed.unify_paired (lefts.mono more) (rights.mono more))))
  | @call name args args' known terms =>
    simp only [Search.call, contexts.actions, ← terms.length_eq]
    cases found : ctx.actions.lookup name args.length with
    | none => exact .error rfl
    | some action => exact .ok (.planned (contexts.calls known found terms))
  | belief literals => exact .ok (.known (.recalling literals .none))
  | fault kind => exact .error kind

/-- Resuming is echoed: paired queries in paired states and contexts give the same events. -/
theorem Query.resume_echoed (ctx ctx' : Context) (limit : Nat) :
    Resumption.Echoed ctx ctx' (Query.resume ctx limit) := by
  induction limit with
  | zero =>
    intro P q q' s s' reply contexts queries states resumed
    simp [resume] at resumed
  | succ limit ih =>
    intro P q q' s s' reply contexts queries states resumed
    have searched {g g' : Term} {search search' : Search} (searches : Search.Begun P search search')
        (mapped : (search.advance ctx (resume ctx limit) limit s).map (ofSearch g) =
          some reply) : Echo ctx' P reply (running g' search') s' := by
      obtain ⟨inner, advanced, rfl⟩ := Option.map_eq_some_iff.mp mapped
      exact Search.advance_echoed ih contexts states searches advanced
    cases queries with
    | @pending goal goal' goals =>
      have begun : Agree (Search.Begun P) (Search.ofGoal ctx s.scope goal)
          (Search.ofGoal ctx' s'.scope goal') :=
        Search.ofGoal_paired contexts states.bindings.scope goals
      simp only [resume, advance] at resumed
      generalize Search.ofGoal ctx s.scope goal = r at begun resumed
      generalize first : Search.ofGoal ctx' s'.scope goal' = r' at begun
      cases begun with
      | ok searches => exact .of_mimics (mimics_new first) (searched searches resumed)
      | error kind =>
        obtain rfl := Option.some.inj resumed
        exact .of_resumes (new_fails first) (.error kind)
    | running searches => exact searched (.known searches) resumed
    | done =>
      obtain rfl := Option.some.inj resumed
      exact .of_resumes ⟨1, rfl⟩ (.ok (.refl P) .done states)

end Deliberation
