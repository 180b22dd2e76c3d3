import Deliberation.Proofs.ResumptionLimit

/-! The steps of the evaluator as rules without limits: how a query answers, given how the queries
inside it answer. Where a search goes on within one resumption it mimics the search it goes on
as. -/
namespace Deliberation

/-- The query answers with the reply, except that an error may leave another stage. -/
def Query.Gives (ctx : Context) (q : Query) (s : State) (reply : Reply Query) : Prop :=
  ∃ next, q.Resumes ctx s ⟨reply.result, next, reply.state⟩ ∧
    ∀ event, reply.result = .ok event → next = reply.next

/-- The first query answers in its state as the second does in its own, except that an error may
leave another stage. -/
def Query.Mimics (ctx : Context) (q : Query) (s : State) (other : Query) (s' : State) : Prop :=
  ∀ reply, other.Resumes ctx s' reply → q.Gives ctx s reply

namespace Query

variable {ctx : Context} {g : Term} {s s' : State} {search other : Search} {reply : Reply Query}

theorem running_resumes_iff :
    (running g search).Resumes ctx s reply ↔
      ∃ n, (search.advance ctx (Query.resume ctx n) n s).map (ofSearch g) = some reply := by
  constructor
  · rintro ⟨limit, resumed⟩
    cases limit with
    | zero => simp [Query.resume] at resumed
    | succ n => exact ⟨n, resumed⟩
  · rintro ⟨n, advanced⟩
    exact ⟨n + 1, advanced⟩

theorem running_resumes (found : Reply Search) (n : Nat)
    (advanced : search.advance ctx (Query.resume ctx n) n s = some found) :
    (running g search).Resumes ctx s (ofSearch g found) :=
  running_resumes_iff.mpr ⟨n, by rw [advanced]; rfl⟩

/-- Two answers under one limit. -/
theorem Resumes.together {q : Query} {first : Reply Query} (one : q.Resumes ctx s first)
    (two : (running g search).Resumes ctx s' reply) :
    ∃ n, q.resume ctx n s = some first ∧
      (search.advance ctx (Query.resume ctx n) n s').map (ofSearch g) = some reply := by
  obtain ⟨n, one⟩ := one
  obtain ⟨m, two⟩ := running_resumes_iff.mp two
  obtain ⟨found, advanced, rfl⟩ := Option.map_eq_some_iff.mp two
  refine ⟨max n m, resume_mono ctx (Nat.le_max_left n m) q s first one, ?_⟩
  rw [Search.advance_mono (resume_mono ctx (Nat.le_max_right n m)) (Nat.le_max_right n m) ctx s'
    search found advanced]
  rfl

theorem Mimics.of_advance
    (alike : ∀ n, search.advance ctx (Query.resume ctx n) n s =
      other.advance ctx (Query.resume ctx n) n s') :
    Mimics ctx (running g search) s (running g other) s' := by
  intro reply answered
  obtain ⟨n, advanced⟩ := running_resumes_iff.mp answered
  rw [← alike n] at advanced
  exact ⟨reply.next, running_resumes_iff.mpr ⟨n, advanced⟩, fun _ _ => rfl⟩

theorem Resumes.gives {q : Query} (answered : q.Resumes ctx s reply) : q.Gives ctx s reply :=
  ⟨reply.next, answered, fun _ _ => rfl⟩

theorem Gives.resumes {q next : Query} {event : Event}
    (gives : q.Gives ctx s ⟨.ok event, next, s'⟩) : q.Resumes ctx s ⟨.ok event, next, s'⟩ := by
  obtain ⟨last, answered, same⟩ := gives
  obtain rfl := same event rfl
  exact answered

theorem Mimics.resumes {q q' next : Query} {event : Event} {t : State}
    (mimics : Mimics ctx q s q' s') (answered : q'.Resumes ctx s' ⟨.ok event, next, t⟩) :
    q.Resumes ctx s ⟨.ok event, next, t⟩ :=
  (mimics _ answered).resumes

theorem Mimics.gives {q q' : Query} (mimics : Mimics ctx q s q' s') (gives : q'.Gives ctx s' reply) :
    q.Gives ctx s reply := by
  obtain ⟨next, inner, same⟩ := gives
  obtain ⟨last, outer, same'⟩ := mimics _ inner
  exact ⟨last, outer, fun event ok => (same' event ok).trans (same event ok)⟩

theorem Mimics.trans {q q' q'' : Query} {s'' : State} (first : Mimics ctx q s q' s')
    (second : Mimics ctx q' s' q'' s'') : Mimics ctx q s q'' s'' :=
  fun reply answered => first.gives (second reply answered)

theorem mimics_new {goal : Term} (begun : Search.ofGoal ctx s.scope goal = .ok search) :
    Mimics ctx (.new goal) s (running goal search) s := by
  intro reply answered
  obtain ⟨n, advanced⟩ := running_resumes_iff.mp answered
  refine ⟨reply.next, ⟨n + 1, ?_⟩, fun _ _ => rfl⟩
  simp only [Query.resume, new, Query.advance, begun, advanced]

theorem new_fails {goal : Term} {e : Halt}
    (failed : Search.ofGoal ctx s.scope goal = .error e) :
    (Query.new goal).Resumes ctx s ⟨.error e, .pending goal, s⟩ := by
  refine ⟨1, ?_⟩
  simp only [Query.resume, new, Query.advance, failed]

theorem ofSearch_of_ne {result : Except Halt Event} (more : result ≠ .ok .exhausted)
    (stage : Search) : ofSearch g ⟨result, stage, s⟩ = ⟨result, running g stage, s⟩ := by
  obtain _ | (_ | _ | _) := result
  · rfl
  · rfl
  · rfl
  · exact absurd rfl more

theorem ofSearch_result (g : Term) (found : Reply Search) :
    (ofSearch g found).result = found.result := by
  obtain ⟨_ | (_ | _ | _), next, s⟩ := found <;> rfl

theorem Gives.ofSearch {result : Except Halt Event} {stage stage' : Search}
    (answered : (running g search).Resumes ctx s (ofSearch g ⟨result, stage', s'⟩))
    (same : ∀ event, result = .ok event → stage' = stage) :
    (running g search).Gives ctx s (ofSearch g ⟨result, stage, s'⟩) := by
  cases result with
  | error e => exact ⟨_, answered, nofun⟩
  | ok event =>
    obtain rfl := same event rfl
    exact answered.gives

section Conjunction

variable {left right next : Query} {r : Term} {result : Except Halt Event}

theorem conj_passes (answered : left.Resumes ctx s ⟨result, next, s'⟩)
    (other : result ≠ .ok .solution) :
    (running g (.conj left r)).Resumes ctx s (ofSearch g ⟨result, .conj next r, s'⟩) := by
  obtain ⟨n, resumed⟩ := answered
  have more := resume_mono ctx (Nat.le_succ n) left s _ resumed
  apply running_resumes _ (n + 1)
  simp only [Search.advance, Search.resumeConj, more]

theorem conj_waits (answered : left.Resumes ctx s ⟨.ok .solution, next, s'⟩)
    (waiting : s'.readClock.2.intention.isWaiting s'.readClock.1 = true) :
    (running g (.conj left r)).Resumes ctx s
      ⟨.ok .suspended, running g (.conjRight next r (.new r)), s'.readClock.2⟩ := by
  obtain ⟨n, resumed⟩ := answered
  have more := resume_mono ctx (Nat.le_succ n) left s _ resumed
  refine running_resumes ⟨.ok .suspended, .conjRight next r (.new r), _⟩ (n + 1) ?_
  simp only [Search.advance, Search.resumeConj, more, waiting, if_true]

theorem conj_enters (answered : left.Resumes ctx s ⟨.ok .solution, next, s'⟩)
    (awake : ¬s'.readClock.2.intention.isWaiting s'.readClock.1 = true) :
    Mimics ctx (running g (.conj left r)) s (running g (.conjRight next r (.new r)))
      s'.readClock.2 := by
  intro reply entered
  obtain ⟨n, resumed, advanced⟩ := answered.together entered
  obtain ⟨found, inner, rfl⟩ := Option.map_eq_some_iff.mp advanced
  have more := resume_mono ctx (Nat.le_succ n)
  refine ⟨_, running_resumes found (n + 1) ?_, fun _ _ => rfl⟩
  simp only [Search.advance, Search.resumeConj, more left s _ resumed, awake]
  exact Search.resumeConj_mono more r (Nat.le_refl n) next _ _ found inner

theorem conjRight_passes (answered : right.Resumes ctx s ⟨result, next, s'⟩)
    (more : result ≠ .ok .exhausted) :
    (running g (.conjRight left r right)).Resumes ctx s
      ⟨result, running g (.conjRight left r next), s'⟩ := by
  obtain ⟨n, resumed⟩ := answered
  have higher := resume_mono ctx (Nat.le_succ n) right s _ resumed
  rw [← ofSearch_of_ne more]
  apply running_resumes _ (n + 1)
  simp only [Search.advance, Search.resumeConj, higher]

theorem conjRight_returns (answered : right.Resumes ctx s ⟨.ok .exhausted, next, s'⟩) :
    Mimics ctx (running g (.conjRight left r right)) s (running g (.conj left r)) s' := by
  intro reply entered
  obtain ⟨n, resumed, advanced⟩ := answered.together entered
  obtain ⟨found, inner, rfl⟩ := Option.map_eq_some_iff.mp advanced
  have more := resume_mono ctx (Nat.le_succ n)
  refine ⟨_, running_resumes found (n + 1) ?_, fun _ _ => rfl⟩
  simp only [Search.advance, Search.resumeConj, more right s _ resumed]
  exact Search.resumeConj_mono more r (Nat.le_refl n) left _ _ found inner

end Conjunction

section Alternatives

variable {left right inner next : Query} {r : Term} {result : Except Halt Event}
  {c : Choicepoint} {s'' : State}

theorem disj_passes (answered : left.Resumes ctx s ⟨result, next, s'⟩)
    (more : result ≠ .ok .exhausted) :
    (running g (.disj left r)).Resumes ctx s ⟨result, running g (.disj next r), s'⟩ := by
  obtain ⟨n, resumed⟩ := answered
  rw [← ofSearch_of_ne more]
  apply running_resumes _ n
  simp only [Search.advance, Search.resumeDisj, resumed]

theorem disj_turns (answered : left.Resumes ctx s ⟨.ok .exhausted, next, s'⟩) :
    Mimics ctx (running g (.disj left r)) s (running g (.disjRight (.new r))) s' := by
  intro reply turned
  obtain ⟨n, resumed, advanced⟩ := answered.together turned
  obtain ⟨found, inner, rfl⟩ := Option.map_eq_some_iff.mp advanced
  refine ⟨_, running_resumes found n ?_, fun _ _ => rfl⟩
  simp only [Search.advance, Search.resumeDisj, resumed]
  exact inner

theorem disjRight_passes (answered : right.Resumes ctx s ⟨result, next, s'⟩) :
    (running g (.disjRight right)).Resumes ctx s
      (ofSearch g ⟨result, .disjRight next, s'⟩) := by
  obtain ⟨n, resumed⟩ := answered
  apply running_resumes _ n
  simp only [Search.advance, Search.resumeDisjRight, resumed]

theorem negation_enters :
    Mimics ctx (running g (.negation inner none)) s
      (running g (.negation inner (some s.mark.1))) s.mark.2 :=
  .of_advance fun _ => rfl

theorem negation_passes (answered : inner.Resumes ctx s ⟨result, next, s'⟩)
    (unsolved : result ≠ .ok .solution) (more : result ≠ .ok .exhausted) :
    (running g (.negation inner (some c))).Resumes ctx s
      ⟨result, running g (.negation next (some c)), s'⟩ := by
  obtain ⟨n, resumed⟩ := answered
  rw [← ofSearch_of_ne more]
  apply running_resumes _ n
  simp only [Search.advance, Search.resumeNegation, resumed]

theorem negation_refuted (answered : inner.Resumes ctx s ⟨.ok .solution, next, s'⟩) :
    (running g (.negation inner (some c))).Resumes ctx s
      (ofSearch g (Search.afterReroll s' c .exhausted .spent)) := by
  obtain ⟨n, resumed⟩ := answered
  apply running_resumes _ n
  simp only [Search.advance, Search.resumeNegation, resumed]

theorem negation_holds (answered : inner.Resumes ctx s ⟨.ok .exhausted, next, s'⟩) :
    (running g (.negation inner (some c))).Resumes ctx s
      (ofSearch g (Search.afterReroll s' c .solution .spent)) := by
  obtain ⟨n, resumed⟩ := answered
  apply running_resumes _ n
  simp only [Search.advance, Search.resumeNegation, resumed]

theorem spent_ends : (running g .spent).Resumes ctx s ⟨.ok .exhausted, .done g, s⟩ :=
  running_resumes ⟨.ok .exhausted, .spent, s⟩ 0 rfl

theorem held_ends (undone : s.reroll c = .ok s') :
    (running g (.held c)).Resumes ctx s ⟨.ok .exhausted, .done g, s'⟩ := by
  refine running_resumes ⟨.ok .exhausted, .spent, s'⟩ 0 ?_
  simp only [Search.advance, Search.afterReroll, undone]

end Alternatives

section Beliefs

variable {goal body : Term} {group : Group} {i : Nat} {cursor : Cursor} {c : Choicepoint}

theorem recalling_undoes (undone : s.reroll c = .ok s') :
    Mimics ctx (running g (.recalling goal cursor (some c))) s
      (running g (.recalling goal cursor none)) s' := by
  refine .of_advance fun n => ?_
  simp only [Search.advance, Search.undoAndScan, State.rerollIf, undone]

theorem recalling_starts (grouped : Search.groupOf s.scope goal = .ok group) :
    Mimics ctx (running g (.recalling goal .start none)) s
      (running g (.recalling goal (.facts group 0) none)) s := by
  refine .of_advance fun n => ?_
  simp only [Search.advance, Search.undoAndScan, State.rerollIf, Search.scan, grouped,
    List.drop_zero]

/-- The renamed fact and the state in which it is tried. -/
def factTry (s : State) (fact : Term) : Term × State :=
  let (candidate, _, supply) := fact.renameApart [] s.platform.supply
  (candidate, s.withSupply supply)

/-- The renamed head and body of a rule and the state in which it is tried. -/
def ruleTry (s : State) (rule : Rule) : Term × Term × State :=
  let (head, names, supply) := rule.head.renameApart [] s.platform.supply
  let (body, _, supply) := rule.body.renameApart names supply
  (head, body, s.withSupply supply)

theorem drop_succ_of_cons {α : Type} {items rest : List α} {first : α}
    (dropped : items.drop i = first :: rest) : items.drop (i + 1) = rest := by
  rw [← List.tail_drop, dropped, List.tail_cons]

section Facts

variable {fact : Term} {rest : List Term}
  (dropped : (ctx.mind.beliefs.lookup group).drop i = fact :: rest)
include dropped

theorem fact_found
    (unified : (factTry s fact).2.mark.2.unify goal (factTry s fact).1 = (true, s')) :
    (running g (.recalling goal (.facts group i) none)).Resumes ctx s
      ⟨.ok .solution, running g (.recalling goal (.facts group (i + 1))
        (some (factTry s fact).2.mark.1)), s'⟩ := by
  refine running_resumes ⟨.ok .solution, .recalling goal _ (some _), s'⟩ 0 ?_
  simp only [factTry] at unified
  simp only [Search.advance, Search.undoAndScan, State.rerollIf, Search.scan, dropped,
    Search.scanFacts, unified, if_true]
  rfl

theorem fact_missed {back : State}
    (unified : (factTry s fact).2.mark.2.unify goal (factTry s fact).1 = (false, s'))
    (undone : s'.reroll (factTry s fact).2.mark.1 = .ok back) :
    Mimics ctx (running g (.recalling goal (.facts group i) none)) s
      (running g (.recalling goal (.facts group (i + 1)) none)) back := by
  refine .of_advance fun n => ?_
  simp only [factTry] at unified undone
  simp only [Search.advance, Search.undoAndScan, State.rerollIf, Search.scan, dropped,
    drop_succ_of_cons dropped, Search.scanFacts, unified, Bool.false_eq_true, if_false, undone]

end Facts

theorem facts_over (dropped : (ctx.mind.beliefs.lookup group).drop i = []) :
    Mimics ctx (running g (.recalling goal (.facts group i) none)) s
      (running g (.recalling goal (.rules group 0) none)) s := by
  refine .of_advance fun n => ?_
  simp only [Search.advance, Search.undoAndScan, State.rerollIf, Search.scan, dropped,
    Search.scanFacts, List.drop_zero]

theorem rules_over (dropped : (ctx.mind.beliefs.rules group).drop i = []) :
    (running g (.recalling goal (.rules group i) none)).Resumes ctx s
      ⟨.ok .exhausted, .done g, s⟩ := by
  refine running_resumes ⟨.ok .exhausted, .recalling goal .finished none, s⟩ 0 ?_
  simp only [Search.advance, Search.undoAndScan, State.rerollIf, Search.scan, dropped,
    Search.scanRules]

section Rules

variable {rule : Rule} {rest : List Rule}
  (dropped : (ctx.mind.beliefs.rules group).drop i = rule :: rest)
include dropped

theorem rule_missed {back : State}
    (unified : (ruleTry s rule).2.2.mark.2.unify goal (ruleTry s rule).1 = (false, s'))
    (undone : s'.reroll (ruleTry s rule).2.2.mark.1 = .ok back) :
    Mimics ctx (running g (.recalling goal (.rules group i) none)) s
      (running g (.recalling goal (.rules group (i + 1)) none)) back := by
  refine .of_advance fun n => ?_
  simp only [ruleTry] at unified undone
  simp only [Search.advance, Search.undoAndScan, State.rerollIf, Search.scan, dropped,
    drop_succ_of_cons dropped, Search.scanRules, unified, Bool.false_eq_true, if_false, undone]

/-- A rule whose head unifies goes on as its body, except that an error gives the body up. -/
theorem rule_enters
    (unified : (ruleTry s rule).2.2.mark.2.unify goal (ruleTry s rule).1 = (true, s')) :
    Mimics ctx (running g (.recalling goal (.rules group i) none)) s
      (running g (.applying goal (.rules group (i + 1)) (ruleTry s rule).2.2.mark.1
        (.new (ruleTry s rule).2.1))) s' := by
  intro reply entered
  obtain ⟨n, advanced⟩ := running_resumes_iff.mp entered
  obtain ⟨found, applied, rfl⟩ := Option.map_eq_some_iff.mp advanced
  simp only [ruleTry] at unified applied
  simp only [Search.advance, Search.resumeBody] at applied
  have scanned (found : Reply Search)
      (ran : (Search.recalling goal (.rules group i) none).advance ctx (Query.resume ctx n) n s =
        some found) :
      (running g (.recalling goal (.rules group i) none)).Resumes ctx s (ofSearch g found) :=
    running_resumes found n ran
  simp only [Search.advance, Search.undoAndScan, State.rerollIf, Search.scan, dropped,
    Search.scanRules, unified, if_true] at scanned
  generalize Query.resume ctx n (.new _) s' = answer at applied scanned
  cases answer with
  | none => simp at applied
  | some inner =>
    obtain ⟨e | (_ | _ | _), body, state⟩ := inner
    · obtain rfl := Option.some.inj applied
      exact ⟨_, scanned _ rfl, by simp [ofSearch]⟩
    · obtain rfl := Option.some.inj applied
      exact ⟨_, scanned _ rfl, fun _ _ => rfl⟩
    · obtain rfl := Option.some.inj applied
      exact ⟨_, scanned _ rfl, fun _ _ => rfl⟩
    · simp only [Search.undoAndScan, State.rerollIf, Search.scan,
        drop_succ_of_cons dropped] at applied
      exact ⟨_, scanned found applied, fun _ _ => rfl⟩

end Rules

variable {inner next : Query} {result : Except Halt Event}

theorem applying_passes (answered : inner.Resumes ctx s ⟨result, next, s'⟩)
    (more : result ≠ .ok .exhausted) :
    (running g (.applying goal cursor c inner)).Resumes ctx s
      ⟨result, running g (.applying goal cursor c next), s'⟩ := by
  obtain ⟨n, resumed⟩ := answered
  rw [← ofSearch_of_ne more]
  apply running_resumes _ n
  simp only [Search.advance, Search.resumeBody, resumed]
  obtain _ | (_ | _ | _) := result
  · rfl
  · rfl
  · rfl
  · exact absurd rfl more

theorem applying_returns (answered : inner.Resumes ctx s ⟨.ok .exhausted, next, s'⟩) :
    Mimics ctx (running g (.applying goal cursor c inner)) s
      (running g (.recalling goal cursor (some c))) s' := by
  intro reply returned
  obtain ⟨n, resumed, advanced⟩ := answered.together returned
  obtain ⟨found, scanned, rfl⟩ := Option.map_eq_some_iff.mp advanced
  refine ⟨_, running_resumes found n ?_, fun _ _ => rfl⟩
  simp only [Search.advance, Search.resumeBody, resumed]
  exact scanned

end Beliefs

section Actions

variable {target candidate : Term} {rest more : Candidates} {c : Choicepoint}

theorem act_runs (steps : View → Script Deed) :
    (running g (.planned (.act steps))).Resumes ctx s (ofSearch g (Search.runAct ctx steps s)) :=
  running_resumes _ 0 rfl

theorem offer_fails {steps : View → Script Offer} {e : Halt}
    (failed : (steps (Search.look ctx s).1).run (Search.look ctx s).2 = (.error e, s')) :
    (running g (.planned (.offer target steps))).Resumes ctx s
      ⟨.error e, running g .spent, s'⟩ := by
  refine running_resumes ⟨.error e, .spent, s'⟩ 0 ?_
  simp only [Search.advance, Search.runPlan, Search.runOffer, failed]

theorem offer_starts {steps : View → Script Offer} {offer : Offer}
    (offered : (steps (Search.look ctx s).1).run (Search.look ctx s).2 = (.ok offer, s')) :
    Mimics ctx (running g (.planned (.offer target steps))) s
      (running g (.choosing target
        (offer.candidates (s'.platform.supply.freshVars offer.fresh).1) none))
      (s'.withSupply (s'.platform.supply.freshVars offer.fresh).2) := by
  refine .of_advance fun n => ?_
  simp only [Search.advance, Search.runPlan, Search.runOffer, offered, State.rerollIf]
  rfl

theorem choosing_over (finished : rest.next? = none) :
    (running g (.choosing target rest none)).Resumes ctx s ⟨.ok .exhausted, .done g, s⟩ := by
  refine running_resumes ⟨.ok .exhausted, .spent, s⟩ 0 ?_
  simp only [Search.advance, State.rerollIf]
  rw [Search.choose]
  split
  · rfl
  · rename_i found
    simp [finished] at found

theorem choosing_found (offered : rest.next? = some (candidate, more))
    (unified : s.mark.2.unify target candidate = (true, s')) :
    (running g (.choosing target rest none)).Resumes ctx s
      ⟨.ok .solution, running g (.choosing target more (some s.mark.1)), s'⟩ := by
  refine running_resumes ⟨.ok .solution, .choosing target more (some s.mark.1), s'⟩ 0 ?_
  simp only [Search.advance, State.rerollIf]
  rw [Search.choose]
  split
  · rename_i finished
    simp [finished] at offered
  · rename_i found
    obtain ⟨rfl, rfl⟩ := Prod.mk.inj (Option.some.inj (found.symm.trans offered))
    simp only [unified]

theorem choosing_missed {back : State} (offered : rest.next? = some (candidate, more))
    (unified : s.mark.2.unify target candidate = (false, s'))
    (undone : s'.reroll s.mark.1 = .ok back) :
    Mimics ctx (running g (.choosing target rest none)) s
      (running g (.choosing target more none)) back := by
  refine .of_advance fun n => ?_
  simp only [Search.advance, State.rerollIf]
  rw [Search.choose]
  split
  · rename_i finished
    simp [finished] at offered
  · rename_i found
    obtain ⟨rfl, rfl⟩ := Prod.mk.inj (Option.some.inj (found.symm.trans offered))
    simp only [unified, undone]

theorem choosing_undoes (undone : s.reroll c = .ok s') :
    Mimics ctx (running g (.choosing target rest (some c))) s
      (running g (.choosing target rest none)) s' := by
  refine .of_advance fun n => ?_
  simp only [Search.advance, State.rerollIf, undone]

/-- Running a query to its end, without a limit. -/
def Gathers (ctx : Context) (pattern : Term) (q : Query) (names : Renaming) (found : List Term)
    (s : State) (outcome : Except Halt (List Term) × State) : Prop :=
  ∃ n, Search.gather (Query.resume ctx n) pattern n q names found s = some outcome

variable {pattern : Term} {q next : Query} {names : Renaming} {found : List Term}
  {outcome : Except Halt (List Term) × State}

theorem gathers_exhausted (answered : q.Resumes ctx s ⟨.ok .exhausted, next, s'⟩) :
    Gathers ctx pattern q names found s (.ok found.reverse, s') := by
  obtain ⟨n, resumed⟩ := answered
  refine ⟨n + 1, ?_⟩
  simp only [Search.gather, resume_mono ctx (Nat.le_succ n) q s _ resumed]

theorem gathers_failed {e : Halt} (answered : q.Resumes ctx s ⟨.error e, next, s'⟩) :
    Gathers ctx pattern q names found s (.error e, s') := by
  obtain ⟨n, resumed⟩ := answered
  refine ⟨n + 1, ?_⟩
  simp only [Search.gather, resume_mono ctx (Nat.le_succ n) q s _ resumed]

/-- An answer and the rest of the run under one limit. -/
theorem Resumes.gathering {reply : Reply Query} {q' : Query} {names' : Renaming}
    {found' : List Term} (answered : q.Resumes ctx s reply)
    (gathers : Gathers ctx pattern q' names' found' s' outcome) :
    ∃ n, q.resume ctx (n + 1) s = some reply ∧
      Search.gather (Query.resume ctx (n + 1)) pattern n q' names' found' s' = some outcome := by
  obtain ⟨n, resumed⟩ := answered
  obtain ⟨m, gathered⟩ := gathers
  have less : m ≤ max n m + 1 := Nat.le_succ_of_le (Nat.le_max_right n m)
  refine ⟨max n m, ?_, ?_⟩
  · exact resume_mono ctx (Nat.le_succ_of_le (Nat.le_max_left n m)) q s reply resumed
  · exact Search.gather_mono (resume_mono ctx less) pattern (Nat.le_max_right n m) _ _ _ _ _
      gathered

theorem gathers_suspended (answered : q.Resumes ctx s ⟨.ok .suspended, next, s'⟩)
    (gathers : Gathers ctx pattern next names found s' outcome) :
    Gathers ctx pattern q names found s outcome := by
  obtain ⟨n, resumed, gathered⟩ := answered.gathering gathers
  refine ⟨n + 1, ?_⟩
  simp only [Search.gather, resumed]
  exact gathered

theorem gathers_solution (answered : q.Resumes ctx s ⟨.ok .solution, next, s'⟩)
    {value : Term} {names' : Renaming} {supply : Supply}
    (frozen : s'.scope.freeze pattern names s'.platform.supply = (value, names', supply))
    (gathers : Gathers ctx pattern next names' (value :: found) (s'.withSupply supply) outcome) :
    Gathers ctx pattern q names found s outcome := by
  obtain ⟨n, resumed, gathered⟩ := answered.gathering gathers
  refine ⟨n + 1, ?_⟩
  simp only [Search.gather, resumed, frozen]
  exact gathered

variable {goal result : Term}

theorem collect_gathered
    (gathers : Gathers ctx pattern (.new goal) [] [] s.mark.2 (.ok found, s')) :
    (running g (.planned (.collect pattern goal result))).Resumes ctx s
      (ofSearch g (Search.holdOrUndo s.mark.1 (s'.unify result (.seq found)))) := by
  obtain ⟨n, gathered⟩ := gathers
  apply running_resumes _ n
  simp only [Search.advance, Search.runPlan, Search.runCollect, gathered]

theorem collect_failed {e : Halt}
    (gathers : Gathers ctx pattern (.new goal) [] [] s.mark.2 (.error e, s')) :
    (running g (.planned (.collect pattern goal result))).Resumes ctx s
      ⟨.error e, running g .spent, s'⟩ := by
  obtain ⟨n, gathered⟩ := gathers
  refine running_resumes ⟨.error e, .spent, s'⟩ n ?_
  simp only [Search.advance, Search.runPlan, Search.runCollect, gathered]

end Actions

end Query

end Deliberation
