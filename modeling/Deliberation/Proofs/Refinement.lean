import Deliberation.Proofs.Following
import Deliberation.Proofs.StandardActions
import Mathlib.Data.List.Forall2

/-! The evaluator refines depth-first enumeration: whenever the enumeration of a goal ends, resuming
its query again and again gives the enumerated solutions in order and then the same end, whatever
the clock shows, with suspensions in between at most. -/
namespace Deliberation

open State Enumeration

theorem Candidates.list_of_next? {rest : Candidates} :
    rest.list = match rest.next? with
      | none => []
      | some (candidate, more) => candidate :: more.list := by
  cases rest with
  | terms items => cases items <;> rfl
  | range next stop =>
    by_cases less : next < stop
    · obtain ⟨n, count⟩ : ∃ n : Nat, stop = next + 1 + n := ⟨(stop - next - 1).toNat, by omega⟩
      have all : (stop - next).toNat = n + 1 := by omega
      have later : (stop - (next + 1)).toNat = n := by omega
      simp only [list, next?, less, if_true, all, later, List.range_succ_eq_map, List.map_cons,
        List.map_map]
      refine List.cons_eq_cons.mpr ⟨by simp, List.map_congr_left fun i _ => ?_⟩
      have shift : next + ((i + 1 : Nat) : Int) = next + 1 + (i : Int) := by omega
      simp only [Function.comp, Nat.succ_eq_add_one, shift]
    · have none : (stop - next).toNat = 0 := by omega
      simp [list, next?, less, none]

namespace Follows

variable {ctx : Context} {α : Type} {visit : Visitor α} {base s s' t : State} {q : Query} {a : α}
  {o first : Outcome α} {g : Term}

/-- The only solution is held by a choicepoint; a failed attempt is undone at once. -/
theorem holdOrUndo (done done' : Bool × State) (grows : Grows s.mark.2 done.2)
    (answered : q.Resumes ctx s (Query.ofSearch g (Search.holdOrUndo s.mark.1 done)))
    (same : done.1 = done'.1) (alike : Alike done.2 done'.2)
    (visited : onSuccess visit a done' = some o) : Follows ctx visit s q s a o := by
  obtain ⟨holds, after⟩ := done
  obtain ⟨holds', t⟩ := done'
  obtain rfl : holds = holds' := same
  cases holds with
  | true =>
    refine of_visit answered ((mark_grows s).trans grows) alike visited (fun _ => rfl) ?_
    intro finished s'' returns rest
    obtain ⟨back, undone, returned, same⟩ := grows.undo returns rest
    exact of_exhausted (Query.held_ends undone) returned same finished rfl
  | false =>
    obtain rfl := Option.some.inj visited
    obtain ⟨back, undone, returned, same⟩ := grows.undo (.refl _) alike.toSameRest
    simp only [Search.holdOrUndo, Search.afterReroll, undone] at answered
    exact .exhausted answered returned same

theorem conclude (done done' : Except Halt Bool × State) (grows : Grows s.mark.2 done.2)
    (answered : q.Resumes ctx s (Query.ofSearch g (Search.conclude s.mark.1 done)))
    (same : done.1 = done'.1) (alike : Alike done.2 done'.2)
    (visited : Enumeration.conclude visit a done' = some o) : Follows ctx visit s q s a o := by
  obtain ⟨result, after⟩ := done
  obtain ⟨result', t⟩ := done'
  obtain rfl : result = result' := same
  cases result with
  | error e =>
    obtain rfl := Option.some.inj visited
    exact .failed answered alike
  | ok holds => exact holdOrUndo (holds, after) (holds, t) grows answered rfl alike visited

theorem act {steps : View → Script Deed} (alike : Alike s t)
    (enumerated : Enumeration.act ctx visit steps a t = some o) :
    Follows ctx visit s (.running g (.planned (.act steps))) s a o := by
  obtain ⟨views, looked⟩ := ((mark_alike s).trans alike).look ctx
  have sight := (look_returns ctx s.mark.2).grows
  have answered : (Query.running g (.planned (.act steps))).Resumes ctx s _ := Query.act_runs steps
  simp only [Search.runAct] at answered
  simp only [Enumeration.act, ← views] at enumerated
  generalize Search.look ctx s.mark.2 = seen at *
  generalize (Search.look ctx t).2 = t at *
  obtain ⟨results, stepped⟩ := looked.run (steps seen.1)
  have grown := sight.trans (run_grows (steps seen.1) seen.2)
  generalize (steps seen.1).run seen.2 = ran at *
  generalize (steps seen.1).run t = ran' at *
  obtain ⟨result, after⟩ := ran
  obtain ⟨result', t⟩ := ran'
  obtain rfl : result = result' := results
  cases result with
  | error e =>
    obtain rfl := Option.some.inj enumerated
    exact .failed answered stepped
  | ok deed =>
    obtain ⟨answers, performed⟩ := stepped.perform ctx.mind deed
    exact conclude _ _ (grown.trans (perform_grows ctx.mind _ deed)) answered answers performed
      enumerated

/-- A stage for each list of alternatives follows them in order, if it follows the first and goes on
with the rest, and if something follows the end of the list. -/
theorem inOrder {β : Type} {attempt : β → Visitor α} (Stage : List β → Query → Prop)
    (step : ∀ {item rest q s t a first o}, Stage (item :: rest) q → Alike s t → Returns base s →
      attempt item a t = some first → Ends first o →
      (first.ending = .exhausted → ∀ next back, Stage rest next → Returns s back →
        SameRest back first.state → Follows ctx visit base next back first.gathered o) →
      Follows ctx visit base q s a o)
    (items : List β) (stage : Stage items q) (alike : Alike s t) (based : Returns base s)
    (enumerated : Enumeration.inOrder attempt items a t = some first) (ends : Ends first o)
    (after : first.ending = .exhausted → ∀ next s', Stage [] next → Returns s s' →
      SameRest s' first.state → Follows ctx visit base next s' first.gathered o) :
    Follows ctx visit base q s a o := by
  induction items generalizing q s t a with
  | nil =>
    obtain rfl := Option.some.inj enumerated
    exact after rfl q s stage (.refl s) alike.toSameRest
  | cons item rest ih =>
    obtain ⟨outcome, tried, early, onward⟩ := andThen_eq_some enumerated
    refine step stage alike based tried ?_ ?_
    · intro ended
      obtain rfl := early ended
      exact ends ended
    · intro ended next back staged returns same
      refine ih staged (returns.alike alike same) (based.trans returns) (onward ended) ?_
      intro finished last s' final returned
      exact after finished last s' final (returns.trans returned)

/-- An attempt to unify under a choicepoint. One that fails is undone at once. -/
theorem attempt {visit' : Visitor α} {next : Query} {entered : State} {left right : Term}
    (entering : Returns s entered) (alike : Alike entered t)
    (enumerated : unifying visit' left right a t = some first)
    (unified : ∀ s' t', entered.mark.2.unify left right = (true, s') →
      Grows entered.mark.2 s' → Alike s' t' → visit' a t' = some first →
      Follows ctx visit base q s a o)
    (missed : ∀ s' back, entered.mark.2.unify left right = (false, s') →
      s'.reroll entered.mark.1 = .ok back → q.Mimics ctx s next back)
    (onward : first.ending = .exhausted → ∀ back, Returns s back → SameRest back first.state →
      Follows ctx visit base next back first.gathered o) : Follows ctx visit base q s a o := by
  obtain ⟨answers, after⟩ := ((mark_alike entered).trans alike).unify left right
  have grows := unify_grows entered.mark.2 left right
  rw [unifying] at enumerated
  generalize entered.mark.2.unify left right = tried at *
  generalize t.unify left right = tried' at *
  obtain ⟨holds, s'⟩ := tried
  obtain ⟨holds', t'⟩ := tried'
  obtain rfl : holds = holds' := answers
  cases holds with
  | true => exact unified s' t' rfl grows after enumerated
  | false =>
    obtain rfl := Option.some.inj enumerated
    obtain ⟨back, undone, returned, same⟩ := grows.undo (.refl _) after.toSameRest
    exact of_mimics (missed s' back rfl undone) (onward rfl back (entering.trans returned) same)

/-- An attempt whose success is a solution, undone before the next attempt. -/
theorem candidate {marked next : Query} {entered : State} {left right : Term}
    (entering : Returns s entered) (alike : Alike entered t) (based : Returns base s)
    (found : ∀ s', entered.mark.2.unify left right = (true, s') →
      q.Resumes ctx s ⟨.ok .solution, marked, s'⟩)
    (missed : ∀ s' back, entered.mark.2.unify left right = (false, s') →
      s'.reroll entered.mark.1 = .ok back → q.Mimics ctx s next back)
    (undoes : ∀ s' back, s'.reroll entered.mark.1 = .ok back → marked.Mimics ctx s' next back)
    (enumerated : unifying visit left right a t = some first) (ends : Ends first o)
    (onward : first.ending = .exhausted → ∀ back, Returns s back → SameRest back first.state →
      Follows ctx visit base next back first.gathered o) : Follows ctx visit base q s a o := by
  refine attempt entering alike enumerated ?_ missed onward
  intro s' t' unified grows after visited
  have above := (based.trans entering).grows.trans ((mark_grows entered).trans grows)
  refine of_visit (found s' unified) above after visited ends ?_
  intro ended s'' returns rest
  obtain ⟨back, undone, returned, same⟩ := grows.undo returns rest
  exact of_mimics (undoes s'' back undone) (onward ended back (entering.trans returned) same)

/-- Candidates are tried in order. -/
theorem choosing {target : Term} {rest : Candidates} (alike : Alike s t) (based : Returns base s)
    (enumerated : Enumeration.inOrder (unifying visit target) rest.list a t = some o) :
    Follows ctx visit base (.running g (.choosing target rest none)) s a o := by
  let Stage (items : List Term) (q : Query) : Prop :=
    ∃ rest : Candidates, rest.list = items ∧ q = .running g (.choosing target rest none)
  have stage : Stage rest.list (.running g (.choosing target rest none)) := ⟨rest, rfl, rfl⟩
  refine inOrder Stage ?_ rest.list stage alike based enumerated (fun _ => rfl) ?_
  · rintro candidate items q s t a first o ⟨rest, listed, rfl⟩ alike based tried ends onward
    rw [Candidates.list_of_next?] at listed
    split at listed
    · simp at listed
    · rename_i more offered
      obtain ⟨rfl, rfl⟩ := List.cons_eq_cons.mp listed
      refine candidate (.refl s) alike based (fun s' => Query.choosing_found offered)
        (fun s' back => Query.choosing_missed offered)
        (fun s' back => Query.choosing_undoes) tried ends ?_
      intro ended back
      exact onward ended _ back ⟨more, rfl, rfl⟩
  · rintro ended next s' ⟨rest, listed, rfl⟩ returns same
    rw [Candidates.list_of_next?] at listed
    split at listed
    · rename_i finished
      exact of_exhausted (Query.choosing_over finished) (based.trans returns) same ended rfl
    · simp at listed

theorem offer {target : Term} {steps : View → Script Offer}
    (still : ∀ view, (steps view).Still) (alike : Alike s t)
    (enumerated : Enumeration.offer ctx visit target steps a t = some o) :
    Follows ctx visit s (.running g (.planned (.offer target steps))) s a o := by
  obtain ⟨views, looked⟩ := alike.look ctx
  obtain ⟨results, stepped⟩ := looked.run (steps (Search.look ctx s).1)
  have sight := (look_returns ctx s).trans (Script.run_returns (still (Search.look ctx s).1) _)
  simp only [Enumeration.offer, ← views] at enumerated
  rcases ran : (steps (Search.look ctx s).1).run (Search.look ctx s).2 with ⟨result, s'⟩
  rcases ran' : (steps (Search.look ctx s).1).run (Search.look ctx t).2 with ⟨result', t'⟩
  rw [ran, ran'] at results stepped
  rw [ran] at sight
  rw [ran'] at enumerated
  obtain rfl : result = result' := results
  cases result with
  | error e =>
    obtain rfl := Option.some.inj enumerated
    exact .failed (Query.offer_fails ran) stepped
  | ok offer =>
    obtain ⟨drawn, supplies⟩ := stepped.supply.freshVars offer.fresh
    dsimp only at drawn supplies
    refine of_mimics (Query.offer_starts ran) ?_
    refine choosing (stepped.withSupply supplies) (sight.trans (withSupply_returns s' rfl)) ?_
    rw [drawn]
    exact enumerated

theorem factTry_alike (alike : Alike s t) (stored : Term) :
    (Query.factTry s stored).1 = (Query.factTry t stored).1 ∧
      Alike (Query.factTry s stored).2 (Query.factTry t stored).2 ∧
      Returns s (Query.factTry s stored).2 := by
  obtain ⟨value, -, supply⟩ := Scope.empty.freeze_alike stored [] alike.supply
  exact ⟨value, alike.withSupply supply,
    withSupply_returns s (Scope.empty.freeze_nextChoicepoint stored [] _)⟩

theorem ruleTry_alike (alike : Alike s t) (stored : Rule) :
    (Query.ruleTry s stored).1 = (Query.ruleTry t stored).1 ∧
      (Query.ruleTry s stored).2.1 = (Query.ruleTry t stored).2.1 ∧
      Alike (Query.ruleTry s stored).2.2 (Query.ruleTry t stored).2.2 ∧
      Returns s (Query.ruleTry s stored).2.2 := by
  obtain ⟨head, names, supply⟩ := Scope.empty.freeze_alike stored.head [] alike.supply
  have marks := Scope.empty.freeze_nextChoicepoint stored.head [] s.platform.supply
  simp only [Query.ruleTry, Term.renameApart]
  generalize Scope.empty.freeze stored.head [] s.platform.supply = headed at *
  generalize Scope.empty.freeze stored.head [] t.platform.supply = headed' at *
  obtain ⟨body, -, later⟩ := Scope.empty.freeze_alike stored.body headed.2.1 supply
  have marks' := Scope.empty.freeze_nextChoicepoint stored.body headed.2.1 headed.2.2
  rw [← names]
  exact ⟨head, body, alike.withSupply later, withSupply_returns s (marks'.trans marks)⟩

/-- Facts are tried in order, before the rules. -/
theorem facts {goal : Term} {group : Group} (alike : Alike s t) (based : Returns base s)
    (enumerated : Enumeration.inOrder (fact visit goal) (ctx.mind.beliefs.lookup group) a t =
      some first) (ends : Ends first o)
    (after : first.ending = .exhausted → ∀ s', Returns s s' → SameRest s' first.state →
      Follows ctx visit base (.running g (.recalling goal (.rules group 0) none)) s'
        first.gathered o) :
    Follows ctx visit base (.running g (.recalling goal (.facts group 0) none)) s a o := by
  let Stage (items : List Term) (q : Query) : Prop :=
    ∃ i, (ctx.mind.beliefs.lookup group).drop i = items ∧
      q = .running g (.recalling goal (.facts group i) none)
  have stage : Stage (ctx.mind.beliefs.lookup group)
      (.running g (.recalling goal (.facts group 0) none)) := ⟨0, rfl, rfl⟩
  refine inOrder Stage ?_ _ stage alike based enumerated ends ?_
  · rintro stored items q s t a first o ⟨i, dropped, rfl⟩ alike based tried ends onward
    obtain ⟨same, entered, returns⟩ := factTry_alike alike stored
    refine candidate returns entered based (fun s' => Query.fact_found dropped)
      (fun s' back => Query.fact_missed dropped) (fun s' back => Query.recalling_undoes) ?_ ends ?_
    · rw [same]
      exact tried
    · intro ended back
      exact onward ended _ back ⟨i + 1, Query.drop_succ_of_cons dropped, rfl⟩
  · rintro ended next s' ⟨i, dropped, rfl⟩ returns same
    exact of_mimics (Query.facts_over dropped) (after ended s' returns same)

/-- Rules are tried in order; the body of one whose head unifies runs above a choicepoint. -/
theorem rules {solveBody : Term → Visitor α} {goal : Term} {group : Group}
    (bodies : ∀ {body a t o}, solveBody body a t = some o → ∀ {s}, Alike s t →
      Follows ctx visit s (.new body) s a o)
    (alike : Alike s t) (based : Returns base s)
    (enumerated : Enumeration.inOrder (rule solveBody goal) (ctx.mind.beliefs.rules group) a t =
      some o) :
    Follows ctx visit base (.running g (.recalling goal (.rules group 0) none)) s a o := by
  let Stage (items : List Rule) (q : Query) : Prop :=
    ∃ i, (ctx.mind.beliefs.rules group).drop i = items ∧
      q = .running g (.recalling goal (.rules group i) none)
  have stage : Stage (ctx.mind.beliefs.rules group)
      (.running g (.recalling goal (.rules group 0) none)) := ⟨0, rfl, rfl⟩
  refine inOrder Stage ?_ _ stage alike based enumerated (fun _ => rfl) ?_
  · rintro stored items q s t a first o ⟨i, dropped, rfl⟩ alike based tried ends onward
    obtain ⟨heads, bodied, entered, returns⟩ := ruleTry_alike alike stored
    have body : unifying (solveBody (Query.ruleTry s stored).2.1) goal (Query.ruleTry s stored).1 a
        (Query.ruleTry t stored).2.2 = some first := by
      rw [heads, bodied]
      exact tried
    have later : Stage items (.running g (.recalling goal (.rules group (i + 1)) none)) :=
      ⟨i + 1, Query.drop_succ_of_cons dropped, rfl⟩
    refine attempt returns entered body ?_ (fun s' back => Query.rule_missed dropped)
      fun ended back => onward ended _ back later
    intro s' t' unified grows after solved
    have above := (based.trans returns).grows.trans ((mark_grows _).trans grows)
    refine of_mimics (Query.rule_enters dropped unified) ?_
    refine pass (fun q => .running g (.applying goal (.rules group (i + 1)) _ q))
      (fun _ _ _ _ _ => Query.applying_passes) above (bodies solved after) ends ?_
    intro ended q s1 _ s2 answered returned same
    obtain ⟨back, undone, restored, same⟩ := grows.undo returned same
    refine of_mimics ((Query.applying_returns answered).trans (Query.recalling_undoes undone)) ?_
    exact onward ended _ back later (returns.trans restored) same
  · rintro ended next s' ⟨i, dropped, rfl⟩ returns same
    exact of_exhausted (Query.rules_over dropped) (based.trans returns) same ended rfl

/-- The snapshots of the inner solutions are gathered above a choicepoint. -/
theorem collect {pattern inner result : Term} {outcome : Outcome (Renaming × List Term)}
    (alike : Alike s t)
    (follows : Follows ctx (snapshot pattern) s.mark.2 (.new inner) s.mark.2 ([], []) outcome)
    (enumerated : Enumeration.collect visit result a t (some outcome) = some o) :
    Follows ctx visit s (.running g (.planned (.collect pattern inner result))) s a o := by
  obtain ⟨exhausted, failed⟩ := follows.gathers rfl
  obtain ⟨_ | e | _, ⟨names, found⟩, t'⟩ := outcome
  · obtain ⟨s', gathers, returns, rest⟩ := exhausted rfl
    have ended := returns.alike ((mark_alike s).trans alike) rest
    obtain ⟨answers, unified⟩ := ended.unify result (.seq found.reverse)
    exact holdOrUndo _ _ (returns.grows.trans (unify_grows ..)) (Query.collect_gathered gathers)
      answers unified enumerated
  · obtain rfl := Option.some.inj enumerated
    obtain ⟨s', gathers, same⟩ := failed e rfl
    exact .failed (Query.collect_failed gathers) same
  · simp [Enumeration.collect] at enumerated

end Follows

theorem Search.ofGoal_eq (ctx : Context) (scope : Scope) (goal : Term) :
    Search.ofGoal ctx scope goal =
      match (scope.walk goal).asked with
      | .truth holds => .ok (.constant holds)
      | .both left right => .ok (.conj (.new left) right)
      | .either left right => .ok (.disj (.new left) right)
      | .absence inner => .ok (.negation (.new inner) none)
      | .equality left right => .ok (.planned (.once fun _ => .ok (.unify [(left, right)])))
      | .call name args => Search.call ctx name args
      | .belief functor args annots => .ok (.recalling (.lit functor args annots) .start none)
      | .fault e => .error e := by
  unfold Search.ofGoal
  generalize scope.walk goal = t
  fun_cases Term.asked t <;> first | rfl | simp_all

/-- The result of one resumption and the state after it. -/
abbrev Occurrence := Except Halt Event × State

/-- Whether a result is the last one of a query: it is exhausted or has failed. -/
def Occurrence.isLast : Occurrence → Bool
  | (.ok .exhausted, _) => true
  | (.ok _, _) => false
  | (.error _, _) => true

/-- What is seen by resuming a query up to the last result. Before each further resumption
`meanwhile` says what becomes of the state. -/
inductive Query.Occurs (ctx : Context) (meanwhile : Nat → State → State) :
    Nat → Query → State → List Occurrence → Prop where
  | last {n : Nat} {q : Query} {s : State} {reply : Reply Query}
      (answered : q.Resumes ctx s reply)
      (final : Occurrence.isLast (reply.result, reply.state) = true) :
      Occurs ctx meanwhile n q s [(reply.result, reply.state)]
  | onward {n : Nat} {q : Query} {s : State} {reply : Reply Query} {rest : List Occurrence}
      (answered : q.Resumes ctx s reply)
      (more : Occurrence.isLast (reply.result, reply.state) = false)
      (later : Occurs ctx meanwhile (n + 1) reply.next (meanwhile n reply.state) rest) :
      Occurs ctx meanwhile n q s ((reply.result, reply.state) :: rest)

namespace Query

variable {ctx : Context} {meanwhile : Nat → State → State}

theorem Occurs.unique {n : Nat} {q : Query} {s : State} {one other : List Occurrence}
    (first : q.Occurs ctx meanwhile n s one) (second : q.Occurs ctx meanwhile n s other) :
    one = other := by
  induction first generalizing other with
  | last answered final =>
    cases second with
    | last again _ => rw [answered.unique again]
    | onward again more _ =>
      rw [answered.unique again, more] at final
      simp at final
  | onward answered more _ ih =>
    cases second with
    | last again final =>
      rw [answered.unique again, final] at more
      simp at more
    | onward again _ later =>
      obtain rfl := answered.unique again
      rw [ih later]

end Query

end Deliberation
