import Deliberation.Proofs.FiniteQueries

/-! Queries over stratified beliefs. A query is settled if no goal that it has yet to search for
leaves it to a variable what is asked for. Whatever is resumed, and whatever comes of it, a settled
query stays settled; and where beliefs are stratified, settled queries are finite: first by
induction on the rank of what a goal asks for, and for equal ranks on the goal. -/
namespace Deliberation

open Query (ruleTry)
open Search

variable {ctx : Context} {rank : Group → Nat}

/-- A goal is finite if the goals inside it and the bodies of the rules that it can use are. -/
theorem Query.new_finite {t : Term} (stratified : ctx.Stratified rank) (settled : t.Settled)
    (inner : ∀ goal ∈ t.subgoals, (Query.new goal).Finite ctx)
    (own : ∀ functor args annots, t.asked = .belief functor args annots →
      ctx.FiniteBodies ⟨functor, args.length⟩) : (Query.new t).Finite ctx := by
  refine .of_replies fun s => ?_
  have begun := Search.ofGoal_eq ctx s.scope t
  rw [settled.walk] at begun
  have onward {search : Search} (first : Search.ofGoal ctx s.scope t = .ok search)
      (finite : (running t search).Finite ctx) :
      (Query.new t).Replies ctx s (Finite ctx) :=
    .of_mimics (mimics_new first) (finite.replies s)
  generalize asked : t.asked = what at begun
  cases what with
  | truth holds =>
    exact onward begun (plan_finite _ (by simp))
  | both left right =>
    have lefts := inner left (by simp [Term.subgoals, asked])
    have rights := inner right (by simp [Term.subgoals, asked])
    exact onward begun (conj_finite lefts rights)
  | either left right =>
    have lefts := inner left (by simp [Term.subgoals, asked])
    have rights := inner right (by simp [Term.subgoals, asked])
    exact onward begun (disj_finite lefts rights)
  | absence goal =>
    have inners := inner goal (by simp [Term.subgoals, asked])
    exact onward begun (negation_finite inners none)
  | equality left right =>
    exact onward begun (plan_finite _ (by simp))
  | call name args =>
    simp only [Search.call] at begun
    cases found : ctx.actions.lookup name args.length with
    | none =>
      rw [found] at begun
      exact .failed (new_fails begun)
    | some action =>
      rw [found] at begun
      refine onward begun (plan_finite _ fun goal collected => ?_)
      exact inner goal (stratified.collected asked found collected)
  | belief functor args annots =>
    refine onward begun (start_finite fun scope group grouped => ?_)
    obtain rfl := Except.ok.inj grouped
    exact own functor args annots asked
  | fault e =>
    exact .failed (new_fails begun)

theorem Term.Settled.finite (stratified : ctx.Stratified rank) {t : Term} (settled : t.Settled) :
    (Query.new t).Finite ctx := by
  obtain ⟨n, below⟩ := t.exists_asksBelow rank
  induction n using Nat.strong_induction_on generalizing t with
  | _ n ihRank =>
    induction t using Term.ofParts with
    | step t ihParts =>
      apply Query.new_finite stratified settled
      -- The goals inside ask for no more than the goal does; the body of a rule asks for less.
      · intro goal inside
        exact ihParts goal (Term.part_of_subgoal inside) (settled.inside inside)
          (below.inside inside)
      · intro functor args annots asked rule member s
        have lower := below t functor args annots .refl asked
        obtain ⟨P, copied⟩ := s.ruleTry_paired rule
        apply ihRank _ lower
        · exact copied.settled (stratified.settled _ rule member)
        · exact copied.asksBelow (stratified.descends _ rule member)

/-- The plan panics only as that of `.sort`, over a sequence that has no order. -/
def Plan.Calm (plan : Plan) : Prop :=
  ∀ view, plan.RaisesIn view .panicked →
    ∃ args, plan = Library.sorting.plan ".sort" args ∧ Library.SortsInVain args view.scope

theorem Plan.once_calm (deed : Deed) : (Plan.once fun _ => .ok deed).Calm :=
  fun _ raised => by cases raised

theorem Library.standard_calm {name : String} {args : List Term} {action : Action}
    (found : standard.lookup name args.length = some action) : (action.plan name args).Calm := by
  intro view raised
  obtain ⟨rfl, rfl, vain⟩ := (standard_raises found raised).2 rfl
  exact ⟨args, rfl, vain⟩

mutual
/-- No goal that is still to be searched for has a variable in goal position, and no plan that is
still to be run panics unless it sorts. -/
def Query.Settled : Query → Prop
  | .pending goal => goal.Settled
  | .running _ search => search.Settled
  | .done _ => True

def Search.Settled : Search → Prop
  | .planned plan => (∀ goal, plan.collected? = some goal → goal.Settled) ∧ plan.Calm
  | .held _ => True
  | .choosing _ _ _ => True
  | .spent => True
  | .recalling _ _ _ => True
  | .applying _ _ _ body => body.Settled
  | .conj left rightGoal => left.Settled ∧ rightGoal.Settled
  | .conjRight left rightGoal right => left.Settled ∧ rightGoal.Settled ∧ right.Settled
  | .disj left rightGoal => left.Settled ∧ rightGoal.Settled
  | .disjRight right => right.Settled
  | .negation inner _ => inner.Settled
end

/-- The body of a rule is settled as it is tried. -/
theorem Context.Stratified.body (stratified : ctx.Stratified rank) {group : Group} {rule : Rule}
    (member : rule ∈ ctx.mind.beliefs.rules group) (s : State) : (ruleTry s rule).2.1.Settled := by
  obtain ⟨P, copied⟩ := s.ruleTry_paired rule
  exact copied.settled (stratified.settled group rule member)

theorem Context.Stratified.bodies (stratified : ctx.Stratified rank) (group : Group) :
    ctx.FiniteBodies group :=
  fun _ member s => (stratified.body member s).finite stratified

mutual
theorem Query.Settled.finite (stratified : ctx.Stratified rank) :
    ∀ {q : Query}, q.Settled → q.Finite ctx
  | .pending _, settled => Term.Settled.finite stratified settled
  | .running _ _, settled => Search.Settled.finite stratified settled
  | .done _, _ => .done

theorem Search.Settled.finite (stratified : ctx.Stratified rank) {g : Term} :
    ∀ {search : Search}, search.Settled → (Query.running g search).Finite ctx
  | .planned plan, ⟨settled, _⟩ =>
    plan_finite plan fun goal collected => (settled goal collected).finite stratified
  | .held _, _ => held_finite
  | .choosing target rest mark, _ => choosing_finite target rest mark
  | .spent, _ => spent_finite
  | .recalling _ cursor mark, _ => recalling_finite stratified.bodies cursor mark
  | .applying _ cursor _ _, settled =>
    applying_finite (recalling_finite stratified.bodies cursor none)
      (Query.Settled.finite stratified settled)
  | .conj _ _, ⟨lefts, rights⟩ =>
    conj_finite (Query.Settled.finite stratified lefts) (rights.finite stratified)
  | .conjRight _ _ _, ⟨lefts, goals, rights⟩ =>
    conjRight_finite (conj_finite (Query.Settled.finite stratified lefts) (goals.finite stratified))
      (Query.Settled.finite stratified rights)
  | .disj _ _, ⟨lefts, rights⟩ =>
    disj_finite (Query.Settled.finite stratified lefts) (rights.finite stratified)
  | .disjRight _, settled => disjRight_finite (Query.Settled.finite stratified settled)
  | .negation _ mark, settled => negation_finite (Query.Settled.finite stratified settled) mark
end

theorem Query.ofSearch_settled {g : Term} {found : Reply Search} (settled : found.next.Settled) :
    (ofSearch g found).next.Settled := by
  obtain ⟨_ | (_ | _ | _), next, s⟩ := found
  · exact settled
  · exact settled
  · exact settled
  · trivial

theorem Search.afterReroll_settled (s : State) (c : Choicepoint) (event : Event) :
    (afterReroll s c event .spent).next.Settled := by
  rw [afterReroll_next]
  trivial

theorem Search.holdOrUndo_settled (c : Choicepoint) (done : Bool × State) :
    (holdOrUndo c done).next.Settled := by
  obtain ⟨_ | _, t⟩ := done
  · exact afterReroll_settled t c .exhausted
  · trivial

theorem Search.conclude_settled (c : Choicepoint) (done : Except Halt Bool × State) :
    (conclude c done).next.Settled := by
  obtain ⟨_ | holds, t⟩ := done
  · trivial
  · exact holdOrUndo_settled c (holds, t)

/-- The search for a settled goal is settled. -/
theorem Search.ofGoal_settled (stratified : ctx.Stratified rank) {scope : Scope} {goal : Term}
    (settled : goal.Settled) {search : Search} (begun : ofGoal ctx scope goal = .ok search) :
    search.Settled := by
  rw [ofGoal_eq, settled.walk] at begun
  generalize asked : goal.asked = what at begun
  cases what with
  | both left right =>
    obtain rfl := Except.ok.inj begun
    have lefts : left.Settled := settled.inside (by simp [Term.subgoals, asked])
    have rights : right.Settled := settled.inside (by simp [Term.subgoals, asked])
    exact ⟨lefts, rights⟩
  | either left right =>
    obtain rfl := Except.ok.inj begun
    have lefts : left.Settled := settled.inside (by simp [Term.subgoals, asked])
    have rights : right.Settled := settled.inside (by simp [Term.subgoals, asked])
    exact ⟨lefts, rights⟩
  | absence inner =>
    obtain rfl := Except.ok.inj begun
    have inners : inner.Settled := settled.inside (by simp [Term.subgoals, asked])
    exact inners
  | call name args =>
    simp only [call] at begun
    split at begun
    · rename_i action found
      obtain rfl := Except.ok.inj begun
      refine ⟨fun inner collected => ?_, Library.standard_calm (stratified.standard _ _ _ found)⟩
      exact settled.inside (stratified.collected asked found collected)
    · simp at begun
  | belief functor args annots =>
    obtain rfl := Except.ok.inj begun
    trivial
  | truth holds =>
    obtain rfl := Except.ok.inj begun
    exact ⟨fun inner collected => by simp at collected, Plan.once_calm _⟩
  | equality left right =>
    obtain rfl := Except.ok.inj begun
    exact ⟨fun inner collected => by simp at collected, Plan.once_calm _⟩
  | fault e => simp at begun

def Task.Settled : Task → Prop
  | resume q => q.Settled
  | gather _ q _ _ => q.Settled

def Answer.Settled : Answer → Prop
  | reply r => r.next.Settled
  | gathered _ _ => True

variable {s s' : State} {trace : List Happening}

theorem Search.Ends.settled {search : Search} {found : Reply Search}
    (ended : search.Ends ctx s trace found) : found.next.Settled := by
  cases ended with
  | act ran => exact conclude_settled _ _
  | held => exact afterReroll_settled _ _ _
  | _ => trivial

theorem Search.Turns.settled {search next : Search} (turned : search.Turns ctx s trace next s')
    (settled : search.Settled) : next.Settled := by
  cases turned with
  | negationEnters => exact settled
  | _ => trivial

namespace Task

variable {task next : Task} {q : Query} {reply : Reply Query} {last : List Happening}
  {answer : Answer} {t : State}

theorem Settled.inner : ∀ {task : Task}, task.Settled → task.inner? = some q → q.Settled
  | .gather _ _ _ _, settled, rfl => settled
  | .resume (.running _ (.applying _ _ _ _)), settled, rfl => settled
  | .resume (.running _ (.conj _ _)), settled, rfl => settled.1
  | .resume (.running _ (.conjRight _ _ _)), settled, rfl => settled.2.2
  | .resume (.running _ (.disj _ _)), settled, rfl => settled.1
  | .resume (.running _ (.disjRight _)), settled, rfl => settled
  | .resume (.running _ (.negation _ (some _))), settled, rfl => settled

theorem Passes.settled (passed : task.Passes reply last answer) (settled : task.Settled)
    (nexts : reply.next.Settled) : answer.Settled := by
  cases passed with
  | applying | negation => exact nexts
  | conj => exact Query.ofSearch_settled ⟨nexts, settled.2⟩
  | conjWaits => exact ⟨nexts, settled.2, settled.2⟩
  | conjRight => exact ⟨settled.1, settled.2.1, nexts⟩
  | disj => exact ⟨nexts, settled.2⟩
  | disjRight => exact Query.ofSearch_settled nexts
  | negationRefuted | negationHolds => exact Query.ofSearch_settled (afterReroll_settled _ _ _)
  | gatherFails | gatherEnds => trivial

theorem GoesOn.settled (goes : task.GoesOn reply last next t) (settled : task.Settled)
    (nexts : reply.next.Settled) : next.Settled := by
  cases goes with
  | applying => trivial
  | conj => exact ⟨nexts, settled.2, settled.2⟩
  | conjRight => exact ⟨settled.1, settled.2.1⟩
  | disj => exact settled.2
  | gatherPasses | gatherFinds => exact nexts

end Task

/-- A settled task has a settled answer, whether it fails or not. -/
theorem Course.settled (stratified : ctx.Stratified rank) {task : Task} {answer : Answer}
    (course : Course ctx task s trace answer) (settled : task.Settled) : answer.Settled := by
  induction course with
  | done => trivial
  | stuck failed => exact settled
  | begins begun rest ih => exact ih (ofGoal_settled stratified settled begun)
  | ends ended => exact Query.ofSearch_settled ended.settled
  | turns turned rest ih => exact ih (turned.settled settled)
  | passes inside inner passed ih => exact passed.settled settled (ih (settled.inner inside))
  | goesOn inside inner goes rest ihInner ihRest =>
    exact ihRest (goes.settled settled (ihInner (settled.inner inside)))
  | ruleFails => trivial
  | rulePasses dropped unified inner unfinished ih =>
    exact ih (stratified.body (List.mem_of_mem_drop (dropped ▸ List.mem_cons_self)) _)
  | ruleReturns dropped unified inner rest ihInner ihRest => exact ihRest trivial
  | collectFails => trivial
  | collects => exact Query.ofSearch_settled (holdOrUndo_settled _ _)

end Deliberation
