import Deliberation.Proofs.Courses
import Deliberation.Proofs.Echoes
import Deliberation.Proofs.Refinement
import Deliberation.Proofs.Stratification

/-! Queries that come to an end. A query is finite if every resumption is answered, in whatever
state, and if after finitely many answers the last one is there. How
long that takes may depend on the states. Finite queries make finite queries: each kind of search is
finite if the queries that it resumes are, by induction on these. -/
namespace Deliberation

/-- There is an answer, and if it is not the last one, what is left satisfies a predicate. -/
def Query.Replies (ctx : Context) (q : Query) (s : State) (later : Query → Prop) : Prop :=
  ∃ reply, q.Resumes ctx s reply ∧
    (Occurrence.isLast (reply.result, reply.state) = false → later reply.next)

/-- Every resumption is answered, and there are only finitely many up to the last one. -/
inductive Query.Finite (ctx : Context) : Query → Prop where
  | intro {q : Query} (answers : ∀ s, ∃ reply, q.Resumes ctx s reply)
      (onward : ∀ s reply, q.Resumes ctx s reply →
        Occurrence.isLast (reply.result, reply.state) = false → Finite ctx reply.next) :
      Finite ctx q

namespace Query

variable {ctx : Context} {q other next : Query} {s s' : State} {later : Query → Prop} {g : Term}

theorem Replies.of_mimics (mimics : q.Mimics ctx s other s')
    (replies : other.Replies ctx s' later) : q.Replies ctx s later := by
  obtain ⟨⟨result, next, t⟩, answered, onward⟩ := replies
  obtain ⟨stage, resumes, same⟩ := mimics _ answered
  refine ⟨_, resumes, fun more => ?_⟩
  cases result with
  | error e => simp [Occurrence.isLast] at more
  | ok event =>
    obtain rfl := same event rfl
    exact onward more

theorem Replies.exhausted (answered : q.Resumes ctx s ⟨.ok .exhausted, next, s'⟩) :
    q.Replies ctx s later :=
  ⟨_, answered, by simp [Occurrence.isLast]⟩

theorem Replies.failed {e : Halt} (answered : q.Resumes ctx s ⟨.error e, next, s'⟩) :
    q.Replies ctx s later :=
  ⟨_, answered, by simp [Occurrence.isLast]⟩

theorem Replies.of_search {found : Reply Search} (answered : q.Resumes ctx s (ofSearch g found))
    (onward : later (running g found.next)) : q.Replies ctx s later := by
  refine ⟨_, answered, fun more => ?_⟩
  obtain ⟨_ | (_ | _ | _), next, t⟩ := found
  · exact onward
  · exact onward
  · exact onward
  · simp [ofSearch, Occurrence.isLast] at more

namespace Finite

theorem of_replies (replies : ∀ s, q.Replies ctx s (Finite ctx)) :
    Finite ctx q := by
  constructor
  · intro s
    obtain ⟨reply, answered, -⟩ := replies s
    exact ⟨reply, answered⟩
  · intro s reply answered more
    obtain ⟨_, again, onward⟩ := replies s
    obtain rfl := again.unique answered
    exact onward more

theorem replies (finite : Finite ctx q) (s : State) :
    q.Replies ctx s (Finite ctx) := by
  obtain ⟨answers, onward⟩ := finite
  obtain ⟨reply, answered⟩ := answers s
  exact ⟨reply, answered, onward s reply answered⟩

theorem done : Finite ctx (.done g) := by
  refine of_replies fun s => ?_
  have answered : (Query.done g).Resumes ctx s ⟨.ok .exhausted, .done g, s⟩ :=
    ⟨1, rfl⟩
  exact .exhausted answered

end Finite

end Query

open Query

variable {ctx : Context} {g : Term} {s s' : State}

/-- A stage around a finite query is finite, provided that it comes on once there is a solution of
that query and once the query is exhausted. -/
theorem Search.Around.finite {stage : Query → Search}
    (around : Around ctx stage) {q : Query} (finite : q.Finite ctx)
    (solved : ∀ q s next s', q.Resumes ctx s ⟨.ok .solution, next, s'⟩ →
      next.Finite ctx → (running g (stage next)).Finite ctx →
      (running g (stage q)).Replies ctx s (Query.Finite ctx))
    (finished : ∀ q s next s',
      q.Resumes ctx s ⟨.ok .exhausted, next, s'⟩ →
      (running g (stage q)).Replies ctx s (Query.Finite ctx)) :
    (running g (stage q)).Finite ctx := by
  induction finite with
  | @intro q answers onward ih =>
    apply Finite.of_replies
    intro s
    obtain ⟨⟨result, next, s'⟩, answered⟩ := answers s
    obtain e | (_ | _ | _) := result
    · obtain ⟨last, failed⟩ := around.fails (g := g) answered
      exact .failed failed
    · exact solved q s next s' answered (onward s _ answered rfl)
        (ih s _ answered rfl)
    · exact ⟨_, around.suspends answered, fun _ => ih s _ answered rfl⟩
    · exact finished q s next s' answered

namespace Search

variable {left right inner body : Query} {r goal : Term} {cursor : Cursor} {c : Choicepoint}

theorem disjRight_finite (finite : right.Finite ctx) :
    (running g (.disjRight right)).Finite ctx := by
  refine Around.finite aroundDisjRight finite ?_ ?_
  · exact fun _ _ _ _ answered _ onward => ⟨_, disjRight_passes answered, fun _ => onward⟩
  · exact fun _ _ _ _ answered => .exhausted (disjRight_passes answered)

theorem disj_finite (lefts : left.Finite ctx) (rights : (Query.new r).Finite ctx) :
    (running g (.disj left r)).Finite ctx := by
  refine Around.finite aroundDisj lefts ?_ ?_
  · exact fun _ _ _ _ answered _ onward => ⟨_, disj_passes answered (by simp), fun _ => onward⟩
  · exact fun _ _ _ t answered =>
      .of_mimics (disj_turns answered) ((disjRight_finite rights).replies t)

theorem conjRight_finite (conj : (running g (.conj left r)).Finite ctx)
    (rights : right.Finite ctx) : (running g (.conjRight left r right)).Finite ctx := by
  refine Around.finite aroundConjRight rights ?_ ?_
  · exact fun _ _ _ _ answered _ onward =>
      ⟨_, conjRight_passes answered (by simp), fun _ => onward⟩
  · exact fun _ _ _ t answered =>
      .of_mimics (conjRight_returns answered) (conj.replies t)

theorem conj_finite (lefts : left.Finite ctx) (rights : (Query.new r).Finite ctx) :
    (running g (.conj left r)).Finite ctx := by
  refine Around.finite aroundConj lefts ?_ ?_
  -- Under each solution of the left conjunct the right one begins anew, and once it is exhausted
  -- the conjunction goes on as with what is left of the left one.
  · intro q s next t answered _ onward
    have entered : (running g (.conjRight next r (.new r))).Finite ctx :=
      conjRight_finite onward rights
    by_cases waiting : t.intention.isWaiting t.readClock.1 = true
    · exact ⟨_, conj_waits answered waiting, fun _ => entered⟩
    · exact .of_mimics (conj_enters answered waiting) (entered.replies _)
  · exact fun _ _ _ _ answered => .exhausted (conj_passes answered (by simp))

theorem afterReroll_next (s : State) (c : Choicepoint) (event : Event) (next : Search) :
    (afterReroll s c event next).next = next := by
  unfold afterReroll
  split <;> rfl

theorem spent_finite : (running g .spent).Finite ctx :=
  .of_replies fun _ => .exhausted spent_ends

theorem held_finite : (running g (.held c)).Finite ctx := by
  refine .of_replies fun s => ?_
  have answered : (running g (.held c)).Resumes ctx s _ :=
    running_resumes (afterReroll s c .exhausted .spent) 0 rfl
  apply Replies.of_search answered
  rw [afterReroll_next]
  exact spent_finite

theorem holdOrUndo_finite (c : Choicepoint) (done : Bool × State) :
    (running g (holdOrUndo c done).next).Finite ctx := by
  obtain ⟨_ | _, t⟩ := done
  · rw [holdOrUndo, afterReroll_next]
    exact spent_finite
  · exact held_finite

theorem conclude_finite (c : Choicepoint) (done : Except Halt Bool × State) :
    (running g (conclude c done).next).Finite ctx := by
  obtain ⟨_ | holds, t⟩ := done
  · exact spent_finite
  · exact holdOrUndo_finite c (holds, t)

theorem negation_finite (inners : inner.Finite ctx) (mark : Option Choicepoint) :
    (running g (.negation inner mark)).Finite ctx := by
  have begun (c : Choicepoint) : (running g (.negation inner (some c))).Finite ctx := by
    refine Around.finite aroundNegation inners ?_ ?_
    · intro q s next t answered _ _
      apply Replies.of_search (aroundNegation.resumes answered fun _ => rfl)
      rw [afterReroll_next]
      exact spent_finite
    · intro q s next t answered
      apply Replies.of_search (aroundNegation.resumes answered fun _ => rfl)
      rw [afterReroll_next]
      exact spent_finite
  cases mark with
  | some c => exact begun c
  | none =>
    exact .of_replies fun s =>
      .of_mimics negation_enters ((begun s.mark.1).replies s.mark.2)

/-- A stage whose choicepoint is undone first. -/
theorem marked_finite {stage : Option Choicepoint → Search}
    (undoes : ∀ c s s', s.reroll c = .ok s' →
      (running g (stage (some c))).Mimics ctx s (running g (stage none)) s')
    (lost : ∀ c s e, s.reroll c = .error e → (running g (stage (some c))).Resumes
      ctx s ⟨.error e, running g (stage none), s⟩)
    (bare : (running g (stage none)).Finite ctx) (mark : Option Choicepoint) :
    (running g (stage mark)).Finite ctx := by
  cases mark with
  | none => exact bare
  | some c =>
    refine .of_replies fun s => ?_
    cases undone : s.reroll c with
    | error e => exact .failed (lost c s e undone)
    | ok s' => exact .of_mimics (undoes c s s' undone) (bare.replies s')

theorem choosing_marked {target : Term} {rest : Candidates}
    (bare : (running g (.choosing target rest none)).Finite ctx) (mark : Option Choicepoint) :
    (running g (.choosing target rest mark)).Finite ctx := by
  refine marked_finite (fun _ _ _ undone => choosing_undoes undone) ?_ bare mark
  intro c s e lost
  refine running_resumes ⟨.error e, .choosing target rest none, s⟩ 0 ?_
  simp only [advance, State.rerollIf, lost]

/-- Every candidate is tried once. -/
theorem choosing_finite (target : Term) (rest : Candidates) (mark : Option Choicepoint) :
    (running g (.choosing target rest mark)).Finite ctx := by
  apply choosing_marked
  induction count : rest.remaining using Nat.strong_induction_on generalizing rest with
  | _ n ih =>
    refine .of_replies fun s => ?_
    cases offered : rest.next? with
    | none => exact .exhausted (choosing_over offered)
    | some offer =>
      obtain ⟨candidate, more⟩ := offer
      have fewer : more.remaining < n := count ▸ Candidates.remaining_of_next? offered
      have onward := ih more.remaining fewer more rfl
      cases unified : s.mark.2.unify target candidate with
      | mk ok s' =>
        obtain ⟨back, undone, -⟩ := State.reroll_of_unify unified
        cases ok with
        | true => exact ⟨_, choosing_found offered unified, fun _ => choosing_marked onward _⟩
        | false =>
          exact .of_mimics (choosing_missed offered unified undone) (onward.replies back)

theorem runAct_finite (steps : View → Script Deed) (s : State) :
    (running g (runAct ctx steps s).next).Finite ctx := by
  simp only [runAct]
  split
  · exact spent_finite
  · exact conclude_finite _ _

/-- Gathering from a finite query comes to an end. -/
theorem gathers_of_finite {q : Query} (finite : q.Finite ctx)
    (pattern : Term) (names : Renaming) (found : List Term) (s : State) :
    ∃ outcome, Gathers ctx pattern q names found s outcome := by
  induction finite generalizing names found s with
  | @intro q answers onward ih =>
    obtain ⟨⟨result, next, t⟩, answered⟩ := answers s
    obtain e | (_ | _ | _) := result
    · exact ⟨_, gathers_failed answered⟩
    · obtain ⟨outcome, gathers⟩ := ih s _ answered rfl _ _ _
      exact ⟨outcome, gathers_solution answered rfl gathers⟩
    · obtain ⟨outcome, gathers⟩ := ih s _ answered rfl names found t
      exact ⟨outcome, gathers_suspended answered gathers⟩
    · exact ⟨_, gathers_exhausted answered⟩

theorem plan_finite (plan : Plan)
    (collects : ∀ goal, plan.collected? = some goal → (Query.new goal).Finite ctx) :
    (running g (.planned plan)).Finite ctx := by
  refine .of_replies fun s => ?_
  cases plan with
  | act steps => exact .of_search (act_runs steps) (runAct_finite steps s)
  | offer target steps =>
    cases ran : (steps (look ctx s).1).run (look ctx s).2 with
    | mk outcome t =>
      cases outcome with
      | error e => exact .failed (offer_fails ran)
      | ok offer =>
        exact .of_mimics (offer_starts ran) ((choosing_finite target _ none).replies _)
  | collect pattern goal result =>
    obtain ⟨⟨e | found, t⟩, gathers⟩ :=
      gathers_of_finite (collects goal rfl) pattern [] [] s.mark.2
    · exact .failed (collect_failed gathers)
    · exact .of_search (collect_gathered gathers) (holdOrUndo_finite _ _)

theorem recalling_marked (bare : (running g (.recalling goal cursor none)).Finite ctx)
    (mark : Option Choicepoint) : (running g (.recalling goal cursor mark)).Finite ctx := by
  refine marked_finite (fun _ _ _ undone => recalling_undoes undone) ?_ bare mark
  intro c s e lost
  refine running_resumes ⟨.error e, .recalling goal cursor none, s⟩ 0 ?_
  simp only [advance, undoAndScan, State.rerollIf, lost]

theorem applying_finite (bare : (running g (.recalling goal cursor none)).Finite ctx)
    (bodies : body.Finite ctx) : (running g (.applying goal cursor c body)).Finite ctx := by
  refine Around.finite aroundBody bodies ?_ ?_
  · exact fun _ _ _ _ answered _ onward =>
      ⟨_, applying_passes answered (by simp), fun _ => onward⟩
  · exact fun _ _ _ t answered =>
      .of_mimics (applying_returns answered) ((recalling_marked bare (some c)).replies t)

end Search

/-- The bodies of the rules of a group are finite, however their variables are renamed. -/
def Context.FiniteBodies (ctx : Context) (group : Group) : Prop :=
  ∀ rule ∈ ctx.mind.beliefs.rules group, ∀ s, (Query.new (ruleTry s rule).2.1).Finite ctx

namespace Search

variable {goal : Term} {group : Group}

/-- Rules in order: a body that is exhausted makes way for the next rule. -/
theorem rules_finite (bodies : ctx.FiniteBodies group) (i : Nat) :
    (running g (.recalling goal (.rules group i) none)).Finite ctx := by
  generalize dropped : (ctx.mind.beliefs.rules group).drop i = rest
  induction rest generalizing i with
  | nil => exact .of_replies fun _ => .exhausted (rules_over dropped)
  | cons rule rest ih =>
    have onward := ih (i + 1) (drop_succ_of_cons dropped)
    have member : rule ∈ ctx.mind.beliefs.rules group :=
      List.mem_of_mem_drop (dropped ▸ List.mem_cons_self)
    refine .of_replies fun s => ?_
    cases unified : (ruleTry s rule).2.2.mark.2.unify goal (ruleTry s rule).1 with
    | mk ok s' =>
      obtain ⟨back, undone, -⟩ := State.reroll_of_unify unified
      cases ok with
      | true =>
        have applied := applying_finite (g := g) (c := (ruleTry s rule).2.2.mark.1) onward
          (bodies rule member s)
        exact .of_mimics (rule_enters dropped unified) (applied.replies s')
      | false => exact .of_mimics (rule_missed dropped unified undone) (onward.replies back)

/-- Facts first, then the rules. -/
theorem facts_finite (bodies : ctx.FiniteBodies group) (i : Nat) :
    (running g (.recalling goal (.facts group i) none)).Finite ctx := by
  generalize dropped : (ctx.mind.beliefs.lookup group).drop i = rest
  induction rest generalizing i with
  | nil =>
    exact .of_replies fun s =>
      .of_mimics (facts_over dropped) ((rules_finite bodies 0).replies s)
  | cons fact rest ih =>
    have onward := ih (i + 1) (drop_succ_of_cons dropped)
    refine .of_replies fun s => ?_
    cases unified : (factTry s fact).2.mark.2.unify goal (factTry s fact).1 with
    | mk ok s' =>
      obtain ⟨back, undone, -⟩ := State.reroll_of_unify unified
      cases ok with
      | true => exact ⟨_, fact_found dropped unified, fun _ => recalling_marked onward _⟩
      | false => exact .of_mimics (fact_missed dropped unified undone) (onward.replies back)

theorem start_finite (bodies : ∀ scope group, groupOf scope goal = .ok group →
      ctx.FiniteBodies group) :
    (running g (.recalling goal .start none)).Finite ctx := by
  refine .of_replies fun s => ?_
  cases grouped : groupOf s.scope goal with
  | error e =>
    have stuck : (running g (.recalling goal .start none)).Resumes ctx s
        ⟨.error e, running g (.recalling goal .start none), s⟩ := by
      refine running_resumes ⟨.error e, .recalling goal .start none, s⟩ 0 ?_
      simp only [advance, undoAndScan, State.rerollIf, scan, grouped]
    exact .failed stuck
  | ok group =>
    have facts : (running g (.recalling goal (.facts group 0) none)).Finite ctx :=
      facts_finite (bodies s.scope group grouped) 0
    exact .of_mimics (recalling_starts grouped) (facts.replies s)

theorem recalling_finite (bodies : ∀ group, ctx.FiniteBodies group) (cursor : Cursor)
    (mark : Option Choicepoint) : (running g (.recalling goal cursor mark)).Finite ctx := by
  apply recalling_marked
  cases cursor with
  | start => exact start_finite fun _ group _ => bodies group
  | facts group i => exact facts_finite (bodies group) i
  | rules group i => exact rules_finite (bodies group) i
  | finished =>
    have ended (s : State) :
        (running g (.recalling goal .finished none)).Resumes ctx s
          ⟨.ok .exhausted, .done g, s⟩ :=
      running_resumes ⟨.ok .exhausted, .recalling goal .finished none, s⟩ 0 rfl
    exact .of_replies fun s => .exhausted (ended s)

end Search

end Deliberation
