import Deliberation.Proofs.AcyclicCourses
import Deliberation.Proofs.Panics
import Deliberation.Proofs.SortedSequences
import Deliberation.Proofs.VariableHygiene

/-! Stratified beliefs are searched in finite time. From an acyclic scope every resumption of a
settled goal comes to an end, and it takes finitely many of them until the goal is exhausted or has
failed, whatever is done with the bindings and whatever the clock shows in between. Instead of an
answer the end is a panic wherever `.sort` comes to integers and floats that contradict each other,
and nowhere else. -/
namespace Deliberation

open State

namespace Query

variable {ctx : Context} {rank : Group → Nat} {goal : Term} {start s : State} {q : Query}
  {trace : List Happening}

/-- A finite query has a last result, whatever becomes of the state before each resumption. -/
theorem Finite.occurs (finite : q.Finite ctx) (meanwhile : Nat → State → State) (n : Nat)
    (s : State) : ∃ events, q.Occurs ctx meanwhile n s events := by
  induction finite generalizing n s with
  | intro answers onward ih =>
    obtain ⟨reply, answered⟩ := answers s
    cases final : Occurrence.isLast (reply.result, reply.state) with
    | true => exact ⟨_, .last answered final⟩
    | false =>
      obtain ⟨events, later⟩ := ih s reply answered final (n + 1) _
      exact ⟨_, .onward answered final later⟩

theorem Run.settled (stratified : ctx.Stratified rank) (settled : goal.Settled)
    (run : Run ctx goal start trace q s) : q.Settled := by
  induction run with
  | begin => exact settled
  | resume run meanwhile course ih => exact course.settled stratified ih

theorem Run.straight (straight : start.Straight) (run : Run ctx goal start trace q s) :
    KeepsStraight trace s := by
  induction run with
  | begin => exact .visit straight (.nil straight)
  | resume run meanwhile course ih =>
    have waited := ih.state.of_scope (congrArg Bindings.scope meanwhile.bindings)
    have later := course.straight waited
    exact ih.append (.visit waited (later.append (.visit later.state (.nil later.state))))

/-- The goal is searched for in finite time. -/
structure Terminates (ctx : Context) (goal : Term) (start : State) : Prop where
  /-- Every resumption comes to an end, also after an error, and the run goes on. -/
  answered : ∀ trace q s s', Run ctx goal start trace q s → s.Undisturbed s' →
    ∃ reply more, q.Resumes ctx s' reply ∧
      Run ctx goal start (trace ++ (.state s' :: more ++ [.state reply.state])) reply.next
        reply.state
  /-- The end is an event or an error that the query returns, except that it panics where it comes to
  a call of `.sort` with a sequence that has no order. -/
  panics : ∀ trace q s s' reply, Run ctx goal start trace q s → s.Undisturbed s' →
    q.Resumes ctx s' reply →
    (reply.result = .error .panicked ↔ (Task.resume q).SortsInVain ctx s')
  /-- Sequences with one kind of number have an order. Where no others are sorted, it returns. -/
  returns : ∀ trace q s s', Run ctx goal start trace q s → s.Undisturbed s' →
    (∀ n more task t items, Comes ctx n (.resume q) s' more task t → task.Sorts items t →
      Term.OneKindOfNumber items) →
    ∃ reply, q.Resumes ctx s' reply ∧ reply.result ≠ .error .panicked
  /-- There are finitely many resumptions up to the last one, in whatever states. -/
  finite : ∀ trace q s, Run ctx goal start trace q s → q.Finite ctx
  /-- They show their results in order, up to exhaustion, an error or a panic. -/
  occurs : ∀ trace q s meanwhile n, Run ctx goal start trace q s →
    ∃ events, q.Occurs ctx meanwhile n s events
  /-- Nothing that is read or unified on the way goes on forever. -/
  legible : ∀ trace q s, Run ctx goal start trace q s → ∀ h ∈ trace, ∀ t ∈ h.moments, t.Legible

/-- Where beliefs are stratified, every settled goal is searched for in finite time from every
acyclic scope that binds no variable twice. -/
theorem stratified_terminates (stratified : ctx.Stratified rank) (settled : goal.Settled)
    (acyclic : ∀ v, ¬Relation.TransGen start.scope.Points v v)
    (distinct : start.scope.keys.Nodup) : Terminates ctx goal start := by
  have straight : start.Straight := ⟨Scope.acyclic_iff.mpr acyclic, distinct⟩
  have finite (trace q s) (run : Run ctx goal start trace q s) : q.Finite ctx :=
    (run.settled stratified settled).finite stratified
  have panics (trace q s s' reply) (run : Run ctx goal start trace q s)
      (answered : q.Resumes ctx s' reply) :
      reply.result = .error .panicked ↔ (Task.resume q).SortsInVain ctx s' :=
    panics_iff stratified (run.settled stratified settled) answered
  refine ⟨?_, fun trace q s s' reply run _ => panics trace q s s' reply run, ?_, finite, ?_, ?_⟩
  · intro trace q s s' run meanwhile
    obtain ⟨reply, answered, -⟩ := (finite trace q s run).replies s'
    obtain ⟨more, course⟩ := answered.course
    exact ⟨reply, more, answered, .resume run meanwhile course⟩
  · intro trace q s s' run meanwhile kinds
    obtain ⟨reply, answered, -⟩ := (finite trace q s run).replies s'
    refine ⟨reply, answered, fun panicked => ?_⟩
    obtain ⟨n, more, task, t, items, comes, sorts, unordered⟩ :=
      (panics trace q s s' reply run answered).mp panicked
    obtain ⟨arranged, found, -⟩ :=
      Term.sort?_stablySorted (kinds n more task t items comes sorts)
    cases unordered.symm.trans found
  · intro trace q s meanwhile n run
    exact (finite trace q s run).occurs meanwhile n s
  · intro trace q s run h here t moment
    have both := (run.straight straight).happenings h here
    simp only [Happening.moments, List.mem_cons, List.not_mem_nil, or_false] at moment
    rcases moment with rfl | rfl
    · exact both.1.legible
    · exact both.2.legible

end Query

/-- A mind that believes `p(1)`, `p(2)`, `r(2)` and `q(V1) :- p(V1) & not r(V1)`. -/
def Mind.layered : Mind where
  id := ⟨1⟩
  name := "a"
  beliefs :=
    { facts := [(⟨"p", 1⟩, [.lit "p" [.int 1] [], .lit "p" [.int 2] []]),
        (⟨"r", 1⟩, [.lit "r" [.int 2] []])]
      ruleIndex := [(⟨"q", 1⟩, [⟨.lit "q" [.var ⟨1⟩] [],
        .lit "&" [.sample 1, .lit "not" [.lit "r" [.var ⟨1⟩] []] []] []⟩])] }

def Context.layered : Context := ⟨Library.standard, .layered⟩

/-- The group of `q` stands above the others. -/
def Group.layer (g : Group) : Nat := if g.functor = "q" then 1 else 0

/-- The goal `q(V2) | .findall(V3, q(V3), V4)`. -/
def Term.layered : Term :=
  .lit "|" [.lit "q" [.var ⟨2⟩] [],
    .lit ".findall" [.var ⟨3⟩, .lit "q" [.var ⟨3⟩] [], .var ⟨4⟩] []] []

namespace Term

theorem layered_settled : layered.Settled := by
  apply settled_lit
  intro inner inside
  rcases List.mem_pair.mp inside with rfl | rfl
  · exact settled_belief rfl
  · apply settled_lit
    intro goal collected
    obtain rfl := List.mem_singleton.mp collected
    exact settled_belief rfl

end Term

theorem Context.layered_stratified : layered.Stratified Group.layer := by
  have rules (group : Group) (rule : Rule) (member : rule ∈ layered.mind.beliefs.rules group) :
      group = ⟨"q", 1⟩ ∧ rule = ⟨.lit "q" [.var ⟨1⟩] [],
        .lit "&" [.sample 1, .lit "not" [.lit "r" [.var ⟨1⟩] []] []] []⟩ := by
    simp only [layered, Mind.layered, BeliefBase.rules, Index.members, List.lookup_cons,
      List.lookup_nil] at member
    split at member
    · rename_i same
      exact ⟨eq_of_beq same, List.mem_singleton.mp member⟩
    · simp at member
  refine ⟨fun _ _ _ => id, fun group rule member => ?_, fun group rule member => ?_⟩
  · obtain ⟨rfl, rfl⟩ := rules group rule member
    apply Term.settled_lit
    intro inner inside
    rcases List.mem_pair.mp inside with rfl | rfl
    · exact Term.settled_belief rfl
    · apply Term.settled_lit
      intro goal negated
      obtain rfl := List.mem_singleton.mp negated
      exact Term.settled_belief rfl
  · obtain ⟨rfl, rfl⟩ := rules group rule member
    apply Term.asksBelow_of (by simp [Term.asked])
    intro inner inside
    rcases List.mem_pair.mp inside with rfl | rfl
    · exact Term.asksBelow_belief rfl (by decide)
    · apply Term.asksBelow_of (by simp [Term.asked])
      intro goal negated
      obtain rfl := List.mem_singleton.mp negated
      exact Term.asksBelow_belief rfl (by decide)

theorem Query.stratified_terminates_layers :
    Context.layered.Stratified Group.layer ∧ Term.layered.Settled ∧
      (∀ v, ¬Relation.TransGen State.sample.scope.Points v v) ∧ State.sample.scope.keys.Nodup ∧
      Terminates .layered .layered .sample ∧
      ∃ reply, (Query.new .layered).Resumes .layered .sample reply ∧
        reply.result = .ok .solution := by
  have acyclic : (Scope.empty.bind ⟨9⟩ (.int 4)).Acyclic :=
    Scope.bind_acyclic Scope.empty_acyclic rfl fun _ member => absurd member List.not_mem_nil
  have stratified := Context.layered_stratified
  have settled := Term.layered_settled
  have distinct : State.sample.scope.keys.Nodup := by decide
  have terminates : Terminates .layered .layered .sample :=
    stratified_terminates stratified settled acyclic.no_cycle distinct
  exact ⟨stratified, settled, acyclic.no_cycle, distinct, terminates, _, ⟨5, rfl⟩, rfl⟩

/-- Sorting by runs fails where the first run does. -/
theorem Sorting.sortByRuns?_of_firstRun {α : Type} {less : α → α → Bool} {eager : Bool} {x : α}
    {rest : List α} (sortItems? : List α → Option (List α))
    (failed : firstRun? less (enoughFor (rest.length + 1)) eager (x :: rest) = none) :
    sortByRuns? less eager sortItems? (x :: rest) = none := by
  simp only [sortByRuns?, List.length_cons]
  rw [runs?, failed]
  rfl

/-- Integers around 2^53, and floats that both of them are rounded to. -/
def Term.circular : List Term :=
  .int 9007199254740993 :: (List.replicate 8 (.num (.float ⟨0x4340000000000000⟩)) ++
    .int 9007199254740993 :: List.replicate 11 (.int 9007199254740992))

theorem Library.sort?_circular : sort? Term.circular = none := by
  have kinds : haveOneKindOfNumber Term.circular = false := by decide +kernel
  have long : ¬Term.circular.length ≤ Sorting.insertionLimit := by decide +kernel
  simp only [sort?, kinds, Bool.false_eq_true, if_false, Sorting.sort?, long]
  apply Sorting.sortByRuns?_of_firstRun
  exact Option.isNone_iff_eq_none.mp (by decide +kernel)

/-- The goal `.sort(S, V1)` over these numbers. -/
def Term.sortCircular : Term := .lit ".sort" [.seq circular, .var ⟨1⟩] []

/-- An agent without beliefs. -/
def Context.blank : Context := ⟨Library.standard, { id := ⟨1⟩, name := "a" }⟩

def State.blank : State := ⟨{ id := ⟨1⟩ }, { supply := { nextVar := 2 } }⟩

/-- Without the exception not every resumption returns: `.sort` panics over integers and floats that
contradict each other. -/
theorem Query.sorting_may_panic :
    ¬ ∀ (ctx : Context) (rank : Group → Nat) (goal : Term) (start : State),
      ctx.Stratified rank → goal.Settled →
      (∀ v, ¬Relation.TransGen start.scope.Points v v) → start.scope.keys.Nodup →
      ∃ reply, (Query.new goal).Resumes ctx start reply ∧ reply.result ≠ .error .panicked := by
  intro claim
  have stratified : Context.blank.Stratified fun _ => 0 := ⟨fun _ _ _ => id, nofun, nofun⟩
  have settled : Term.sortCircular.Settled := Term.settled_lit nofun
  obtain ⟨reply, answered, returns⟩ := claim .blank _ .sortCircular .blank stratified settled
    Scope.empty_acyclic.no_cycle List.nodup_nil
  have begun : Search.ofGoal .blank State.blank.scope .sortCircular =
      .ok (.planned (Library.sorting.plan ".sort" [.seq Term.circular, .var ⟨1⟩])) := rfl
  have vain : (Task.resume (.new .sortCircular)).SortsInVain .blank .blank :=
    ⟨1, _, _, _, Term.circular, .goes (.begins begun) .stays, ⟨_, _, _, rfl, rfl⟩,
      Library.sort?_circular⟩
  exact returns ((panics_iff (q := .new .sortCircular) stratified settled answered).mpr vain)

end Deliberation
