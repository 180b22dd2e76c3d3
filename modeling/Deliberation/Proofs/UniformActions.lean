import Deliberation.Proofs.Lockstep

/-! Uniform actions. What an action makes of paired arguments in situations that differ in nothing
but numbers is paired again. Every standard action is uniform, also the ones whose values come from
outside. -/
namespace Deliberation

variable {P P' : Pairing}

/-- The same situation up to numbers. -/
structure View.InStep (P : Pairing) (view view' : View) : Prop extends view.Paired P view' where
  calendar : view'.calendar = view.calendar
  sample : view'.sample = view.sample

/-- Plans that unify nothing on the way, and come to paired results in the same situation. -/
inductive Plan.InStep (P : Pairing) : Plan → Plan → Prop where
  | once {decide decide' : View → Except Halt Deed}
      (alike : ∀ {P' view view'}, P.Extends P' → view.InStep P' view' →
        Agree (Deed.Paired P') (decide view) (decide' view')) :
      InStep P (.act fun view => .done (decide view)) (.act fun view => .done (decide' view))
  | choices {target target' : Term} {candidates candidates' : View → Except Halt Offer}
      (targets : target.Paired P target')
      (alike : ∀ {P' view view'}, P.Extends P' → view.InStep P' view' →
        Agree (Offer.Paired P') (candidates view) (candidates' view')) :
      InStep P (.offer target fun view => .done (candidates view))
        (.offer target' fun view => .done (candidates' view))
  | collect {pattern pattern' goal goal' result result' : Term}
      (patterns : pattern.Paired P pattern') (goals : goal.Paired P goal')
      (results : result.Paired P result') :
      InStep P (.collect pattern goal result) (.collect pattern' goal' result')

theorem Plan.Paired.inStep {plan plan' : Plan} (plans : plan.Paired P plan') :
    plan.InStep P plan' := by
  cases plans with
  | once alike => exact .once fun more views => alike more views.toPaired
  | choices targets alike => exact .choices targets fun more views => alike more views.toPaired
  | collect patterns goals results => exact .collect patterns goals results

/-- Every call with paired arguments makes plans that come to the same. -/
def Action.Uniform (action : Action) : Prop :=
  ∀ {P name args args'}, List.Forall₂ (Term.Paired P) args args' →
    (action.plan name args).InStep P (action.plan name args')

theorem Action.Steady.uniform {action : Action} (steady : action.Steady) : action.Uniform :=
  fun terms => (steady terms).inStep

/-- All actions that goals can call are uniform. -/
def Context.Uniform (ctx : Context) : Prop :=
  ∀ name arity action, ctx.actions.lookup name arity = some action → action.Uniform

theorem Search.look_inStep {ctx : Context} {below below' : Trail} {s s' : State}
    (mind : ctx.mind.Paired P ctx.mind) (states : s.InStep below below' P s') :
    (look ctx s).1.InStep P (look ctx s').1 ∧
      (look ctx s).2.InStep below below' P (look ctx s').2 := by
  have calendar := congrArg Readings.next states.calendar
  have chance := congrArg Readings.next states.chance
  refine ⟨⟨⟨mind, states.scope⟩, congrArg Prod.fst calendar, congrArg Prod.fst chance⟩, ?_⟩
  exact states.later ⟨rfl, .refl _⟩ ⟨rfl, .refl _⟩ ⟨states.deadline, states.resets, states.clock,
    congrArg Prod.snd calendar, congrArg Prod.snd chance⟩

namespace Library

theorem random_uniform :
    (Action.function [] fun view _ => .ok (.num (.float view.sample))).Uniform := by
  intro P name args args' terms
  refine .once fun {P' view view'} more views => ?_
  have outputs := forall₂_getLast? (terms_mono more terms)
  simp only [Action.groundArgs, views.sample]
  generalize args.getLast? = output at outputs
  generalize args'.getLast? = output' at outputs
  cases outputs with
  | none => exact .ok (.answer false)
  | some output => exact .ok (Deed.unify_paired output (.num _))

theorem zip_paired {terms terms' : List Term} (related : List.Forall₂ (Term.Paired P) terms terms')
    (values : List Int64) :
    List.Forall₂ (fun pair pair' => pair.1.Paired P pair'.1 ∧ pair.2.Paired P pair'.2)
      (terms.zip (values.map Term.int)) (terms'.zip (values.map Term.int)) := by
  induction related generalizing values with
  | nil => exact .nil
  | cons here _ ih =>
    cases values with
    | nil => exact .nil
    | cons value values => exact .cons ⟨here, .num _⟩ (ih values)

theorem calendarParts_uniform (parts : Calendar → List Int64) :
    (Action.generator (calendarParts parts)).Uniform := by
  intro P name args args' terms
  refine .once fun more views => ?_
  rw [views.calendar]
  exact .ok (.unify (zip_paired (terms_mono more terms) _))

theorem standard_uniform {name : String} {arity : Nat} {action : Action}
    (found : standard.lookup name arity = some action) : action.Uniform := by
  by_cases outward : (⟨name, some arity⟩ : ActionKey) ∈ surroundings
  · simp only [surroundings, List.mem_cons, List.not_mem_nil, or_false, ActionKey.mk.injEq,
      Option.some.injEq] at outward
    obtain ⟨rfl, rfl⟩ | ⟨rfl, rfl⟩ | ⟨rfl, rfl⟩ := outward
    · obtain rfl := Option.some.inj found
      exact random_uniform
    · obtain rfl := Option.some.inj found
      exact calendarParts_uniform _
    · obtain rfl := Option.some.inj found
      exact calendarParts_uniform _
  · exact Action.Steady.uniform (Registry.lookup_steady standard_steady outward found)

end Library

theorem Context.uniform_of_standard {ctx : Context} (standard : ∀ name arity action,
    ctx.actions.lookup name arity = some action →
      Library.standard.lookup name arity = some action) : ctx.Uniform :=
  fun name arity action found => Library.standard_uniform (standard name arity action found)

end Deliberation
