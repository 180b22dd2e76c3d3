import Deliberation.Library
import Deliberation.Proofs.Anchoring

/-! What the standard library promises: its actions unify nothing outside of a choicepoint, none of
their errors blames a choicepoint, and only sorting can panic, over a sequence whose comparisons
contradict each other. -/
namespace Deliberation

/-- It is not an error about a choicepoint. -/
def Halt.Ordinary : Halt → Prop
  | .raised (.choicepointNotFound _) => False
  | _ => True

/-- If the computation fails, then with an ordinary error and not with a panic. -/
def Quiet {α : Type} (x : Except Halt α) : Prop :=
  ∀ e, x = .error e → e.Ordinary ∧ e ≠ .panicked

theorem quiet_ok {α : Type} (a : α) : Quiet (.ok a) := by
  intro e failed
  simp at failed

theorem quiet_error {α : Type} {e : EngineError} (ordinary : (Halt.raised e).Ordinary) :
    Quiet (.error (.raised e) : Except Halt α) := by
  intro other failed
  obtain rfl := Except.error.inj failed
  exact ⟨ordinary, nofun⟩

theorem Quiet.bind {α β : Type} {x : Except Halt α} {f : α → Except Halt β}
    (first : Quiet x) (rest : ∀ a, Quiet (f a)) : Quiet (x >>= f) := by
  cases x with
  | error e =>
    intro other failed
    obtain rfl := Except.error.inj failed
    exact first e rfl
  | ok a => exact rest a

theorem Quiet.map {α β : Type} {x : Except Halt α} (f : α → β) (quiet : Quiet x) :
    Quiet (x.map f) := by
  cases x with
  | error e =>
    intro other failed
    obtain rfl := Except.error.inj failed
    exact quiet e rfl
  | ok a => exact quiet_ok (f a)

/-- The plan keeps to its choicepoint and fails with ordinary errors only. -/
def Plan.Orderly (plan : Plan) : Prop :=
  plan.Tidy ∧ ∀ e, plan.Raises e → e.Ordinary ∧ e ≠ .panicked

/-- Every call of the action makes an orderly plan. -/
def Action.Orderly (action : Action) : Prop := ∀ name args, (action.plan name args).Orderly

theorem Plan.once_orderly {decide : View → Except Halt Deed}
    (quiet : ∀ view, Quiet (decide view)) : (Plan.once decide).Orderly := by
  refine ⟨trivial, ?_⟩
  rintro e ⟨view, failed⟩
  exact quiet view e failed

theorem Plan.choices_orderly {target : Term} {candidates : View → Except Halt Offer}
    (quiet : ∀ view, Quiet (candidates view)) : (Plan.choices target candidates).Orderly := by
  refine ⟨fun _ => trivial, ?_⟩
  rintro e ⟨view, failed⟩
  exact quiet view e failed

theorem Plan.answer_orderly (holds : Bool) : (Plan.once fun _ => .ok (.answer holds)).Orderly :=
  once_orderly fun _ => quiet_ok _

namespace Scope

theorem grounded_quiet (scope : Scope) (t : Term) : Quiet (scope.grounded t) := by
  unfold grounded
  split
  · exact quiet_error trivial
  · exact quiet_ok _

theorem elements_quiet (scope : Scope) (t : Term) : Quiet (scope.elements t) := by
  unfold elements
  split
  · exact quiet_error trivial
  · exact quiet_ok _
  · exact quiet_ok _
  · exact quiet_error trivial

end Scope

namespace Action

theorem groundArgs_quiet (name : String) (scope : Scope) (params : List Param)
    (args : List Term) : Quiet (groundArgs name scope params args) := by
  fun_induction groundArgs name scope params args with
  | case1 param params arg args ih =>
    refine (scope.grounded_quiet arg).bind fun value => ?_
    split
    · exact ih.bind fun _ => quiet_ok _
    · exact quiet_error trivial
  | case2 => exact quiet_ok _

theorem function_orderly {params : List Param} {call : View → List Term → Except Halt Term}
    (quiet : ∀ view values, Quiet (call view values)) : (Action.function params call).Orderly := by
  intro name args
  refine Plan.once_orderly fun view => ?_
  split
  · exact quiet_ok _
  · refine (groundArgs_quiet name view.scope params _).bind fun values => ?_
    exact (quiet view values).bind fun _ => quiet_ok _

theorem predicate_orderly {params : List Param} {test : List Term → Except Halt Bool}
    (quiet : ∀ values, Quiet (test values)) : (Action.predicate params test).Orderly := by
  intro name args
  refine Plan.once_orderly fun view => ?_
  refine (groundArgs_quiet name view.scope params _).bind fun values => ?_
  exact (quiet values).bind fun _ => quiet_ok _

end Action

namespace Registry

/-- What holds of all entries and of a new one holds of all entries once it is registered. -/
theorem forall_register {r : Registry} {P : ActionKey × Action → Prop}
    (each : ∀ entry ∈ r.actions, P entry) (name : String) (arity : Option Nat) {action : Action}
    (new : P (⟨name, arity⟩, action)) :
    ∀ entry ∈ (r.register name arity action).actions, P entry := by
  intro entry member
  rcases List.mem_append.mp member with old | added
  · exact each entry (List.mem_filter.mp old).1
  · obtain rfl := List.mem_singleton.mp added
    exact new

/-- An action that is found is registered, with that arity or for every number of arguments. -/
theorem mem_of_lookup {r : Registry} {name : String} {arity : Nat} {action : Action}
    (found : r.lookup name arity = some action) :
    (⟨name, some arity⟩, action) ∈ r.actions ∨ (⟨name, none⟩, action) ∈ r.actions := by
  have registered {key : ActionKey} (here : r.find? key = some action) :
      (key, action) ∈ r.actions := by
    obtain ⟨before, after, split, -⟩ := List.lookup_eq_some_iff.mp here
    simp [split]
  rcases Option.or_eq_some_iff.mp found with exact | ⟨-, variadic⟩
  · exact .inl (registered exact)
  · exact .inr (registered variadic)

/-- Every registered action but that of sorting is orderly. -/
def Orderly (r : Registry) : Prop :=
  ∀ entry ∈ r.actions, entry.2.Orderly ∨ entry = (⟨".sort", some 2⟩, Library.sorting)

theorem register_orderly {r : Registry} (orderly : r.Orderly) (name : String) (arity : Option Nat)
    {action : Action} (new : action.Orderly) : (r.register name arity action).Orderly :=
  forall_register orderly name arity (.inl new)

theorem lookup_orderly {r : Registry} (orderly : r.Orderly) {name : String} {arity : Nat}
    {action : Action} (found : r.lookup name arity = some action) :
    action.Orderly ∨ name = ".sort" ∧ arity = 2 ∧ action = Library.sorting := by
  rcases mem_of_lookup found with exact | variadic
  · refine (orderly _ exact).imp_right fun same => ?_
    simp only [Prod.mk.injEq, ActionKey.mk.injEq, Option.some.injEq] at same
    exact ⟨same.1.1, same.1.2, same.2⟩
  · exact (orderly _ variadic).imp_right fun same => by simp at same

end Registry

namespace Library

open Plan Registry

theorem wait_orderly (args : List Term) : (wait args).Orderly := by
  unfold wait
  split
  · rename_i millis
    refine once_orderly fun view => (view.scope.grounded_quiet millis).bind fun value => ?_
    split
    · split
      · exact quiet_ok _
      · exact quiet_error trivial
    · exact quiet_error trivial
  · exact answer_orderly false

theorem count_orderly (args : List Term) : (count args).Orderly := by
  unfold count
  split
  · refine once_orderly fun view => ?_
    dsimp only
    split
    · exact quiet_error trivial
    · exact quiet_error trivial
    · exact quiet_ok _
  · exact answer_orderly false

theorem findall_orderly (args : List Term) : (findall args).Orderly := by
  unfold findall
  split
  · exact ⟨trivial, fun _ ⟨_, raised⟩ => raised.elim⟩
  · exact answer_orderly false

theorem myName_orderly (args : List Term) : (myName args).Orderly := by
  unfold myName
  split
  · exact once_orderly fun _ => quiet_ok _
  · exact answer_orderly false

theorem ground_orderly (args : List Term) : (ground args).Orderly := by
  refine once_orderly fun view => ?_
  split <;> exact quiet_ok _

theorem member_orderly (args : List Term) : (member args).Orderly := by
  unfold member
  split
  · exact choices_orderly fun view => (view.scope.elements_quiet _).map _
  · exact answer_orderly false

theorem range_orderly (args : List Term) : (range args).Orderly := by
  unfold range
  split
  · rename_i target bound
    refine choices_orderly fun view => (view.scope.grounded_quiet bound).bind fun value => ?_
    split
    · exact quiet_ok _
    · exact quiet_error trivial
  · exact answer_orderly false

theorem groundAll_quiet (scope : Scope) (args : List Term) : Quiet (groundAll scope args) := by
  induction args with
  | nil => exact quiet_ok _
  | cons arg rest ih =>
    exact (scope.grounded_quiet arg).bind fun _ => ih.bind fun _ => quiet_ok _

theorem concat_orderly (args : List Term) : (concat args).Orderly := by
  refine once_orderly fun view => ?_
  split
  · exact quiet_error trivial
  · exact (groundAll_quiet view.scope _).bind fun _ => quiet_ok _

theorem substring_orderly (args : List Term) : (substring args).Orderly := by
  unfold substring
  split
  · refine choices_orderly fun view => (view.scope.grounded_quiet _).bind fun _ => ?_
    exact (view.scope.grounded_quiet _).bind fun _ => quiet_ok _
  · exact answer_orderly false

theorem extremum_quiet (name : String) (pick : List Term → Option Term) (values : List Term) :
    Quiet (extremum name pick values) := by
  unfold extremum
  split
  · exact quiet_ok _
  · exact quiet_error trivial

theorem lengthOf_quiet (values : List Term) : Quiet (lengthOf values) := by
  unfold lengthOf
  split
  · exact quiet_ok _
  · exact quiet_ok _
  · exact quiet_error trivial
  · exact quiet_error trivial

theorem nth_quiet (values : List Term) : Quiet (nth values) := by
  unfold nth
  split
  · dsimp only
    split
    · exact quiet_ok _
    · exact quiet_error trivial
  · exact quiet_error trivial

theorem testFirst_quiet (test : Term → Bool) (values : List Term) :
    Quiet (testFirst test values) := by
  cases values <;> exact quiet_ok _

variable {r : Registry}

theorem addControl_orderly (orderly : r.Orderly) : (addControl r).Orderly := by
  have constant (deed : List Term → Deed) :
      (Action.generator fun args => .once fun _ => .ok (deed args)).Orderly :=
    fun _ _ => once_orderly fun _ => quiet_ok _
  refine register_orderly ?_ _ _ (constant fun _ => .stop)
  refine register_orderly ?_ _ _ (constant .print)
  refine register_orderly ?_ _ _ (constant fun _ => .forget)
  refine register_orderly ?_ _ _ fun _ => wait_orderly
  exact register_orderly orderly _ _ (constant fun _ => .answer false)

theorem addIntrospection_orderly (orderly : r.Orderly) : (addIntrospection r).Orderly := by
  refine register_orderly ?_ _ _ fun _ _ => once_orderly fun _ => quiet_ok _
  refine register_orderly ?_ _ _ fun _ => myName_orderly
  refine register_orderly ?_ _ _ fun _ => findall_orderly
  exact register_orderly orderly _ _ fun _ => count_orderly

/-- What holds of all entries, of every test of a kind and of the test for variables holds of all
entries once the tests are there. -/
theorem forall_addKinds {P : ActionKey × Action → Prop} (each : ∀ entry ∈ r.actions, P entry)
    (tests : ∀ name test, P (⟨name, some 1⟩, .predicate [.any] (testFirst test)))
    (last : P (⟨".ground", some 1⟩, .generator ground)) :
    ∀ entry ∈ (addKinds r).actions, P entry := by
  have added (entries : List (String × (Term → Bool))) (r : Registry)
      (each : ∀ entry ∈ r.actions, P entry) :
      ∀ entry ∈ (entries.foldl (fun r entry =>
        r.addPredicate entry.1 [.any] (testFirst entry.2)) r).actions, P entry := by
    induction entries generalizing r with
    | nil => exact each
    | cons entry rest ih => exact ih _ (forall_register each _ _ (tests entry.1 entry.2))
  exact forall_register (added kindTests r each) _ _ last

theorem addKinds_orderly (orderly : r.Orderly) : (addKinds r).Orderly :=
  forall_addKinds orderly (fun _ test => .inl (Action.predicate_orderly (testFirst_quiet test)))
    (.inl fun _ => ground_orderly)

theorem addSequences_orderly (orderly : r.Orderly) : (addSequences r).Orderly := by
  refine register_orderly ?_ _ _ fun _ => range_orderly
  refine register_orderly ?_ _ _ fun _ => member_orderly
  refine forall_register ?_ _ _ (.inr rfl)
  refine register_orderly ?_ _ _ (Action.function_orderly fun _ => nth_quiet)
  refine register_orderly ?_ _ _ (Action.function_orderly fun _ => lengthOf_quiet)
  refine register_orderly ?_ _ _ (Action.function_orderly fun _ => extremum_quiet _ _)
  exact register_orderly orderly _ _ (Action.function_orderly fun _ => extremum_quiet _ _)

theorem addTexts_orderly (orderly : r.Orderly) : (addTexts r).Orderly := by
  refine register_orderly ?_ _ _ fun _ => substring_orderly
  exact register_orderly orderly _ _ fun _ => concat_orderly

theorem addSurroundings_orderly (orderly : r.Orderly) : (addSurroundings r).Orderly := by
  refine register_orderly ?_ _ _ fun _ _ => once_orderly fun _ => quiet_ok _
  refine register_orderly ?_ _ _ fun _ _ => once_orderly fun _ => quiet_ok _
  exact register_orderly orderly _ _ (Action.function_orderly fun _ _ => quiet_ok _)

/-- A call of `.sort` whose first argument stands for a sequence that has no order. -/
def SortsInVain (args : List Term) (scope : Scope) : Prop :=
  ∃ input output items, args = [input, output] ∧ scope.grounded input = .ok (.seq items) ∧
    sort? items = none

/-- The values of one argument that has to be a sequence. -/
theorem groundArgs_sequence {name : String} {scope : Scope} {input : Term} {values : List Term}
    (grounds : Action.groundArgs name scope [.sequence] [input] = .ok values) :
    ∃ items, scope.grounded input = .ok (.seq items) ∧ values = [.seq items] := by
  simp only [Action.groundArgs] at grounds
  cases ground : scope.grounded input with
  | error halt =>
    rw [ground] at grounds
    cases grounds
  | ok value =>
    rw [ground] at grounds
    cases value with
    | seq items => exact ⟨items, rfl, (Except.ok.inj grounds).symm⟩
    | _ => cases grounds

theorem sorting_raises {args : List Term} (two : args.length = 2) {view : View} {e : Halt}
    (raised : (sorting.plan ".sort" args).RaisesIn view e) :
    e.Ordinary ∧ (e = .panicked → SortsInVain args view.scope) := by
  obtain ⟨input, output, rfl⟩ : ∃ input output, args = [input, output] := by
    match args, two with
    | [input, output], _ => exact ⟨input, output, rfl⟩
  change (Action.groundArgs ".sort" view.scope [.sequence] [input] >>= fun values =>
    sorted values >>= fun result => .ok (Deed.unify [(output, result)])) = .error e at raised
  cases grounds : Action.groundArgs ".sort" view.scope [.sequence] [input] with
  | error halt =>
    rw [grounds] at raised
    obtain rfl := Except.error.inj raised
    obtain ⟨ordinary, calm⟩ := Action.groundArgs_quiet _ _ _ _ _ grounds
    exact ⟨ordinary, fun same => absurd same calm⟩
  | ok values =>
    obtain ⟨items, ground, rfl⟩ := groundArgs_sequence grounds
    rw [grounds] at raised
    change (sorted [.seq items] >>= _) = _ at raised
    cases found : sort? items with
    | some arranged =>
      simp only [sorted, sequenceOf, found] at raised
      cases raised
    | none =>
      simp only [sorted, sequenceOf, found] at raised
      obtain rfl := Except.error.inj raised
      exact ⟨trivial, fun _ => ⟨input, output, items, rfl, ground, found⟩⟩

theorem sorting_panics {input : Term} {items : List Term} {view : View} (output : Term)
    (ground : view.scope.grounded input = .ok (.seq items)) (vain : sort? items = none) :
    (sorting.plan ".sort" [input, output]).RaisesIn view .panicked := by
  change (Action.groundArgs ".sort" view.scope [.sequence] [input] >>= fun values =>
    sorted values >>= fun result => .ok (Deed.unify [(output, result)])) = .error .panicked
  have grounds : Action.groundArgs ".sort" view.scope [.sequence] [input] = .ok [.seq items] := by
    simp only [Action.groundArgs, ground]
    rfl
  have panics : sorted [.seq items] = .error .panicked := by
    simp only [sorted, sequenceOf, vain]
  rw [grounds]
  change (sorted [.seq items] >>= _) = _
  rw [panics]
  rfl

/-- Every standard action is orderly. -/
theorem standard_orderly : standard.Orderly := by
  refine addSurroundings_orderly (addTexts_orderly (addSequences_orderly ?_))
  refine addKinds_orderly (addIntrospection_orderly (addControl_orderly ?_))
  intro entry member
  simp at member

end Library

section Standard

variable {name : String} {args : List Term} {action : Action}
  (found : Library.standard.lookup name args.length = some action)
include found

theorem Library.standard_tidy : (action.plan name args).Tidy := by
  rcases Registry.lookup_orderly standard_orderly found with orderly | ⟨-, -, rfl⟩
  · exact (orderly name args).1
  · trivial

/-- Of the standard actions only sorting panics, and only over a sequence that has no order. -/
theorem Library.standard_raises {view : View} {e : Halt}
    (raised : (action.plan name args).RaisesIn view e) :
    e.Ordinary ∧ (e = .panicked →
      name = ".sort" ∧ action = sorting ∧ SortsInVain args view.scope) := by
  rcases Registry.lookup_orderly standard_orderly found with orderly | ⟨rfl, two, rfl⟩
  · obtain ⟨ordinary, calm⟩ := (orderly name args).2 e ⟨view, raised⟩
    exact ⟨ordinary, fun same => absurd same calm⟩
  · obtain ⟨ordinary, panics⟩ := sorting_raises two raised
    exact ⟨ordinary, fun same => ⟨rfl, rfl, panics same⟩⟩

end Standard

/-- Every registered action is a standard one, or unifies nothing outside of a choicepoint. -/
def Context.Guarded (ctx : Context) : Prop :=
  ∀ name args action, ctx.actions.lookup name args.length = some action →
    Library.standard.lookup name args.length = some action ∨ (action.plan name args).Tidy

/-- Every registered action is a standard one, or blames no choicepoint. -/
def Context.Blameless (ctx : Context) : Prop :=
  ∀ name args action, ctx.actions.lookup name args.length = some action →
    Library.standard.lookup name args.length = some action ∨
      ∀ e, (action.plan name args).Raises e → e.Ordinary

theorem Context.Guarded.tidy {ctx : Context} (guarded : ctx.Guarded) : ctx.Tidy := by
  intro name args action registered
  rcases guarded name args action registered with standard | tidy
  · exact Library.standard_tidy standard
  · exact tidy

theorem Context.Blameless.ordinary {ctx : Context} (blameless : ctx.Blameless) {e : Halt}
    (raised : ctx.Raises e) : e.Ordinary := by
  cases raised with
  | instantiation t => trivial
  | invalidGoal t => trivial
  | unknownAction name arity => trivial
  | unreachable millis => trivial
  | action registered raised =>
    rcases blameless _ _ _ registered with standard | ordinary
    · obtain ⟨view, raised⟩ := raised
      exact (Library.standard_raises standard raised).1
    · exact ordinary e raised

/-- An agent with the standard library that believes `p(1)`. -/
def Context.sample : Context where
  actions := Library.standard
  mind := { id := ⟨1⟩, name := "a", beliefs := { facts := [(⟨"p", 1⟩, [.lit "p" [.int 1] []])] } }

/-- A state with one binding above one choicepoint. -/
def State.sample : State where
  intention :=
    { id := ⟨1⟩, bindings := { scope := ⟨[(⟨9⟩, .int 4)]⟩, trail := [.binding ⟨9⟩, .mark ⟨1⟩] } }
  platform := { supply := { nextVar := 10, nextChoicepoint := 2 } }

/-- The goal that asks for what the agent believes. -/
def Term.sample (v : Nat) : Term := .lit "p" [.var ⟨v⟩] []

end Deliberation
