import Deliberation.Proofs.Growth
import Deliberation.Proofs.ResumptionLimit

/-! Where a search under way is anchored. Every query is resumed for the first time in some state,
its base, and each stage of its search says how that base can be reached again: by rerolling the
choicepoint of the last solution, or by letting the inner queries end first. A `Footing` says what
it means to reach the base. In the strict sense the base is restored exactly, as long as no error
occurs; in the loose sense it is only still there below, whatever has happened. -/
namespace Deliberation

/-- The errors that a script can end in. -/
def Script.Raises {α : Type} (e : Halt) : Script α → Prop
  | .done result => result = .error e
  | .unify _ _ next => ∃ ok scope, (next ok scope).Raises e
  | .fresh next => ∃ v, (next v).Raises e

/-- The script unifies nothing. -/
def Script.Still {α : Type} : Script α → Prop
  | .done _ => True
  | .unify _ _ _ => False
  | .fresh next => ∀ v, (next v).Still

/-- The errors that a plan can end in by itself in a situation. -/
def Plan.RaisesIn (view : View) (e : Halt) : Plan → Prop
  | .act steps => (steps view).Raises e
  | .offer _ steps => (steps view).Raises e
  | .collect _ _ _ => False

def Plan.Raises (e : Halt) (plan : Plan) : Prop := ∃ view, plan.RaisesIn view e

/-- The plan unifies nothing outside of a choicepoint. -/
def Plan.Tidy : Plan → Prop
  | .act _ => True
  | .offer _ steps => ∀ view, (steps view).Still
  | .collect _ _ _ => True

/-- The errors of goals that cannot be searched for, of delays that are too long, and of registered
actions. -/
inductive Context.Raises (ctx : Context) : Halt → Prop where
  | instantiation (t : Term) : Raises ctx (.raised (.instantiation t))
  | invalidGoal (t : Term) : Raises ctx (.raised (.invalidGoal t))
  | unknownAction (name : String) (arity : Nat) : Raises ctx (.raised (.unknownAction name arity))
  | unreachable (millis : Number) : Raises ctx (.raised (.unreachable millis))
  | action {name : String} {args : List Term} {action : Action} {e : Halt}
      (registered : ctx.actions.lookup name args.length = some action)
      (raised : (action.plan name args).Raises e) : Raises ctx e

/-- No registered action unifies anything outside of a choicepoint. -/
def Context.Tidy (ctx : Context) : Prop :=
  ∀ name args action, ctx.actions.lookup name args.length = some action →
    (action.plan name args).Tidy

open State

theorem Script.raises_of_run {α : Type} {script : Script α} {s s' : State} {e : Halt}
    (failed : script.run s = (.error e, s')) : script.Raises e := by
  induction script generalizing s with
  | done result => exact congrArg Prod.fst failed
  | unify left right next ih => exact ⟨_, _, ih _ _ failed⟩
  | fresh next ih => exact ⟨_, ih _ failed⟩

theorem Script.run_returns {α : Type} {script : Script α} (still : script.Still) (s : State) :
    Returns s (script.run s).2 := by
  induction script generalizing s with
  | done result => exact .refl s
  | unify left right next ih => exact still.elim
  | fresh next ih =>
    have drawn : Returns s (s.withSupply s.platform.supply.freshVar.2) := withSupply_returns s rfl
    exact drawn.trans (ih _ (still _) _)

/-- A sense in which queries hold on to the states they begin in. -/
structure Footing (ctx : Context) where
  /-- The second state reaches the first again: no less than to return to it, and no more than that
  it has grown. -/
  reaches : State → State → Prop
  /-- Growth is all that is asked for. -/
  loose : Prop
  /-- What is known about a query wherever it is about to be resumed. -/
  underWay : Query → State → Prop
  returns : ∀ {s s'}, Returns s s' → reaches s s'
  grows : ∀ {s s'}, reaches s s' → Grows s s'
  trans : ∀ {s s' s''}, reaches s s' → reaches s' s'' → reaches s s''
  covers : loose → ∀ {s s'}, Grows s s' → reaches s s'
  offers : ctx.Tidy ∨ loose
  begins : ∀ goal s, underWay (.new goal) s
  later : ∀ {q s s'}, underWay q s → reaches s s' → underWay q s'
  resumed : ∀ {q s event next s'}, underWay q s →
    q.Resumes ctx s ⟨.ok event, next, s'⟩ → underWay next s'
  failed : loose → ∀ {q s e next s'}, underWay q s →
    q.Resumes ctx s ⟨.error e, next, s'⟩ → underWay next s'

variable {ctx : Context}

/-- A choicepoint laid on top of the base, on which everything else has grown. -/
def Guards (F : Footing ctx) (base : State) (c : Choicepoint) (s : State) : Prop :=
  ∃ laid, F.reaches base laid ∧ laid.mark.1 = c ∧ Grows laid.mark.2 s

/-- The base stands, guarded by a choicepoint if there is one. -/
def GuardsIf (F : Footing ctx) (base : State) (s : State) : Option Choicepoint → Prop
  | some c => Guards F base c s
  | none => F.reaches base s

mutual
/-- How a query that is about to be resumed in some state holds on to its base. -/
def Query.Anchored (F : Footing ctx) (base s : State) : Query → Prop
  | .pending goal => F.underWay (.pending goal) s ∧ F.reaches base s
  | .running goal search => F.underWay (.running goal search) s ∧ search.Anchored F base s
  | .done goal => F.underWay (.done goal) s ∧ F.reaches base s

def Search.Anchored (F : Footing ctx) (base s : State) : Search → Prop
  | .planned plan =>
    (∀ e, plan.Raises e → ctx.Raises e) ∧ (plan.Tidy ∨ F.loose) ∧ F.reaches base s
  | .held c => Guards F base c s
  | .choosing _ _ mark => GuardsIf F base s mark
  | .spent => F.reaches base s
  | .recalling _ _ mark => GuardsIf F base s mark
  | .applying _ _ c body => ∃ entered, Guards F base c entered ∧ body.Anchored F entered s
  | .conj left _ => left.Anchored F base s
  | .conjRight left _ right => ∃ found, left.Anchored F base found ∧ right.Anchored F found s
  | .disj left _ => left.Anchored F base s
  | .disjRight right => right.Anchored F base s
  | .negation inner (some c) => ∃ entered, Guards F base c entered ∧ inner.Anchored F entered s
  | .negation (.pending _) none => F.reaches base s
  | .negation _ none => False
end

/-- The part of being anchored that depends on the stage alone. -/
def Query.Stands (F : Footing ctx) (base s : State) : Query → Prop
  | .pending _ => F.reaches base s
  | .running _ search => search.Anchored F base s
  | .done _ => F.reaches base s

/-- What a result leaves behind: exhaustion reaches the base, a solution or a suspension leaves the
next stage anchored, and so does an error if growth is all that is asked for. -/
def Settles (F : Footing ctx) (base s : State) (anchored : Prop) :
    Except Halt Event → Prop
  | .ok .exhausted => F.reaches base s
  | .ok _ => anchored
  | .error e => ctx.Raises e ∧ (F.loose → anchored)

def Reply.SettlesSearch (F : Footing ctx) (base : State) (reply : Reply Search) : Prop :=
  Settles F base reply.state (reply.next.Anchored F base reply.state) reply.result

def Reply.SettlesQuery (F : Footing ctx) (base : State) (reply : Reply Query) : Prop :=
  Settles F base reply.state (reply.next.Anchored F base reply.state) reply.result

/-- The contract of a way to resume: an anchored query is anchored afterwards. -/
def Resumption.Keeps (F : Footing ctx) (resume : Resumption) : Prop :=
  ∀ q base s reply, q.Anchored F base s → resume q s = some reply → reply.SettlesQuery F base

variable {F : Footing ctx} {base s s' : State} {c : Choicepoint}

theorem Footing.refl (F : Footing ctx) (s : State) : F.reaches s s := F.returns (.refl s)

theorem Query.Anchored.underWay {q : Query} (anchored : q.Anchored F base s) : F.underWay q s := by
  cases q <;> exact anchored.1

theorem Query.Stands.anchored {q : Query} (stands : q.Stands F base s)
    (known : F.underWay q s) : q.Anchored F base s := by
  cases q <;> exact ⟨known, stands⟩

theorem Query.new_anchored (F : Footing ctx) (goal : Term) (s : State) :
    (Query.new goal).Anchored F s s :=
  ⟨F.begins goal s, F.refl s⟩

theorem Guards.grow (guards : Guards F base c s) (grows : Grows s s') : Guards F base c s' := by
  obtain ⟨laid, reached, same, above⟩ := guards
  exact ⟨laid, reached, same, above.trans grows⟩

theorem Guards.grows (guards : Guards F base c s) : Grows base s := by
  obtain ⟨laid, reached, -, above⟩ := guards
  exact (F.grows reached).trans ((mark_grows laid).trans above)

theorem Guards.mark (reached : F.reaches base s) : Guards F base s.mark.1 s.mark.2 :=
  ⟨s, reached, rfl, .refl _⟩

theorem Guards.of_mark (reached : F.reaches base s) (laid : s.mark = (c, s')) :
    Guards F base c s' := by
  have guards := Guards.mark reached
  rwa [laid] at guards

/-- Rerolling a guard reaches the base. -/
theorem Guards.reroll (guards : Guards F base c s) :
    ∃ s', s.reroll c = .ok s' ∧ F.reaches base s' := by
  obtain ⟨laid, reached, rfl, above⟩ := guards
  obtain ⟨s', rerolled, -, returns⟩ := above.toStacks.reroll
  exact ⟨s', rerolled, F.trans reached (F.returns returns)⟩

theorem GuardsIf.grow {mark : Option Choicepoint} (guards : GuardsIf F base s mark)
    (later : F.reaches s s') : GuardsIf F base s' mark := by
  cases mark with
  | none => exact F.trans guards later
  | some c => exact Guards.grow guards (F.grows later)

theorem GuardsIf.grows {mark : Option Choicepoint} (guards : GuardsIf F base s mark) :
    Grows base s := by
  cases mark with
  | none => exact F.grows guards
  | some c => exact Guards.grows guards

theorem GuardsIf.reroll {mark : Option Choicepoint} (guards : GuardsIf F base s mark) :
    ∃ s', s.rerollIf mark = .ok s' ∧ F.reaches base s' := by
  cases mark with
  | none => exact ⟨s, rfl, guards⟩
  | some c => exact Guards.reroll guards

mutual
/-- A query stays anchored when the state moves on in the sense of the footing. -/
theorem Query.Anchored.later (q : Query) {base s s' : State}
    (anchored : q.Anchored F base s) (moved : F.reaches s s') : q.Anchored F base s' := by
  match q with
  | .pending _ => exact ⟨F.later anchored.1 moved, F.trans anchored.2 moved⟩
  | .running _ search =>
    exact ⟨F.later anchored.1 moved, Search.Anchored.later search anchored.2 moved⟩
  | .done _ => exact ⟨F.later anchored.1 moved, F.trans anchored.2 moved⟩

theorem Search.Anchored.later (search : Search) {base s s' : State}
    (anchored : search.Anchored F base s) (moved : F.reaches s s') :
    search.Anchored F base s' := by
  match search with
  | .planned _ =>
    obtain ⟨raises, offers, reached⟩ := anchored
    exact ⟨raises, offers, F.trans reached moved⟩
  | .held _ => exact Guards.grow anchored (F.grows moved)
  | .choosing _ _ _ => exact GuardsIf.grow anchored moved
  | .spent => exact F.trans anchored moved
  | .recalling _ _ _ => exact GuardsIf.grow anchored moved
  | .applying _ _ _ body =>
    obtain ⟨entered, guards, inner⟩ := anchored
    exact ⟨entered, guards, Query.Anchored.later body inner moved⟩
  | .conj left _ => exact Query.Anchored.later left anchored moved
  | .conjRight _ _ right =>
    obtain ⟨found, left, inner⟩ := anchored
    exact ⟨found, left, Query.Anchored.later right inner moved⟩
  | .disj left _ => exact Query.Anchored.later left anchored moved
  | .disjRight right => exact Query.Anchored.later right anchored moved
  | .negation inner (some _) =>
    obtain ⟨entered, guards, below⟩ := anchored
    exact ⟨entered, guards, Query.Anchored.later inner below moved⟩
  | .negation (.pending _) none => exact F.trans anchored moved
  | .negation (.running _ _) none => exact anchored
  | .negation (.done _) none => exact anchored
end

mutual
/-- Whatever a query has done, its base is still there below. -/
theorem Query.Anchored.grows (q : Query) {base s : State}
    (anchored : q.Anchored F base s) : Grows base s := by
  match q with
  | .pending _ => exact F.grows anchored.2
  | .running _ search => exact Search.Anchored.grows search anchored.2
  | .done _ => exact F.grows anchored.2

theorem Search.Anchored.grows (search : Search) {base s : State}
    (anchored : search.Anchored F base s) : Grows base s := by
  match search with
  | .planned _ => exact F.grows anchored.2.2
  | .held _ => exact Guards.grows anchored
  | .choosing _ _ _ => exact GuardsIf.grows anchored
  | .spent => exact F.grows anchored
  | .recalling _ _ _ => exact GuardsIf.grows anchored
  | .applying _ _ _ body =>
    obtain ⟨entered, guards, inner⟩ := anchored
    exact guards.grows.trans (Query.Anchored.grows body inner)
  | .conj left _ => exact Query.Anchored.grows left anchored
  | .conjRight left _ right =>
    obtain ⟨found, outer, inner⟩ := anchored
    exact (Query.Anchored.grows left outer).trans (Query.Anchored.grows right inner)
  | .disj left _ => exact Query.Anchored.grows left anchored
  | .disjRight right => exact Query.Anchored.grows right anchored
  | .negation inner (some _) =>
    obtain ⟨entered, guards, below⟩ := anchored
    exact guards.grows.trans (Query.Anchored.grows inner below)
  | .negation (.pending _) none => exact F.grows anchored
end

end Deliberation
