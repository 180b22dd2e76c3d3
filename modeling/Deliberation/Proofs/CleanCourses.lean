import Deliberation.Proofs.ActionVariables
import Deliberation.Proofs.Calls

/-! Which variables a course comes to. Whatever the evaluator does for a task, it keeps to the
variables of the task, of the scope and of those that it takes on the way, and every use of a stored
clause takes its variables afresh. -/
namespace Deliberation

variable {A A' : Set Var}

mutual
/-- The terms that are still looked at are over the set; the goal of a query that is begun is not
one of them. -/
def Query.Over (A : Set Var) : Query → Prop
  | .pending goal => goal.Over A
  | .running _ search => search.Over A
  | .done _ => True

def Search.Over (A : Set Var) : Search → Prop
  | .planned plan => plan.Over A
  | .held _ => True
  | .choosing target rest _ => target.Over A ∧ rest.Over A
  | .spent => True
  | .recalling goal _ _ => goal.Over A
  | .applying goal _ _ body => goal.Over A ∧ body.Over A
  | .conj left rightGoal => left.Over A ∧ rightGoal.Over A
  | .conjRight left rightGoal right => left.Over A ∧ rightGoal.Over A ∧ right.Over A
  | .disj left rightGoal => left.Over A ∧ rightGoal.Over A
  | .disjRight right => right.Over A
  | .negation inner _ => inner.Over A
end

mutual
theorem Query.Over.mono (more : A ⊆ A') : ∀ {q : Query}, q.Over A → q.Over A'
  | .pending _, owned => Term.Over.mono owned more
  | .running _ _, owned => Search.Over.mono more owned
  | .done _, _ => trivial

theorem Search.Over.mono (more : A ⊆ A') : ∀ {search : Search}, search.Over A → search.Over A'
  | .planned _, owned => Plan.Over.mono owned more
  | .held _, _ => trivial
  | .choosing _ _ _, ⟨targets, offers⟩ => ⟨targets.mono more, offers.mono more⟩
  | .spent, _ => trivial
  | .recalling _ _ _, owned => Term.Over.mono owned more
  | .applying _ _ _ _, ⟨goals, bodies⟩ => ⟨goals.mono more, Query.Over.mono more bodies⟩
  | .conj _ _, ⟨lefts, goals⟩ => ⟨Query.Over.mono more lefts, goals.mono more⟩
  | .conjRight _ _ _, ⟨lefts, goals, rights⟩ =>
    ⟨Query.Over.mono more lefts, goals.mono more, Query.Over.mono more rights⟩
  | .disj _ _, ⟨lefts, goals⟩ => ⟨Query.Over.mono more lefts, goals.mono more⟩
  | .disjRight _, owned => Query.Over.mono more owned
  | .negation _ _, owned => Query.Over.mono more owned
end

theorem Query.ofSearch_over {g : Term} {found : Reply Search} (owned : found.next.Over A) :
    (ofSearch g found).next.Over A := by
  obtain ⟨_ | (_ | _ | _), next, s⟩ := found
  · exact owned
  · exact owned
  · exact owned
  · trivial

def Context.Frugal (ctx : Context) : Prop :=
  ∀ name arity action, ctx.actions.lookup name arity = some action → action.Frugal

theorem Search.ofGoal_over {ctx : Context} (frugal : ctx.Frugal) {scope : Scope}
    (scopes : scope.Over A) {goal : Term} (goals : goal.Over A) {search : Search}
    (begun : ofGoal ctx scope goal = .ok search) : search.Over A := by
  have walked := scopes.walk goals
  unfold ofGoal at begun
  generalize scope.walk goal = value at walked begun
  split at begun
  · simp at begun
  · obtain rfl := Except.ok.inj begun
    exact Plan.answer_over true
  · obtain rfl := Except.ok.inj begun
    exact Plan.answer_over false
  · obtain rfl := Except.ok.inj begun
    exact ⟨walked.arg (by simp), walked.arg (by simp)⟩
  · obtain rfl := Except.ok.inj begun
    exact ⟨walked.arg (by simp), walked.arg (by simp)⟩
  · obtain rfl := Except.ok.inj begun
    exact walked.arg (List.mem_singleton_self _)
  · obtain rfl := Except.ok.inj begun
    refine .once fun more _ => gives_ok (Deed.unify_over ?_ ?_)
    · exact (walked.arg (by simp)).mono more
    · exact (walked.arg (by simp)).mono more
  · rename_i functor args annots _ _ _ _ _ _
    split at begun
    · unfold call at begun
      split at begun
      · rename_i action found
        obtain rfl := Except.ok.inj begun
        exact frugal _ _ _ found fun t member => walked.arg member
      · simp at begun
    · obtain rfl := Except.ok.inj begun
      exact walked
  · simp at begun

/-- The clause is in the belief base. -/
def Mind.Stores (m : Mind) : Clause → Prop
  | .fact t => ∃ group, t ∈ m.beliefs.lookup group
  | .rule r => ∃ group, r ∈ m.beliefs.rules group

theorem Index.exists_entry {α : Type} {index : Index α} {g : Group} {a : α}
    (member : a ∈ index.members g) : ∃ entry ∈ index, a ∈ entry.2 := by
  induction index with
  | nil => simp [members] at member
  | cons entry rest ih =>
    obtain ⟨h, as⟩ := entry
    simp only [members, List.lookup_cons] at member ih
    split at member
    · exact ⟨(h, as), List.mem_cons_self, member⟩
    · obtain ⟨entry, inside, found⟩ := ih member
      exact ⟨entry, List.mem_cons_of_mem _ inside, found⟩

/-- What holds of all entries holds of all that is stored. -/
theorem Mind.forall_stored {m : Mind} {p : Clause → Prop}
    (facts : ∀ entry ∈ m.beliefs.facts, ∀ t ∈ entry.2, p (.fact t))
    (rules : ∀ entry ∈ m.beliefs.ruleIndex, ∀ r ∈ entry.2, p (.rule r)) (clause : Clause)
    (stored : m.Stores clause) : p clause := by
  cases clause with
  | fact t =>
    obtain ⟨group, member⟩ := stored
    obtain ⟨entry, inside, found⟩ := Index.exists_entry member
    exact facts entry inside t found
  | rule r =>
    obtain ⟨group, member⟩ := stored
    obtain ⟨entry, inside, found⟩ := Index.exists_entry member
    exact rules entry inside r found

theorem Mind.stores_fact {m : Mind} {group : Group} {i : Nat} {fact : Term} {more : List Term}
    (dropped : (m.beliefs.lookup group).drop i = fact :: more) : m.Stores (.fact fact) :=
  ⟨group, List.mem_of_mem_drop (dropped ▸ List.mem_cons_self)⟩

theorem Mind.stores_rule {m : Mind} {group : Group} {i : Nat} {rule : Rule} {more : List Rule}
    (dropped : (m.beliefs.rules group).drop i = rule :: more) : m.Stores (.rule rule) :=
  ⟨group, List.mem_of_mem_drop (dropped ▸ List.mem_cons_self)⟩

/-- A clause that is used is stored, and its copy takes the variables that are handed out. -/
def Happening.Afresh (mind : Mind) : Happening → Prop
  | use stored copy s s' => mind.Stores stored ∧
      stored.Variant (Var.between s.nextVar s'.nextVar) copy
  | _ => True

/-- What happens keeps to the variables that are known or taken since a number was the next. -/
structure Happening.Clean (mind : Mind) (known : Set Var) (first : Nat) (h : Happening) : Prop where
  before : h.before.Owns known first
  after : h.after.Owns known first
  grown : h.before.nextVar ≤ h.after.nextVar
  afresh : h.Afresh mind

/-- What happens between two states is clean, and numbers are handed out upwards. -/
inductive Episode (mind : Mind) (known : Set Var) (first : Nat) :
    State → List Happening → State → Prop where
  | nil {s s' : State} (grown : s.nextVar ≤ s'.nextVar) (owns : s'.Owns known first) :
      Episode mind known first s [] s'
  | cons {s s' : State} {h : Happening} {trace : List Happening}
      (grown : s.nextVar ≤ h.before.nextVar) (clean : h.Clean mind known first)
      (rest : Episode mind known first h.after trace s') :
      Episode mind known first s (h :: trace) s'

variable {mind : Mind} {known : Set Var} {first : Nat} {s s' s'' : State}
  {trace trace' : List Happening}

namespace Episode

theorem grown (episode : Episode mind known first s trace s') : s.nextVar ≤ s'.nextVar := by
  induction episode with
  | nil grown => exact grown
  | cons grown clean _ ih => exact Nat.le_trans grown (Nat.le_trans clean.grown ih)

theorem owns (episode : Episode mind known first s trace s') : s'.Owns known first := by
  induction episode with
  | nil _ owns => exact owns
  | cons _ _ _ ih => exact ih

theorem since (earlier : s.nextVar ≤ s'.nextVar) (episode : Episode mind known first s' trace s'') :
    Episode mind known first s trace s'' := by
  cases episode with
  | nil grown owns => exact .nil (Nat.le_trans earlier grown) owns
  | cons grown clean rest => exact .cons (Nat.le_trans earlier grown) clean rest

theorem append (episode : Episode mind known first s trace s')
    (later : Episode mind known first s' trace' s'') :
    Episode mind known first s (trace ++ trace') s'' := by
  induction episode with
  | nil grown _ => exact later.since grown
  | cons grown clean _ ih => exact .cons grown clean (ih later)

theorem more (episode : Episode mind known first s trace s') :
    s.own known first ⊆ s'.own known first :=
  State.own_mono episode.grown

theorem start (owns : s.Owns known first) : Episode mind known first s [.state s] s :=
  .cons (Nat.le_refl _) ⟨owns, owns, Nat.le_refl _, trivial⟩ (.nil (Nat.le_refl _) owns)

/-- The end of an episode is a moment of its own. -/
theorem arrive (episode : Episode mind known first s trace s') :
    Episode mind known first s (trace ++ [.state s']) s' :=
  episode.append (.start episode.owns)

-- Steps in which nothing happens that is seen from outside.
theorem mark (owns : s.Owns known first) : Episode mind known first s [] s.mark.2 :=
  .nil (Nat.le_refl _) (owns.later rfl (Nat.le_refl _))

theorem reroll (owns : s.Owns known first) {c : Choicepoint} (undone : s.reroll c = .ok s') :
    Episode mind known first s [] s' :=
  .nil (State.reroll_later undone).supply.vars (owns.reroll undone)

theorem unify (owns : s.Owns known first) {left right : Term}
    (lefts : left.Over (s.own known first)) (rights : right.Over (s.own known first)) :
    Episode mind known first s [] (s.unify left right).2 :=
  .nil (Nat.le_refl _) (owns.unify lefts rights)

/-- An attempt to unify under a fresh choicepoint. -/
theorem attempt (owns : s.Owns known first) {left right : Term}
    (lefts : left.Over (s.own known first)) (rights : right.Over (s.own known first)) {ok : Bool}
    (unified : s.mark.2.unify left right = (ok, s')) : Episode mind known first s [] s' := by
  have marked : Episode mind known first s [] s.mark.2 := .mark owns
  obtain rfl : (s.mark.2.unify left right).2 = s' := congrArg Prod.snd unified
  exact marked.append (.unify marked.owns lefts rights)

theorem takeVars (owns : s.Owns known first) (count : Nat) :
    Episode mind known first s [] (s.withSupply (s.platform.supply.freshVars count).2) :=
  .nil (Nat.le_add_right ..) (owns.later rfl (Nat.le_add_right ..))

/-- A snapshot takes fresh variables, and has no others. -/
theorem freeze (mind : Mind) (owns : s.Owns known first) {pattern value : Term}
    {names names' : Renaming} {supply : Supply} (named : names.Over (s.own known first))
    (frozen : s.scope.freeze pattern names s.platform.supply = (value, names', supply)) :
    Episode mind known first s [] (s.withSupply supply) ∧
      value.Over ((s.withSupply supply).own known first) ∧
      names'.Over ((s.withSupply supply).own known first) := by
  have grown : s.nextVar ≤ (s.withSupply supply).nextVar := by
    have before := (s.scope.before_freeze pattern names s.platform.supply).vars
    rwa [frozen] at before
  have fresh : Var.between s.nextVar (s.withSupply supply).nextVar ⊆ _ := owns.fresh
  have snapshot := s.scope.freeze_over pattern names s.platform.supply
    (fun pair member => State.own_mono grown (named pair member)) (by rw [frozen]; exact fresh)
  rw [frozen] at snapshot
  exact ⟨.nil grown (owns.later rfl grown), snapshot⟩

end Episode

open Query (factTry ruleTry)

namespace State

theorem factTry_grown (s : State) (fact : Term) : s.nextVar ≤ (factTry s fact).2.nextVar :=
  (Scope.before_freeze ..).vars

theorem ruleTry_grown (s : State) (rule : Rule) : s.nextVar ≤ (ruleTry s rule).2.2.nextVar :=
  Nat.le_trans (Scope.before_freeze ..).vars (Scope.before_freeze ..).vars

end State

namespace Episode

theorem useFact (owns : s.Owns known first) {fact : Term} (stored : mind.Stores (.fact fact)) :
    Episode mind known first s [.ofFact s fact] (factTry s fact).2 := by
  have grown := s.factTry_grown fact
  have tried : (factTry s fact).2.Owns known first := owns.later rfl grown
  exact .cons (Nat.le_refl _) ⟨owns, tried, grown, stored, s.factTry_variant fact⟩
    (.nil (Nat.le_refl _) tried)

theorem useRule (owns : s.Owns known first) {rule : Rule} (stored : mind.Stores (.rule rule)) :
    Episode mind known first s [.ofRule s rule] (ruleTry s rule).2.2 := by
  have grown := s.ruleTry_grown rule
  have tried : (ruleTry s rule).2.2.Owns known first := owns.later rfl grown
  exact .cons (Nat.le_refl _) ⟨owns, tried, grown, stored, s.ruleTry_variant rule⟩
    (.nil (Nat.le_refl _) tried)

/-- The search comes to a fact and tries it. -/
theorem tryFact (owns : s.Owns known first) {goal fact : Term}
    (goals : goal.Over (s.own known first)) (stored : mind.Stores (.fact fact)) {ok : Bool}
    (unified : (factTry s fact).2.mark.2.unify goal (factTry s fact).1 = (ok, s')) :
    Episode mind known first s [.state s, .ofFact s fact] s' := by
  have used := Episode.useFact owns stored
  have copies : (factTry s fact).1.Over ((factTry s fact).2.own known first) :=
    fun v member => owns.fresh ((s.factTry_variant fact).over v member)
  exact ((Episode.start owns).append used).append
    (.attempt used.owns (goals.mono used.more) copies unified)

/-- The search comes to a rule and tries it; then the body has no other variables either. -/
theorem tryRule (owns : s.Owns known first) {goal : Term} {rule : Rule}
    (goals : goal.Over (s.own known first)) (stored : mind.Stores (.rule rule)) {ok : Bool}
    (unified : (ruleTry s rule).2.2.mark.2.unify goal (ruleTry s rule).1 = (ok, s')) :
    Episode mind known first s [.state s, .ofRule s rule] s' ∧
      (ruleTry s rule).2.1.Over (s'.own known first) := by
  have used := Episode.useRule owns stored
  have copies := (s.ruleTry_variant rule).over
  simp only [Clause.vars, List.mem_append] at copies
  have heads : (ruleTry s rule).1.Over ((ruleTry s rule).2.2.own known first) :=
    fun v member => owns.fresh (copies v (.inl member))
  have bodies : (ruleTry s rule).2.1.Over ((ruleTry s rule).2.2.own known first) :=
    fun v member => owns.fresh (copies v (.inr member))
  have tried : Episode mind known first (ruleTry s rule).2.2 [] s' :=
    .attempt used.owns (goals.mono used.more) heads unified
  exact ⟨((Episode.start owns).append used).append tried, bodies.mono tried.more⟩

/-- A conjunction looks at the clock. -/
theorem check (owns : s.Owns known first) :
    Episode mind known first s [.check s.readClock.1 s.readClock.2] s.readClock.2 := by
  have read : s.readClock.2.Owns known first := owns.later rfl (Nat.le_refl _)
  exact .cons (Nat.le_refl _) ⟨read, read, Nat.le_refl _, trivial⟩ (.nil (Nat.le_refl _) read)

end Episode

namespace Search

theorem afterReroll_over (s : State) (c : Choicepoint) (event : Event) :
    (afterReroll s c event .spent).next.Over A := by
  unfold afterReroll
  split <;> trivial

theorem afterReroll_clean (owns : s.Owns known first) (c : Choicepoint) (event : Event)
    (next : Search) : Episode mind known first s [] (afterReroll s c event next).state := by
  unfold afterReroll
  split
  · rename_i undone
    exact .reroll owns undone
  · exact .nil (Nat.le_refl _) owns

theorem holdOrUndo_clean (c : Choicepoint) {done : Bool × State} (owns : done.2.Owns known first) :
    Episode mind known first done.2 [] (holdOrUndo c done).state := by
  obtain ⟨_ | _, t⟩ := done
  · exact afterReroll_clean owns c .exhausted .spent
  · exact .nil (Nat.le_refl _) owns

theorem conclude_clean (c : Choicepoint) {done : Except Halt Bool × State}
    (owns : done.2.Owns known first) :
    Episode mind known first done.2 [] (conclude c done).state := by
  obtain ⟨_ | holds, t⟩ := done
  · exact .nil (Nat.le_refl _) owns
  · exact holdOrUndo_clean c (show (holds, t).2.Owns known first from owns)

theorem holdOrUndo_over (c : Choicepoint) (done : Bool × State) :
    (holdOrUndo c done).next.Over A := by
  obtain ⟨_ | _, t⟩ := done
  · exact afterReroll_over ..
  · trivial

theorem conclude_over (c : Choicepoint) (done : Except Halt Bool × State) :
    (conclude c done).next.Over A := by
  obtain ⟨_ | holds, t⟩ := done
  · trivial
  · exact holdOrUndo_over c (holds, t)

variable {ctx : Context}

theorem look_clean (ctx : Context) (owns : s.Owns known first) :
    (look ctx s).1.scope = s.scope ∧ Episode ctx.mind known first s [] (look ctx s).2 :=
  ⟨rfl, .nil (Nat.le_refl _) (owns.later rfl (Nat.le_refl _))⟩

theorem perform_clean (mind : Mind) (owns : s.Owns known first) {deed : Deed}
    (owned : deed.Over (s.own known first)) :
    Episode mind known first s [] (deed.perform mind s).2 :=
  .nil (s.perform_later mind deed).supply.vars (owns.perform mind owned)

/-- What a search does at once keeps to the variables of its terms and of the scope. -/
theorem Ends.clean {search : Search} {found : Reply Search}
    (ended : search.Ends ctx s trace found) (owns : s.Owns known first)
    (owned : search.Over (s.own known first)) :
    Episode ctx.mind known first s trace found.state ∧
      found.next.Over (found.state.own known first) := by
  have start : Episode ctx.mind known first s [.state s] s := .start owns
  cases ended with
  | actFails ran =>
    have marked : Episode ctx.mind known first s [] s.mark.2 := .mark owns
    obtain ⟨-, looked⟩ := look_clean ctx marked.owns
    generalize look ctx s.mark.2 = seen at *
    cases (show Plan.Over _ _ from owned) with
    | once frugal =>
      obtain ⟨-, rfl⟩ := Prod.mk.inj ran
      exact ⟨((start.append marked).append looked).arrive, trivial⟩
  | @act _ _ _ deed ran =>
    have marked : Episode ctx.mind known first s [] s.mark.2 := .mark owns
    obtain ⟨views, looked⟩ := look_clean ctx marked.owns
    generalize look ctx s.mark.2 = seen at *
    cases (show Plan.Over _ _ from owned) with
    | once frugal =>
      obtain ⟨decided, rfl⟩ := Prod.mk.inj ran
      have scopes : seen.1.scope.Over (seen.2.own known first) :=
        views ▸ marked.owns.scope.mono looked.more
      have deeds := frugal (marked.append looked).more scopes deed decided
      have performed := perform_clean ctx.mind looked.owns deeds
      have seen := ((start.append marked).append looked).arrive
      exact ⟨((seen.append performed).arrive.append (conclude_clean _ performed.owns)).arrive,
        conclude_over _ _⟩
  | offerFails ran =>
    obtain ⟨-, looked⟩ := look_clean ctx owns
    generalize look ctx s = seen at *
    cases (show Plan.Over _ _ from owned) with
    | choices targets frugal =>
      obtain ⟨-, rfl⟩ := Prod.mk.inj ran
      exact ⟨(start.append looked).arrive, trivial⟩
  | choosingLost lost => exact ⟨start, owned⟩
  | choosingOver finished => exact ⟨start, trivial⟩
  | choosingFound offered unified =>
    obtain ⟨targets, offers⟩ := owned
    obtain ⟨candidates, rest⟩ := offers.next? offered
    have tried := start.append (.attempt owns targets candidates unified)
    exact ⟨tried.arrive, targets.mono tried.more, rest.mono tried.more⟩
  | held => exact ⟨(start.append (afterReroll_clean owns ..)).arrive, afterReroll_over ..⟩
  | spent => exact ⟨start, trivial⟩
  | recallingLost lost => exact ⟨start, owned⟩
  | recallingStuck ungrouped => exact ⟨start, owned⟩
  | recallingFinished => exact ⟨start, owned⟩
  | factFound dropped unified =>
    have tried := Episode.tryFact owns owned (Mind.stores_fact dropped) unified
    exact ⟨tried.arrive, Term.Over.mono owned tried.more⟩
  | rulesOver dropped => exact ⟨start, owned⟩

theorem Turns.clean {search next : Search} (turned : search.Turns ctx s trace next s')
    (owns : s.Owns known first) (owned : search.Over (s.own known first)) :
    Episode ctx.mind known first s trace s' ∧ next.Over (s'.own known first) := by
  have start : Episode ctx.mind known first s [.state s] s := .start owns
  cases turned with
  | offer ran =>
    obtain ⟨views, looked⟩ := look_clean ctx owns
    generalize look ctx s = seen at *
    cases (show Plan.Over _ _ from owned) with
    | choices targets frugal =>
      obtain ⟨decided, rfl⟩ := Prod.mk.inj ran
      have scopes : seen.1.scope.Over (seen.2.own known first) :=
        views ▸ owns.scope.mono looked.more
      obtain ⟨rest, rfl, offers⟩ := frugal looked.more scopes _ decided
      have taken : Episode ctx.mind known first seen.2 [] _ := .takeVars looked.owns 0
      exact ⟨(start.append looked).arrive.append taken, targets.mono (looked.more.trans taken.more),
        offers.mono taken.more⟩
  | choosingUndoes undone =>
    obtain ⟨targets, offers⟩ := owned
    have back := start.append (.reroll owns undone)
    exact ⟨back, targets.mono back.more, offers.mono back.more⟩
  | choosingMissed offered unified undone =>
    obtain ⟨targets, offers⟩ := owned
    obtain ⟨candidates, rest⟩ := offers.next? offered
    have tried := (start.append (.attempt owns targets candidates unified)).arrive
    have back := tried.append (.reroll tried.owns undone)
    exact ⟨back, targets.mono back.more, rest.mono back.more⟩
  | recallingUndoes undone =>
    have back := start.append (.reroll owns undone)
    exact ⟨back, Term.Over.mono owned back.more⟩
  | recallingStarts grouped => exact ⟨start, owned⟩
  | factMissed dropped unified undone =>
    have tried := Episode.tryFact owns owned (Mind.stores_fact dropped) unified
    have back := tried.arrive.append (.reroll tried.owns undone)
    exact ⟨back, Term.Over.mono owned back.more⟩
  | factsOver dropped => exact ⟨start, owned⟩
  | ruleMissed dropped unified undone =>
    obtain ⟨tried, -⟩ := Episode.tryRule owns owned (Mind.stores_rule dropped) unified
    have back := tried.arrive.append (.reroll tried.owns undone)
    exact ⟨back, Term.Over.mono owned back.more⟩
  | negationEnters => exact ⟨start.append (.mark owns), owned⟩

end Search

def Task.Over (A : Set Var) : Task → Prop
  | resume q => q.Over A
  | gather pattern q names found =>
    pattern.Over A ∧ q.Over A ∧ names.Over A ∧ ∀ t ∈ found, t.Over A

def Answer.Over (A : Set Var) : Answer → Prop
  | reply r => r.next.Over A
  | gathered found _ => Gives (fun items => ∀ t ∈ items, t.Over A) found

namespace Task.Over

variable {pattern : Term} {q next : Query} {names : Renaming} {found : List Term}

theorem inner : ∀ {task : Task}, task.Over A → task.inner? = some q → q.Over A
  | .gather _ _ _ _, owned, rfl => owned.2.1
  | .resume (.running _ (.applying _ _ _ _)), owned, rfl => owned.2
  | .resume (.running _ (.conj _ _)), owned, rfl => owned.1
  | .resume (.running _ (.conjRight _ _ _)), owned, rfl => owned.2.2
  | .resume (.running _ (.disj _ _)), owned, rfl => owned.1
  | .resume (.running _ (.disjRight _)), owned, rfl => owned
  | .resume (.running _ (.negation _ (some _))), owned, rfl => owned

/-- Gathering goes on with what the query has become. -/
theorem onward (owned : (gather pattern q names found).Over A) (more : A ⊆ A')
    (nexts : next.Over A') : (gather pattern next names found).Over A' :=
  ⟨owned.1.mono more, nexts, fun pair member => more (owned.2.2.1 pair member),
    fun t member => (owned.2.2.2 t member).mono more⟩

/-- Gathering takes a snapshot and goes on. -/
theorem snapshot (owned : (gather pattern q names found).Over (s.own known first))
    (owns : s.Owns known first) {value : Term} {names' : Renaming} {supply : Supply}
    (frozen : s.scope.freeze pattern names s.platform.supply = (value, names', supply)) :
    Episode mind known first s [] (s.withSupply supply) ∧
      (gather pattern q names' (value :: found)).Over ((s.withSupply supply).own known first) := by
  obtain ⟨patterns, queries, named, founds⟩ := owned
  obtain ⟨taken, values, named'⟩ := Episode.freeze mind owns named frozen
  refine ⟨taken, patterns.mono taken.more, queries.mono taken.more, named', ?_⟩
  exact List.forall_mem_cons.mpr ⟨values, fun t member => (founds t member).mono taken.more⟩

end Task.Over

namespace Task

variable {task next : Task} {q : Query} {reply : Reply Query} {last : List Happening}
  {answer : Answer} {t : State}

/-- What a task does with the reply of the query inside it is clean if the reply is. -/
theorem Passes.clean (passed : task.Passes reply last answer) (mind : Mind)
    (owned : task.Over A) (more : A ⊆ reply.state.own known first)
    (owns : reply.state.Owns known first) (nexts : reply.next.Over (reply.state.own known first)) :
    Episode mind known first reply.state last answer.state ∧
      answer.Over (answer.state.own known first) := by
  have same : Episode mind known first reply.state [] reply.state := .nil (Nat.le_refl _) owns
  cases passed with
  | applying unfinished => exact ⟨same, Term.Over.mono owned.1 more, nexts⟩
  | conj other =>
    rw [Answer.state, Query.ofSearch_state]
    exact ⟨same, Query.ofSearch_over ⟨nexts, Term.Over.mono owned.2 more⟩⟩
  | conjWaits waiting =>
    have rights := Term.Over.mono owned.2 more
    exact ⟨.check owns, nexts, rights, rights⟩
  | conjRight unfinished =>
    obtain ⟨lefts, goals, -⟩ := owned
    exact ⟨same, Query.Over.mono more lefts, goals.mono more, nexts⟩
  | disj unfinished => exact ⟨same, nexts, Term.Over.mono owned.2 more⟩
  | disjRight =>
    rw [Answer.state, Query.ofSearch_state]
    exact ⟨same, Query.ofSearch_over nexts⟩
  | negation unsolved unfinished => exact ⟨same, nexts⟩
  | negationRefuted =>
    rw [Answer.state, Query.ofSearch_state]
    exact ⟨(Search.afterReroll_clean owns ..).arrive,
      Query.ofSearch_over (Search.afterReroll_over ..)⟩
  | negationHolds =>
    rw [Answer.state, Query.ofSearch_state]
    exact ⟨(Search.afterReroll_clean owns ..).arrive,
      Query.ofSearch_over (Search.afterReroll_over ..)⟩
  | gatherFails => exact ⟨same, gives_error _⟩
  | gatherEnds =>
    refine ⟨same, gives_ok fun t member => ?_⟩
    exact (owned.2.2.2 t (List.mem_reverse.mp member)).mono more

/-- And so is the task that it goes on as. -/
theorem GoesOn.clean (goes : task.GoesOn reply last next t) (mind : Mind)
    (owned : task.Over A) (more : A ⊆ reply.state.own known first)
    (owns : reply.state.Owns known first) (nexts : reply.next.Over (reply.state.own known first)) :
    Episode mind known first reply.state last t ∧ next.Over (t.own known first) := by
  have same : Episode mind known first reply.state [] reply.state := .nil (Nat.le_refl _) owns
  cases goes with
  | applying => exact ⟨same, Term.Over.mono owned.1 more⟩
  | conj awake =>
    have rights := Term.Over.mono owned.2 more
    exact ⟨.check owns, nexts, rights, rights⟩
  | conjRight => exact ⟨same, Query.Over.mono more owned.1, Term.Over.mono owned.2.1 more⟩
  | disj => exact ⟨same, Term.Over.mono owned.2 more⟩
  | gatherPasses => exact ⟨same, owned.onward more nexts⟩
  | gatherFinds frozen => exact (owned.onward more nexts).snapshot owns frozen

end Task

/-- A course keeps to the variables of its task and of the scope, and so does its answer. -/
theorem Course.clean {ctx : Context} (frugal : ctx.Frugal) {task : Task} {answer : Answer}
    (course : Course ctx task s trace answer) (owns : s.Owns known first)
    (owned : task.Over (s.own known first)) :
    Episode ctx.mind known first s trace answer.state ∧
      answer.Over (answer.state.own known first) := by
  induction course with
  | done => exact ⟨.start owns, trivial⟩
  | stuck failed => exact ⟨.start owns, owned⟩
  | begins begun rest ih => exact ih owns (Search.ofGoal_over frugal owns.scope owned begun)
  | ends ended =>
    obtain ⟨episode, next⟩ := ended.clean owns owned
    rw [Answer.state, Query.ofSearch_state]
    exact ⟨episode, Query.ofSearch_over next⟩
  | turns turned rest ih =>
    obtain ⟨episode, next⟩ := turned.clean owns owned
    obtain ⟨later, answers⟩ := ih episode.owns next
    exact ⟨episode.append later, answers⟩
  | passes inside inner passed ih =>
    obtain ⟨episode, next⟩ := ih owns (owned.inner inside)
    obtain ⟨later, answers⟩ := passed.clean ctx.mind owned episode.more episode.owns next
    exact ⟨episode.append later, answers⟩
  | goesOn inside inner goes rest ihInner ihRest =>
    obtain ⟨episode, next⟩ := ihInner owns (owned.inner inside)
    obtain ⟨onward, tasks⟩ := goes.clean ctx.mind owned episode.more episode.owns next
    obtain ⟨later, answers⟩ := ihRest onward.owns tasks
    exact ⟨(episode.append onward).append later, answers⟩
  | ruleFails dropped unified inner ih =>
    obtain ⟨tried, bodies⟩ := Episode.tryRule owns owned (Mind.stores_rule dropped) unified
    have episode := tried.append (ih tried.owns bodies).1
    exact ⟨episode, Term.Over.mono owned episode.more⟩
  | rulePasses dropped unified inner unfinished ih =>
    obtain ⟨tried, bodies⟩ := Episode.tryRule owns owned (Mind.stores_rule dropped) unified
    obtain ⟨later, body⟩ := ih tried.owns bodies
    exact ⟨tried.append later, Term.Over.mono owned (tried.append later).more, body⟩
  | ruleReturns dropped unified inner rest ihInner ihRest =>
    obtain ⟨tried, bodies⟩ := Episode.tryRule owns owned (Mind.stores_rule dropped) unified
    have episode := tried.append (ihInner tried.owns bodies).1
    obtain ⟨later, answers⟩ := ihRest episode.owns (Term.Over.mono owned episode.more)
    exact ⟨episode.append later, answers⟩
  | collectFails inner ih =>
    cases (show Plan.Over _ _ from owned) with
    | collect patterns goals results =>
      have marked : Episode ctx.mind known first _ _ _ := (Episode.start owns).append (.mark owns)
      obtain ⟨later, -⟩ := ih marked.owns ⟨patterns, goals, nofun, nofun⟩
      exact ⟨marked.append later, trivial⟩
  | collects inner ih =>
    cases (show Plan.Over _ _ from owned) with
    | collect patterns goals results =>
      have marked : Episode ctx.mind known first _ _ _ := (Episode.start owns).append (.mark owns)
      obtain ⟨later, values⟩ := ih marked.owns ⟨patterns, goals, nofun, nofun⟩
      have items := Term.over_seq_iff.mpr (values _ rfl)
      have unified : Episode ctx.mind known first _ _ _ :=
        .unify later.owns (results.mono later.more) items
      rw [Answer.state, Query.ofSearch_state]
      exact ⟨(marked.append later).append
        (unified.arrive.append (Search.holdOrUndo_clean _ unified.owns).arrive),
        Query.ofSearch_over (Search.holdOrUndo_over _ _)⟩

/-- A call keeps to the variables of its task and of the scope, and so does the task it comes to. -/
theorem Calls.clean {ctx : Context} (frugal : ctx.Frugal) {task task' : Task}
    (called : Calls ctx task s trace task' s') (owns : s.Owns known first)
    (owned : task.Over (s.own known first)) :
    Episode ctx.mind known first s trace s' ∧ task'.Over (s'.own known first) := by
  cases called with
  | enters inside => exact ⟨.nil (Nat.le_refl _) owns, owned.inner inside⟩
  | begins begun =>
    exact ⟨.nil (Nat.le_refl _) owns, Search.ofGoal_over frugal owns.scope owned begun⟩
  | turns turned => exact turned.clean owns owned
  | goesOn inside inner goes =>
    obtain ⟨episode, next⟩ := inner.clean frugal owns (owned.inner inside)
    obtain ⟨onward, tasks⟩ := goes.clean ctx.mind owned episode.more episode.owns next
    exact ⟨episode.append onward, tasks⟩
  | ruleEnters dropped unified =>
    exact Episode.tryRule owns owned (Mind.stores_rule dropped) unified
  | ruleReturns dropped unified inner =>
    obtain ⟨tried, bodies⟩ := Episode.tryRule owns owned (Mind.stores_rule dropped) unified
    have episode := tried.append (inner.clean frugal tried.owns bodies).1
    exact ⟨episode, Term.Over.mono owned episode.more⟩
  | collectEnters =>
    cases (show Plan.Over _ _ from owned) with
    | collect patterns goals results =>
      exact ⟨(Episode.start owns).append (.mark owns), patterns, goals, nofun, nofun⟩

theorem Comes.clean {ctx : Context} (frugal : ctx.Frugal) {n : Nat} {task task' : Task}
    (comes : Comes ctx n task s trace task' s') (owns : s.Owns known first)
    (owned : task.Over (s.own known first)) : Episode ctx.mind known first s trace s' := by
  induction comes with
  | stays => exact .nil (Nat.le_refl _) owns
  | goes called _ ih =>
    obtain ⟨episode, overs⟩ := called.clean frugal owns owned
    exact episode.append (ih episode.owns overs)

end Deliberation
