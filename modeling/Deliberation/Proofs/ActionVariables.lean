import Deliberation.Proofs.OwnVariables
import Deliberation.Proofs.PairedActions

/-! The variables of actions. What a standard action unifies or offers is over every set that its
arguments and the scope are over: no action brings in a variable, not even those that look at the
beliefs. -/
namespace Deliberation

variable {A A' : Set Var}

/-- If the computation succeeds, then with a result that has the property. -/
def Gives {α : Type} (p : α → Prop) (x : Except Halt α) : Prop := ∀ a, x = .ok a → p a

section Gives

variable {α β : Type} {p : α → Prop} {q : β → Prop} {x : Except Halt α}

theorem gives_ok {a : α} (good : p a) : Gives p (.ok a) := by
  intro b same
  exact Except.ok.inj same ▸ good

theorem gives_error (e : Halt) : Gives p (.error e) := nofun

theorem gives_any (x : Except Halt α) : Gives (fun _ => True) x := fun _ _ => trivial

theorem Gives.bind {f : α → Except Halt β} (first : Gives p x)
    (rest : ∀ a, p a → Gives q (f a)) : Gives q (x >>= f) := by
  cases x with
  | error e => exact gives_error e
  | ok a => exact rest a (first a rfl)

theorem Gives.map {f : α → β} (first : Gives p x) (step : ∀ a, p a → q (f a)) :
    Gives q (x.map f) := by
  cases x with
  | error e => exact gives_error e
  | ok a => exact gives_ok (step a (first a rfl))

/-- A computation that agrees with itself. -/
theorem Agree.gives {R : α → α → Prop} (agree : Agree R x x) : Gives (fun a => R a a) x := by
  intro a found
  rw [found] at agree
  cases agree with
  | ok related => exact related

end Gives

/-- The terms that the deed unifies are over the set. -/
def Deed.Over (A : Set Var) : Deed → Prop
  | .unify pairs => ∀ pair ∈ pairs, pair.1.Over A ∧ pair.2.Over A
  | _ => True

def Candidates.Over (A : Set Var) : Candidates → Prop
  | .terms rest => ∀ t ∈ rest, t.Over A
  | .range _ _ => True

def Offer.Over (A : Set Var) (offer : Offer) : Prop :=
  ∃ rest : Candidates, offer = .of rest ∧ rest.Over A

/-- A plan that unifies nothing on the way and whose results are over the set, and over every larger
one if the scope is. -/
inductive Plan.Over (A : Set Var) : Plan → Prop where
  | once {decide : View → Except Halt Deed}
      (frugal : ∀ {A' view}, A ⊆ A' → view.scope.Over A' → Gives (Deed.Over A') (decide view)) :
      Over A (.once decide)
  | choices {target : Term} {candidates : View → Except Halt Offer} (targets : target.Over A)
      (frugal : ∀ {A' view}, A ⊆ A' → view.scope.Over A' →
        Gives (Offer.Over A') (candidates view)) : Over A (.choices target candidates)
  | collect {pattern goal result : Term} (patterns : pattern.Over A) (goals : goal.Over A)
      (results : result.Over A) : Over A (.collect pattern goal result)

theorem Deed.unify_over {left right : Term} (lefts : left.Over A) (rights : right.Over A) :
    (Deed.unify [(left, right)]).Over A := by
  intro pair member
  obtain rfl := List.mem_singleton.mp member
  exact ⟨lefts, rights⟩

namespace Candidates

theorem Over.mono {rest : Candidates} (owned : rest.Over A) (more : A ⊆ A') : rest.Over A' := by
  cases rest with
  | terms items => exact fun t member => (owned t member).mono more
  | range next stop => trivial

theorem Over.next? {rest more : Candidates} {t : Term} (owned : rest.Over A)
    (offered : rest.next? = some (t, more)) : t.Over A ∧ more.Over A := by
  cases rest with
  | terms items =>
    cases items with
    | nil => simp [Candidates.next?] at offered
    | cons first others =>
      obtain ⟨rfl, rfl⟩ := Prod.mk.inj (Option.some.inj offered)
      exact List.forall_mem_cons.mp owned
  | range next stop =>
    simp only [Candidates.next?] at offered
    split at offered
    · obtain ⟨rfl, rfl⟩ := Prod.mk.inj (Option.some.inj offered)
      exact ⟨Term.over_num _, trivial⟩
    · simp at offered

end Candidates

theorem Plan.Over.mono {plan : Plan} (owned : plan.Over A) (more : A ⊆ A') : plan.Over A' := by
  cases owned with
  | once frugal => exact .once fun larger => frugal (more.trans larger)
  | choices targets frugal =>
    exact .choices (targets.mono more) fun larger => frugal (more.trans larger)
  | collect patterns goals results =>
    exact .collect (patterns.mono more) (goals.mono more) (results.mono more)

theorem Plan.constant_over {deed : Deed} (owned : ∀ {A}, deed.Over A) :
    (Plan.once fun _ => .ok deed).Over A :=
  .once fun _ _ => gives_ok owned

theorem Plan.answer_over (holds : Bool) : (Plan.once fun _ => .ok (.answer holds)).Over A :=
  constant_over trivial

namespace State

variable {known : Set Var} {first : Nat} {s : State}

theorem Owns.perform (owns : s.Owns known first) (mind : Mind) {deed : Deed}
    (owned : deed.Over (s.own known first)) : (deed.perform mind s).2.Owns known first := by
  have grown := (s.perform_later mind deed).supply.vars
  cases deed with
  | unify pairs => exact owns.unifyEach owned
  | forget => exact ⟨owns.started, Scope.over_empty⟩
  | delay duration millis =>
    rw [perform_delay] at grown ⊢
    split <;> exact owns.later rfl (Nat.le_refl _)
  | _ => exact owns.later rfl grown

end State

/-- Every call makes a plan over each set that the arguments are over. -/
def Action.Frugal (action : Action) : Prop :=
  ∀ {A name args}, (∀ t ∈ args, Term.Over A t) → (action.plan name args).Over A

namespace Action

variable {scope : Scope} {args : List Term}

theorem pairs_among (terms : ∀ t ∈ args, t.Over A) :
    List.Forall₂ (Term.Paired (.among A)) args args :=
  List.forall₂_same.mpr fun t member => Term.paired_among_iff.mpr (terms t member)

/-- A function whose values have no variables if its arguments have none. -/
theorem function_frugal {params : List Param} {call : View → List Term → Except Halt Term}
    (closed : ∀ {P view values}, (∀ t ∈ values, Term.Closed P t) →
      Gives (Term.Closed P) (call view values)) : (Action.function params call).Frugal := by
  intro A name args terms
  refine .once fun {A' view} more owned => ?_
  have inputs (t : Term) (member : t ∈ args.dropLast) : t.Over A' :=
    (terms t (List.dropLast_subset _ member)).mono more
  have grounded := groundArgs_paired (Scope.paired_among_iff.mpr owned) name params
    (pairs_among inputs)
  split
  · exact gives_ok trivial
  · rename_i output last
    have outputs := (terms output (List.mem_of_getLast? last)).mono more
    refine grounded.gives.bind fun values same => (closed same.2).bind fun result value => ?_
    exact gives_ok (Deed.unify_over outputs (Term.over_of_closed value.vars))

theorem predicate_frugal (params : List Param) (test : List Term → Except Halt Bool) :
    (Action.predicate params test).Frugal := by
  intro A name args _
  refine .once fun _ _ => (gives_any _).bind fun _ _ => (gives_any _).bind fun _ _ => ?_
  exact gives_ok trivial

end Action

namespace Library

open Plan

variable {args : List Term} (terms : ∀ t ∈ args, t.Over A)
include terms

omit terms in
theorem wait_over : (wait args).Over A := by
  unfold wait
  split
  · refine .once fun _ _ => (gives_any _).bind fun value _ => ?_
    split
    · split
      · exact gives_ok trivial
      · exact gives_error _
    · exact gives_error _
  · exact answer_over false

theorem count_over : (count args).Over A := by
  unfold count
  split
  · rename_i pattern total
    refine .once fun more _ => ?_
    dsimp only
    split
    · exact gives_error _
    · exact gives_error _
    · exact gives_ok (Deed.unify_over ((terms total (by simp)).mono more) (Term.over_num _))
  · exact answer_over false

theorem findall_over : (findall args).Over A := by
  unfold findall
  split
  · exact .collect (terms _ (by simp)) (terms _ (by simp)) (terms _ (by simp))
  · exact answer_over false

theorem myName_over : (myName args).Over A := by
  unfold myName
  split
  · rename_i target
    refine .once fun more _ => gives_ok ?_
    exact Deed.unify_over ((terms target (by simp)).mono more) (Term.over_of_closed rfl)
  · exact answer_over false

omit terms in
theorem ground_over : (ground args).Over A := by
  refine .once fun _ _ => ?_
  split <;> exact gives_ok trivial

theorem member_over : (member args).Over A := by
  unfold member
  split
  · rename_i target source
    refine .choices (terms target (by simp)) fun more owned => ?_
    have items : Gives _ _ := fun _ => owned.elements ((terms source (by simp)).mono more)
    exact items.map fun items each => ⟨.terms items, rfl, each⟩
  · exact answer_over false

theorem range_over : (range args).Over A := by
  unfold range
  split
  · rename_i target bound
    refine .choices (terms target (by simp)) fun _ _ => (gives_any _).bind fun value _ => ?_
    split
    · exact gives_ok ⟨_, rfl, trivial⟩
    · exact gives_error _
  · exact answer_over false

theorem concat_over : (concat args).Over A := by
  refine .once fun {A' view} more owned => ?_
  have inputs (t : Term) (member : t ∈ args.dropLast) : t.Over A' :=
    (terms t (List.dropLast_subset _ member)).mono more
  have grounded := groundAll_paired (Scope.paired_among_iff.mpr owned) (Action.pairs_among inputs)
  split
  · exact gives_error _
  · rename_i result last
    have results := (terms result (List.mem_of_getLast? last)).mono more
    refine grounded.gives.bind fun values same => gives_ok ?_
    exact Deed.unify_over results (Term.over_of_closed (joinValues_closed same.2).vars)

theorem substring_over : (substring args).Over A := by
  unfold substring
  split
  · rename_i needle haystack target
    refine .choices (terms target (by simp)) fun _ _ => (gives_any _).bind fun _ _ => ?_
    refine (gives_any _).bind fun _ _ => gives_ok ⟨_, rfl, fun position member => ?_⟩
    obtain ⟨i, -, rfl⟩ := List.mem_map.mp member
    exact Term.over_num _
  · exact answer_over false

theorem calendarParts_over (parts : Calendar → List Int64) : (calendarParts parts args).Over A := by
  refine .once fun more _ => gives_ok fun pair member => ?_
  obtain ⟨arg, part⟩ := List.of_mem_zip member
  obtain ⟨value, -, same⟩ := List.mem_map.mp part
  exact ⟨(terms _ arg).mono more, same ▸ Term.over_num _⟩

end Library

namespace Registry

def Frugal (r : Registry) : Prop := ∀ entry ∈ r.actions, entry.2.Frugal

variable {r : Registry}

theorem register_frugal (frugal : r.Frugal) (name : String) (arity : Option Nat) {action : Action}
    (new : action.Frugal) : (r.register name arity action).Frugal :=
  forall_register frugal name arity new

theorem lookup_frugal (frugal : r.Frugal) {name : String} {arity : Nat} {action : Action}
    (found : r.lookup name arity = some action) : action.Frugal := by
  rcases mem_of_lookup found with exact | variadic
  · exact frugal _ exact
  · exact frugal _ variadic

end Registry

namespace Library

open Registry

variable {r : Registry}

theorem addControl_frugal (frugal : r.Frugal) : (addControl r).Frugal := by
  refine register_frugal ?_ _ _ fun _ => Plan.constant_over trivial
  refine register_frugal ?_ _ _ fun _ => Plan.constant_over trivial
  refine register_frugal ?_ _ _ fun _ => Plan.constant_over trivial
  refine register_frugal ?_ _ _ fun _ => wait_over
  exact register_frugal frugal _ _ fun _ => Plan.answer_over false

theorem addIntrospection_frugal (frugal : r.Frugal) : (addIntrospection r).Frugal := by
  refine register_frugal ?_ _ _ fun _ => Plan.constant_over trivial
  refine register_frugal ?_ _ _ myName_over
  refine register_frugal ?_ _ _ findall_over
  exact register_frugal frugal _ _ count_over

theorem addKinds_frugal (frugal : r.Frugal) : (addKinds r).Frugal :=
  forall_addKinds frugal (fun _ _ => Action.predicate_frugal _ _) fun _ => ground_over

theorem addSequences_frugal (frugal : r.Frugal) : (addSequences r).Frugal := by
  refine register_frugal ?_ _ _ range_over
  refine register_frugal ?_ _ _ member_over
  refine register_frugal ?_ _ _ (Action.function_frugal fun closed _ => sorted_closed closed)
  refine register_frugal ?_ _ _ (Action.function_frugal fun closed _ => nth_closed closed)
  refine register_frugal ?_ _ _ (Action.function_frugal fun closed _ => lengthOf_closed closed)
  refine register_frugal ?_ _ _
    (Action.function_frugal fun closed _ => extremum_closed closed greatest_mem)
  exact register_frugal frugal _ _
    (Action.function_frugal fun closed _ => extremum_closed closed least_mem)

theorem addTexts_frugal (frugal : r.Frugal) : (addTexts r).Frugal := by
  refine register_frugal ?_ _ _ substring_over
  exact register_frugal frugal _ _ concat_over

theorem addSurroundings_frugal (frugal : r.Frugal) : (addSurroundings r).Frugal := by
  refine register_frugal ?_ _ _ fun terms =>
    calendarParts_over terms fun c => [c.hour, c.minute, c.second]
  refine register_frugal ?_ _ _ fun terms =>
    calendarParts_over terms fun c => [c.year, c.month, c.day]
  exact register_frugal frugal _ _
    (Action.function_frugal fun {P} _ _ _ => gives_ok (Term.num_closed P _))

theorem standard_frugal : standard.Frugal := by
  refine addSurroundings_frugal (addTexts_frugal (addSequences_frugal ?_))
  refine addKinds_frugal (addIntrospection_frugal (addControl_frugal ?_))
  intro entry member
  simp at member

end Library

end Deliberation
