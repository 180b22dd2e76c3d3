import Deliberation.Proofs.OwnVariables
import Deliberation.Proofs.PairedResumption
import Deliberation.Proofs.StandardActions
import Deliberation.Proofs.UnificationSteps
import Mathlib.Logic.Relation

/-! Stratified beliefs. The goals inside a goal are its conjuncts, its disjuncts, what it negates
and what it collects the solutions of. Beliefs are stratified if groups can be ranked so that all
beliefs that the body of a rule asks for rank below the group of the rule, and no body leaves it to
a variable what is asked for. A copy of a body asks for the same as the body. -/
namespace Deliberation

namespace Term

/-- The goals directly inside a goal. -/
def subgoals (t : Term) : List Term :=
  match t.asked with
  | .both left right => [left, right]
  | .either left right => [left, right]
  | .absence inner => [inner]
  | .call ".findall" [_, goal, _] => [goal]
  | _ => []

/-- The second term stands in goal position in the first. -/
def HasGoal : Term → Term → Prop := Relation.ReflTransGen fun t inner => inner ∈ t.subgoals

/-- No variable stands in goal position. -/
def Settled (t : Term) : Prop := ∀ inner v, t.HasGoal inner → inner ≠ var v

/-- All beliefs that the goal asks for rank below a number. -/
def AsksBelow (rank : Group → Nat) (n : Nat) (t : Term) : Prop :=
  ∀ inner functor args annots, t.HasGoal inner → inner.asked = .belief functor args annots →
    rank ⟨functor, args.length⟩ < n

variable {t inner : Term} {rank : Group → Nat} {n : Nat}

theorem Settled.ne_var (settled : t.Settled) (v : Var) : t ≠ var v := settled t v .refl

theorem Settled.walk (settled : t.Settled) (scope : Scope) : scope.walk t = t :=
  Scope.walk_of_not_var settled.ne_var

theorem Settled.inside (settled : t.Settled) (inside : inner ∈ t.subgoals) : inner.Settled :=
  fun deeper v reached => settled deeper v (.head inside reached)

theorem AsksBelow.inside (below : t.AsksBelow rank n) (inside : inner ∈ t.subgoals) :
    inner.AsksBelow rank n :=
  fun deeper functor args annots reached => below deeper functor args annots (.head inside reached)

/-- What a goal consists of, by what it asks for. -/
theorem of_asked (t : Term) :
    match t.asked with
    | .both left right => ∃ annots, t = lit "&" [left, right] annots
    | .either left right => ∃ annots, t = lit "|" [left, right] annots
    | .absence inner => ∃ annots, t = lit "not" [inner] annots
    | .call name args => ∃ annots, t = lit name args annots
    | _ => True := by
  fun_cases asked t
  all_goals simp

theorem part_of_subgoal (inside : inner ∈ t.subgoals) : inner ∈ t.parts := by
  have shape := t.of_asked
  unfold subgoals at inside
  split at inside
  case h_5 => simp at inside
  all_goals
    rename_i asked
    simp only [asked] at shape
    obtain ⟨annots, rfl⟩ := shape
    apply List.mem_append_left
  case h_4 => simpa using .inr (.inl (List.mem_singleton.mp inside))
  all_goals exact inside

theorem AsksBelow.mono {m : Nat} (below : t.AsksBelow rank n) (less : n ≤ m) :
    t.AsksBelow rank m :=
  fun inner functor args annots reached asked =>
    Nat.lt_of_lt_of_le (below inner functor args annots reached asked) less

/-- A goal is settled if it is no variable and the goals directly inside it are settled. -/
theorem settled_of (own : ∀ v, t ≠ var v) (each : ∀ inner ∈ t.subgoals, inner.Settled) :
    t.Settled := by
  intro deeper v reached
  rcases Relation.ReflTransGen.cases_head reached with rfl | ⟨inner, inside, further⟩
  · exact own v
  · exact each inner inside deeper v further

/-- What a goal asks for itself, and what the goals directly inside it ask for. -/
theorem asksBelow_of (own : ∀ functor args annots, t.asked = .belief functor args annots →
      rank ⟨functor, args.length⟩ < n)
    (each : ∀ inner ∈ t.subgoals, inner.AsksBelow rank n) : t.AsksBelow rank n := by
  intro deeper functor args annots reached asked
  rcases Relation.ReflTransGen.cases_head reached with rfl | ⟨inner, inside, further⟩
  · exact own functor args annots asked
  · exact each inner inside deeper functor args annots further asked

theorem settled_lit {functor : String} {args annots : List Term}
    (each : ∀ inner ∈ (lit functor args annots).subgoals, inner.Settled) :
    (lit functor args annots).Settled :=
  settled_of (by simp) each

-- A belief asks for itself and for nothing else.
section Belief

variable {functor : String} {args annots : List Term}
  (asked : t.asked = .belief functor args annots)
include asked

theorem settled_belief : t.Settled := by
  apply settled_of
  · rintro v rfl
    simp [Term.asked] at asked
  · simp [subgoals, asked]

theorem asksBelow_belief (below : rank ⟨functor, args.length⟩ < n) : t.AsksBelow rank n := by
  apply asksBelow_of
  · intro functor args annots same
    obtain ⟨rfl, rfl, rfl⟩ := Asked.belief.inj (asked.symm.trans same)
    exact below
  · simp [subgoals, asked]

end Belief

/-- A goal has finitely many goals inside it, so some number is above all that it asks for. -/
theorem exists_asksBelow (rank : Group → Nat) (t : Term) : ∃ n, t.AsksBelow rank n := by
  have all (goals : List Term) (each : ∀ goal ∈ goals, ∃ n, goal.AsksBelow rank n) :
      ∃ n, ∀ goal ∈ goals, goal.AsksBelow rank n := by
    induction goals with
    | nil => exact ⟨0, by simp⟩
    | cons goal rest ih =>
      obtain ⟨n, first⟩ := each goal List.mem_cons_self
      obtain ⟨m, later⟩ := ih fun other member => each other (List.mem_cons_of_mem _ member)
      refine ⟨max n m, List.forall_mem_cons.mpr ⟨?_, fun other member => ?_⟩⟩
      · exact first.mono (Nat.le_max_left n m)
      · exact (later other member).mono (Nat.le_max_right n m)
  have own (t : Term) : ∃ n, ∀ functor args annots, t.asked = .belief functor args annots →
      rank ⟨functor, args.length⟩ < n := by
    cases t.asked with
    | belief functor args annots =>
      refine ⟨rank ⟨functor, args.length⟩ + 1, ?_⟩
      rintro _ _ _ ⟨rfl, rfl, rfl⟩
      exact Nat.lt_succ_self _
    | _ => exact ⟨0, by simp⟩
  induction t using ofParts with
  | step t ih =>
    obtain ⟨n, inner⟩ := all t.subgoals fun goal inside => ih goal (part_of_subgoal inside)
    obtain ⟨m, outer⟩ := own t
    refine ⟨max n m, asksBelow_of (fun functor args annots asked => ?_) fun goal inside => ?_⟩
    · exact Nat.lt_of_lt_of_le (outer functor args annots asked) (Nat.le_max_right n m)
    · exact (inner goal inside).mono (Nat.le_max_left n m)

variable {P : Pairing} {t' : Term}

theorem Paired.subgoal (paired : t.Paired P t') {inner' : Term} (inside : inner' ∈ t'.subgoals) :
    ∃ inner ∈ t.subgoals, inner.Paired P inner' := by
  have asked := paired.asked
  simp only [subgoals] at inside ⊢
  generalize t.asked = what at asked
  generalize t'.asked = what' at asked inside
  cases asked with
  | both lefts rights =>
    rcases List.mem_pair.mp inside with rfl | rfl
    · exact ⟨_, by simp, lefts⟩
    · exact ⟨_, by simp, rights⟩
  | either lefts rights =>
    rcases List.mem_pair.mp inside with rfl | rfl
    · exact ⟨_, by simp, lefts⟩
    · exact ⟨_, by simp, rights⟩
  | absence inners =>
    obtain rfl := List.mem_singleton.mp inside
    exact ⟨_, by simp, inners⟩
  | call known terms =>
    split at inside
    case h_4 same =>
      obtain ⟨rfl, rfl⟩ := Asked.call.inj same
      obtain rfl := List.mem_singleton.mp inside
      obtain _ | ⟨_, _ | ⟨goals, _ | ⟨_, _ | _⟩⟩⟩ := terms
      exact ⟨_, by simp, goals⟩
    all_goals simp_all
  | _ => simp at inside

/-- Goals in corresponding positions are paired. -/
theorem Paired.hasGoal (paired : t.Paired P t') {inner' : Term} (reached : t'.HasGoal inner') :
    ∃ inner, t.HasGoal inner ∧ inner.Paired P inner' := by
  induction reached with
  | refl => exact ⟨t, .refl, paired⟩
  | tail _ inside ih =>
    obtain ⟨inner, here, same⟩ := ih
    obtain ⟨deeper, below, alike⟩ := same.subgoal inside
    exact ⟨deeper, .tail here below, alike⟩

theorem Paired.settled (paired : t.Paired P t') (settled : t.Settled) : t'.Settled := by
  rintro inner' v reached rfl
  obtain ⟨inner, here, same⟩ := paired.hasGoal reached
  cases same
  exact settled _ _ here rfl

theorem Paired.asksBelow (paired : t.Paired P t') (below : t.AsksBelow rank n) :
    t'.AsksBelow rank n := by
  intro inner' functor args annots reached asked
  obtain ⟨inner, here, same⟩ := paired.hasGoal reached
  have both := same.asked
  rw [asked] at both
  generalize first : inner.asked = what at both
  cases both with
  | belief literals =>
    cases literals with
    | lit known terms annots =>
      rw [← terms.length_eq]
      exact below inner functor _ _ here first

end Term

/-- A variable and its replacement. -/
def Pairing.ofRenaming (names : Renaming)
    (injective : ∀ v w u, names.lookup v = some u → names.lookup w = some u → v = w) : Pairing where
  literals _ _ := True
  vars v w := names.lookup v = some w
  marks _ _ := False
  vars_unique := ⟨fun _ _ _ one two => injective _ _ _ one two, fun _ _ _ one two =>
    Option.some.inj (one.symm.trans two)⟩
  marks_unique := nothing_unique

theorem Term.paired_renamed {names : Renaming} (injective) {t : Term}
    (known : ∀ v ∈ t.vars, ∃ w, names.lookup v = some w) :
    t.Paired (.ofRenaming names injective) (t.renamed names) := by
  have all {items : List Term} (each : ∀ t ∈ items, t.Paired (.ofRenaming names injective)
      (t.renamed names)) : List.Forall₂ (Term.Paired (.ofRenaming names injective)) items
        (items.map fun t => t.renamed names) :=
    List.forall₂_map_right_iff.mpr (List.forall₂_same.mpr each)
  induction t using partsInduction with
  | var v =>
    obtain ⟨w, found⟩ := known v (by simp)
    have renamed : (var v).renamed names = var w := by simp [Term.renamed, subst, found]
    rw [renamed]
    exact .var found
  | num n => exact .num n
  | str s => exact .str s
  | seq items ih =>
    rw [Term.renamed, subst_seq]
    exact .seq (all fun t member => ih t member fun v inside =>
      known v (vars_of_part member inside))
  | lit functor args annots ihArgs ihAnnots =>
    rw [Term.renamed, subst_lit]
    refine .lit trivial (all fun t member => ?_) (all fun t member => ?_)
    · exact ihArgs t member fun v inside =>
        known v (vars_of_part (List.mem_append_left _ member) inside)
    · exact ihAnnots t member fun v inside =>
        known v (vars_of_part (List.mem_append_right _ member) inside)

/-- The body that is tried is the stored one up to the numbers of variables. -/
theorem State.ruleTry_paired (s : State) (rule : Rule) :
    ∃ P, rule.body.Paired P (Query.ruleTry s rule).2.1 := by
  obtain ⟨names, same, known, injective⟩ := s.ruleTry_variant rule
  have bodies : (Query.ruleTry s rule).2.1 = rule.body.renamed names :=
    congrArg Rule.body (Clause.rule.inj same)
  rw [bodies]
  refine ⟨.ofRenaming names injective, Term.paired_renamed injective fun v inside => ?_⟩
  obtain ⟨w, -, found⟩ := known v (List.mem_append_right _ inside)
  exact ⟨w, found⟩

/-- The goal that a plan collects the solutions of. -/
def Plan.collected? : Plan → Option Term
  | .collect _ goal _ => some goal
  | _ => none

@[simp] theorem Plan.collected?_once (decide : View → Except Halt Deed) :
    (Plan.once decide).collected? = none := rfl

/-- Only calls of `.findall` collect, and they collect the solutions of the second argument. -/
def Registry.Collects (r : Registry) : Prop :=
  ∀ entry ∈ r.actions, ∀ args goal, (entry.2.plan entry.1.name args).collected? = some goal →
    entry.1.name = ".findall" ∧ ∃ pattern result, args = [pattern, goal, result]

namespace Registry

variable {r : Registry}

theorem register_collects (collects : r.Collects) (name : String) (arity : Option Nat)
    {action : Action} (new : ∀ args goal, (action.plan name args).collected? = some goal →
      name = ".findall" ∧ ∃ pattern result, args = [pattern, goal, result]) :
    (r.register name arity action).Collects :=
  forall_register collects name arity new

theorem lookup_collects (collects : r.Collects) {name : String} {args : List Term}
    {action : Action} {goal : Term} (found : r.lookup name args.length = some action)
    (collected : (action.plan name args).collected? = some goal) :
    name = ".findall" ∧ ∃ pattern result, args = [pattern, goal, result] := by
  rcases mem_of_lookup found with exact | variadic
  · exact collects _ exact args goal collected
  · exact collects _ variadic args goal collected

end Registry

namespace Library

open Registry

variable {r : Registry}

theorem addControl_collects (collects : r.Collects) : (addControl r).Collects := by
  have plain (args : List Term) : (wait args).collected? = none := by
    fun_cases wait args <;> rfl
  refine register_collects ?_ _ _ fun _ _ => nofun
  refine register_collects ?_ _ _ fun _ _ => nofun
  refine register_collects ?_ _ _ fun _ _ => nofun
  refine register_collects ?_ _ _ (by simp [Action.plan, plain])
  exact register_collects collects _ _ fun _ _ => nofun

theorem addIntrospection_collects (collects : r.Collects) : (addIntrospection r).Collects := by
  have counts (args : List Term) : (count args).collected? = none := by
    fun_cases count args <;> rfl
  have names (args : List Term) : (myName args).collected? = none := by
    fun_cases myName args <;> rfl
  refine register_collects ?_ _ _ fun _ _ => nofun
  refine register_collects ?_ _ _ (by simp [Action.plan, names])
  refine register_collects ?_ _ _ fun args goal collected => ?_
  · exact register_collects collects _ _ (by simp [Action.plan, counts])
  · simp only [Action.plan] at collected
    fun_cases findall args with
    | case1 pattern inner result =>
      obtain rfl := Option.some.inj collected
      exact ⟨rfl, pattern, result, rfl⟩
    | case2 => simp [findall] at collected

theorem addKinds_collects (collects : r.Collects) : (addKinds r).Collects :=
  forall_addKinds collects (fun _ _ _ _ => nofun) fun _ _ => nofun

theorem addSequences_collects (collects : r.Collects) : (addSequences r).Collects := by
  have ranges (args : List Term) : (range args).collected? = none := by
    fun_cases range args <;> rfl
  have members (args : List Term) : (member args).collected? = none := by
    fun_cases member args <;> rfl
  refine register_collects ?_ _ _ (by simp [Action.plan, ranges])
  refine register_collects ?_ _ _ (by simp [Action.plan, members])
  refine register_collects ?_ _ _ fun _ _ => nofun
  refine register_collects ?_ _ _ fun _ _ => nofun
  refine register_collects ?_ _ _ fun _ _ => nofun
  refine register_collects ?_ _ _ fun _ _ => nofun
  exact register_collects collects _ _ fun _ _ => nofun

theorem addTexts_collects (collects : r.Collects) : (addTexts r).Collects := by
  have places (args : List Term) : (substring args).collected? = none := by
    fun_cases substring args <;> rfl
  refine register_collects ?_ _ _ (by simp [Action.plan, places])
  exact register_collects collects _ _ fun _ _ => nofun

theorem addSurroundings_collects (collects : r.Collects) : (addSurroundings r).Collects := by
  refine register_collects ?_ _ _ fun _ _ => nofun
  refine register_collects ?_ _ _ fun _ _ => nofun
  exact register_collects collects _ _ fun _ _ => nofun

theorem standard_collects : standard.Collects := by
  refine addSurroundings_collects (addTexts_collects (addSequences_collects ?_))
  refine addKinds_collects (addIntrospection_collects (addControl_collects ?_))
  intro entry member
  simp at member

end Library

/-- The actions are standard ones; no body of a rule leaves it to a variable what it asks for, and
all that it asks for ranks below the group that the rule is kept under, which is that of its
head. -/
structure Context.Stratified (ctx : Context) (rank : Group → Nat) : Prop where
  standard : ∀ f n action, ctx.actions.lookup f n = some action →
    Library.standard.lookup f n = some action
  settled : ∀ group, ∀ rule ∈ ctx.mind.beliefs.rules group, rule.body.Settled
  descends : ∀ group, ∀ rule ∈ ctx.mind.beliefs.rules group,
    rule.body.AsksBelow rank (rank group)

/-- Whatever a call collects stands in goal position. -/
theorem Context.Stratified.collected {ctx : Context} {rank : Group → Nat}
    (stratified : ctx.Stratified rank) {t goal : Term} {name : String} {args : List Term}
    (asked : t.asked = .call name args) {action : Action}
    (found : ctx.actions.lookup name args.length = some action)
    (collected : (action.plan name args).collected? = some goal) : goal ∈ t.subgoals := by
  obtain ⟨rfl, pattern, result, rfl⟩ := Registry.lookup_collects Library.standard_collects
    (stratified.standard _ _ action found) collected
  simp [Term.subgoals, asked]

end Deliberation
