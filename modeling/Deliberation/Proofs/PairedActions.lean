import Deliberation.Library
import Deliberation.Proofs.PairedStates
import Deliberation.Proofs.SortedMembers
import Deliberation.Proofs.StandardActions

/-! Actions side by side. What a standard action makes of paired arguments in paired situations is
paired, and if it fails then on both sides with the same kind of error. Only chance, the date and the
time of day come from outside and may differ. -/
namespace Deliberation

variable {P P' : Pairing}

namespace Agree

variable {α β γ δ : Type} {R : α → β → Prop} {S : γ → δ → Prop} {x : Except Halt α}
  {y : Except Halt β}

theorem bind {f : α → Except Halt γ} {g : β → Except Halt δ} (first : Agree R x y)
    (rest : ∀ a b, R a b → Agree S (f a) (g b)) : Agree S (x >>= f) (y >>= g) := by
  cases first with
  | ok related => exact rest _ _ related
  | error kind => exact .error kind

theorem map {f : α → γ} {g : β → δ} (agree : Agree R x y) (step : ∀ a b, R a b → S (f a) (g b)) :
    Agree S (x.map f) (y.map g) := by
  cases agree with
  | ok related => exact .ok (step _ _ related)
  | error kind => exact .error kind

end Agree

namespace Term

theorem num_closed (P : Pairing) (n : Number) : (num n).Closed P := ⟨.num n, rfl⟩

theorem str_closed (P : Pairing) (text : String) : (str text).Closed P := ⟨.str text, rfl⟩

theorem seq_closed_iff {items : List Term} :
    (seq items).Closed P ↔ ∀ t ∈ items, t.Closed P := by
  constructor
  · rintro ⟨paired, vars⟩ t member
    rw [vars_seq, List.flatMap_eq_nil_iff] at vars
    cases paired with
    | seq related => exact ⟨List.forall₂_same.mp related t member, vars t member⟩
  · intro all
    refine ⟨.seq (List.forall₂_same.mpr fun t member => (all t member).paired), ?_⟩
    rw [vars_seq, List.flatMap_eq_nil_iff]
    exact fun t member => (all t member).vars

end Term

/-- The same values on both sides, all of them without variables. -/
def SameValues (P : Pairing) (values values' : List Term) : Prop :=
  values = values' ∧ ∀ t ∈ values, t.Closed P

theorem SameValues.cons {t t' : Term} (here : t = t' ∧ t.Closed P) {rest rest' : List Term}
    (others : SameValues P rest rest') : SameValues P (t :: rest) (t' :: rest') := by
  obtain ⟨rfl, closed⟩ := here
  obtain ⟨rfl, all⟩ := others
  exact ⟨rfl, List.forall_mem_cons.mpr ⟨closed, all⟩⟩

/-- The same name and beliefs, whose terms are paired with themselves. -/
structure Mind.Paired (P : Pairing) (m m' : Mind) : Prop where
  name : m'.name = m.name
  named : P.literals m.name 0
  beliefs : m'.beliefs = m.beliefs
  facts : ∀ g, ∀ fact ∈ m.beliefs.lookup g, fact.Paired P fact
  rules : ∀ g, ∀ rule ∈ m.beliefs.rules g,
    rule.head.Paired P rule.head ∧ rule.body.Paired P rule.body

theorem Mind.Paired.mono (more : P.Extends P') {m m' : Mind} (paired : m.Paired P m') :
    m.Paired P' m' :=
  ⟨paired.name, more.literals ▸ paired.named, paired.beliefs,
    fun g fact member => (paired.facts g fact member).mono more,
    fun g rule member => (paired.rules g rule member).imp (·.mono more) (·.mono more)⟩

structure View.Paired (P : Pairing) (view view' : View) : Prop where
  mind : view.mind.Paired P view'.mind
  scope : view.scope.Paired P view'.scope

/-- The same deed up to numbers. What is printed has no effect on the bindings. -/
inductive Deed.Paired (P : Pairing) : Deed → Deed → Prop where
  | answer (holds : Bool) : Paired P (.answer holds) (.answer holds)
  | unify {pairs pairs' : List (Term × Term)}
      (terms : List.Forall₂ (fun pair pair' => pair.1.Paired P pair'.1 ∧ pair.2.Paired P pair'.2)
        pairs pairs') : Paired P (.unify pairs) (.unify pairs')
  | print (parts parts' : List Term) : Paired P (.print parts) (.print parts')
  | stop : Paired P .stop .stop
  | dump : Paired P .dump .dump
  | forget : Paired P .forget .forget
  | delay (duration : Time) (millis : Number) :
      Paired P (.delay duration millis) (.delay duration millis)

/-- Offers without variables of their own. -/
inductive Offer.Paired (P : Pairing) : Offer → Offer → Prop where
  | of {rest rest' : Candidates} (offers : rest.Paired P rest') : Paired P (.of rest) (.of rest')

/-- Plans that unify nothing on the way, and come to paired results in paired situations. -/
inductive Plan.Paired (P : Pairing) : Plan → Plan → Prop where
  | once {decide decide' : View → Except Halt Deed}
      (alike : ∀ {P' view view'}, P.Extends P' → view.Paired P' view' →
        Agree (Deed.Paired P') (decide view) (decide' view')) :
      Paired P (.once decide) (.once decide')
  | choices {target target' : Term} {candidates candidates' : View → Except Halt Offer}
      (targets : target.Paired P target')
      (alike : ∀ {P' view view'}, P.Extends P' → view.Paired P' view' →
        Agree (Offer.Paired P') (candidates view) (candidates' view')) :
      Paired P (.choices target candidates) (.choices target' candidates')
  | collect {pattern pattern' goal goal' result result' : Term}
      (patterns : pattern.Paired P pattern') (goals : goal.Paired P goal')
      (results : result.Paired P result') :
      Paired P (.collect pattern goal result) (.collect pattern' goal' result')

theorem Plan.answer_paired (holds : Bool) :
    Plan.Paired P (.once fun _ => .ok (.answer holds)) (.once fun _ => .ok (.answer holds)) :=
  .once fun _ _ => .ok (.answer holds)

theorem Deed.unify_paired {left left' right right' : Term} (lefts : left.Paired P left')
    (rights : right.Paired P right') :
    Deed.Paired P (.unify [(left, right)]) (.unify [(left', right')]) :=
  .unify (.cons ⟨lefts, rights⟩ .nil)

theorem State.Paired.unifyEach {s s' : State} (paired : s.Paired P s')
    {pairs pairs' : List (Term × Term)}
    (terms : List.Forall₂ (fun pair pair' => pair.1.Paired P pair'.1 ∧ pair.2.Paired P pair'.2)
      pairs pairs') :
    (s.unifyEach pairs).1 = (s'.unifyEach pairs').1 ∧
      (s.unifyEach pairs).2.Paired P (s'.unifyEach pairs').2 := by
  obtain ⟨same, bound⟩ := paired.bindings.unifyEach terms
  exact ⟨same, bound, paired.fits⟩

theorem State.Paired.perform {s s' : State} (paired : s.Paired P s') {deed deed' : Deed}
    (deeds : deed.Paired P deed') (mind mind' : Mind) :
    (deed.perform mind s).1 = (deed'.perform mind' s').1 ∧
      (deed.perform mind s).2.Paired P (deed'.perform mind' s').2 := by
  have grown := (s.perform_later mind deed).supply
  have grown' := (s'.perform_later mind' deed').supply
  cases deeds with
  | answer holds => exact ⟨rfl, paired⟩
  | unify terms =>
    obtain ⟨same, unified⟩ := paired.unifyEach terms
    exact ⟨congrArg Except.ok same, unified⟩
  | forget => exact ⟨rfl, paired.bindings.clear, paired.fits⟩
  | delay duration millis =>
    rw [perform_delay, perform_delay]
    split <;> exact ⟨rfl, paired.later ⟨rfl, .refl _⟩ ⟨rfl, .refl _⟩⟩
  | _ => exact ⟨rfl, paired.later ⟨rfl, grown⟩ ⟨rfl, grown'⟩⟩

/-- Every call with paired arguments makes paired plans. -/
def Action.Steady (action : Action) : Prop :=
  ∀ {P name args args'}, List.Forall₂ (Term.Paired P) args args' →
    (action.plan name args).Paired P (action.plan name args')

theorem terms_mono (more : P.Extends P') {ts ts' : List Term}
    (terms : List.Forall₂ (Term.Paired P) ts ts') : List.Forall₂ (Term.Paired P') ts ts' :=
  terms.imp fun _ _ paired => paired.mono more

theorem forall₂_getLast? {α β : Type} {R : α → β → Prop} {xs : List α} {ys : List β}
    (related : List.Forall₂ R xs ys) : Option.Rel R xs.getLast? ys.getLast? := by
  have back := List.rel_reverse related
  rw [List.getLast?_eq_head?_reverse, List.getLast?_eq_head?_reverse]
  generalize xs.reverse = us at back
  generalize ys.reverse = vs at back
  cases back with
  | nil => exact .none
  | cons here _ => exact .some here

theorem forall₂_dropLast {α β : Type} {R : α → β → Prop} {xs : List α} {ys : List β}
    (related : List.Forall₂ R xs ys) : List.Forall₂ R xs.dropLast ys.dropLast := by
  rw [List.dropLast_eq_take, List.dropLast_eq_take, related.length_eq]
  exact List.forall₂_take _ related

namespace Action

variable {scope scope' : Scope}

theorem groundArgs_paired (scopes : scope.Paired P scope') (name : String) (params : List Param)
    {args args' : List Term} (terms : List.Forall₂ (Term.Paired P) args args') :
    Agree (SameValues P) (groundArgs name scope params args)
      (groundArgs name scope' params args') := by
  have nothing : SameValues P [] [] := ⟨rfl, by simp⟩
  induction terms generalizing params with
  | nil => cases params <;> exact .ok nothing
  | cons here _ ih =>
    cases params with
    | nil => exact .ok nothing
    | cons param params =>
      refine (scopes.grounded here).bind ?_
      rintro value _ ⟨rfl, closed⟩
      split
      · exact (ih params).bind fun _ _ others => .ok (.cons ⟨rfl, closed⟩ others)
      · exact .error rfl

/-- A function of values without variables that gives such a value. -/
theorem function_steady {params : List Param} {call : List Term → Except Halt Term}
    (closed : ∀ {P values result}, (∀ t ∈ values, Term.Closed P t) → call values = .ok result →
      result.Closed P) : (Action.function params fun _ => call).Steady := by
  intro P name args args' terms
  refine .once fun {P' view view'} more views => ?_
  have outputs := forall₂_getLast? (terms_mono more terms)
  have inputs := groundArgs_paired views.scope name params (forall₂_dropLast (terms_mono more terms))
  generalize args.getLast? = output at outputs
  generalize args'.getLast? = output' at outputs
  cases outputs with
  | none => exact .ok (.answer false)
  | some output =>
    refine inputs.bind ?_
    rintro values _ ⟨rfl, all⟩
    dsimp only
    cases called : call values with
    | error e => exact .error rfl
    | ok result => exact .ok (Deed.unify_paired output (closed all called).paired)

theorem predicate_steady (params : List Param) (test : List Term → Except Halt Bool) :
    (Action.predicate params test).Steady := by
  intro P name args args' terms
  refine .once fun {P' view view'} more views => ?_
  refine (groundArgs_paired views.scope name params (terms_mono more terms)).bind ?_
  rintro values _ ⟨rfl, -⟩
  cases test values with
  | error e => exact .error rfl
  | ok holds => exact .ok (.answer holds)

end Action

namespace Library

open Plan

variable {args args' : List Term}

theorem wait_paired (terms : List.Forall₂ (Term.Paired P) args args') :
    (wait args).Paired P (wait args') := by
  rcases terms with _ | ⟨millis, _ | _⟩
  · exact answer_paired false
  · refine .once fun more views => (views.scope.grounded (millis.mono more)).bind ?_
    rintro value _ ⟨rfl, -⟩
    split
    · split
      · exact .ok (.delay _ _)
      · exact .error rfl
    · exact .error rfl
  · exact answer_paired false

theorem matching_paired {beliefs : BeliefBase} {g : Group}
    (stored : ∀ fact ∈ beliefs.lookup g, fact.Paired P fact) {pattern pattern' : Term}
    (patterns : pattern.Paired P pattern') :
    matching beliefs pattern g = matching beliefs pattern' g := by
  have empty : Bindings.Paired P {} {} := ⟨Scope.empty_paired P, .nil⟩
  refine List.filter_congr fun fact member => ?_
  exact (empty.unify patterns (stored fact member)).1

theorem count_paired (terms : List.Forall₂ (Term.Paired P) args args') :
    (count args).Paired P (count args') := by
  rcases terms with _ | ⟨pattern, _ | ⟨total, _ | _⟩⟩
  · exact answer_paired false
  · exact answer_paired false
  · refine .once fun {P' view view'} more views => ?_
    have patterns := views.scope.resolve (pattern.mono more)
    have group := patterns.group?
    dsimp only
    generalize view.scope.resolve _ = value at patterns group
    generalize view'.scope.resolve _ = value' at patterns group
    rw [views.mind.beliefs, ← group]
    have same (g : Group) := matching_paired (views.mind.facts g) patterns
    cases patterns with
    | var => exact .error rfl
    | lit known args annots =>
      simp only [Term.group?, ← same]
      exact .ok (Deed.unify_paired (total.mono more) (.num _))
    | _ => exact .error rfl
  · exact answer_paired false

theorem findall_paired (terms : List.Forall₂ (Term.Paired P) args args') :
    (findall args).Paired P (findall args') := by
  rcases terms with _ | ⟨pattern, _ | ⟨goal, _ | ⟨result, _ | _⟩⟩⟩
  · exact answer_paired false
  · exact answer_paired false
  · exact answer_paired false
  · exact .collect pattern goal result
  · exact answer_paired false

theorem myName_paired (terms : List.Forall₂ (Term.Paired P) args args') :
    (myName args).Paired P (myName args') := by
  rcases terms with _ | ⟨target, _ | _⟩
  · exact answer_paired false
  · refine .once fun more views => .ok (Deed.unify_paired (target.mono more) ?_)
    rw [views.mind.name]
    exact .lit views.mind.named .nil .nil
  · exact answer_paired false

theorem ground_paired (terms : List.Forall₂ (Term.Paired P) args args') :
    (ground args).Paired P (ground args') := by
  refine .once fun more views => ?_
  rcases terms with _ | ⟨t, _ | _⟩
  · exact .ok (.answer false)
  · simp only [views.scope.isGround (t.mono more)]
    exact .ok (.answer _)
  · exact .ok (.answer false)

theorem member_paired (terms : List.Forall₂ (Term.Paired P) args args') :
    (member args).Paired P (member args') := by
  rcases terms with _ | ⟨target, _ | ⟨source, _ | _⟩⟩
  · exact answer_paired false
  · exact answer_paired false
  · exact .choices target fun more views =>
      (views.scope.elements (source.mono more)).map fun _ _ items => .of (.terms items)
  · exact answer_paired false

theorem range_paired (terms : List.Forall₂ (Term.Paired P) args args') :
    (range args).Paired P (range args') := by
  rcases terms with _ | ⟨target, _ | ⟨bound, _ | _⟩⟩
  · exact answer_paired false
  · exact answer_paired false
  · refine .choices target fun more views => (views.scope.grounded (bound.mono more)).bind ?_
    rintro value _ ⟨rfl, -⟩
    split
    · exact .ok (.of (.range _ _))
    · exact .error rfl
  · exact answer_paired false

theorem groundAll_paired {scope scope' : Scope} (scopes : scope.Paired P scope')
    (terms : List.Forall₂ (Term.Paired P) args args') :
    Agree (SameValues P) (groundAll scope args) (groundAll scope' args') := by
  induction terms with
  | nil => exact .ok ⟨rfl, by simp⟩
  | cons here _ ih =>
    exact (scopes.grounded here).bind fun _ _ first =>
      ih.bind fun _ _ others => .ok (.cons first others)

theorem allSequences_closed {values : List Term} {sequences : List (List Term)}
    (closed : ∀ t ∈ values, t.Closed P) (found : allSequences values = some sequences) :
    ∀ items ∈ sequences, ∀ t ∈ items, t.Closed P := by
  induction values generalizing sequences with
  | nil =>
    obtain rfl := Option.some.inj found
    simp
  | cons value rest ih =>
    obtain ⟨here, others⟩ := List.forall_mem_cons.mp closed
    cases value with
    | seq items =>
      obtain ⟨later, inner, rfl⟩ := Option.map_eq_some_iff.mp found
      exact List.forall_mem_cons.mpr ⟨Term.seq_closed_iff.mp here, ih others inner⟩
    | _ => simp [allSequences] at found

theorem joinValues_closed {values : List Term} (closed : ∀ t ∈ values, t.Closed P) :
    (joinValues values).Closed P := by
  unfold joinValues
  split
  · rename_i sequences found
    refine Term.seq_closed_iff.mpr fun t member => ?_
    obtain ⟨items, inside, here⟩ := List.mem_flatten.mp member
    exact allSequences_closed closed found items inside t here
  · exact Term.str_closed P _

theorem concat_paired (terms : List.Forall₂ (Term.Paired P) args args') :
    (concat args).Paired P (concat args') := by
  refine .once fun more views => ?_
  have outputs := forall₂_getLast? (terms_mono more terms)
  have inputs := groundAll_paired views.scope (forall₂_dropLast (terms_mono more terms))
  generalize args.getLast? = output at outputs
  generalize args'.getLast? = output' at outputs
  cases outputs with
  | none => exact .error rfl
  | some output =>
    refine inputs.bind ?_
    rintro values _ ⟨rfl, closed⟩
    exact .ok (Deed.unify_paired output (joinValues_closed closed).paired)

theorem substring_paired (terms : List.Forall₂ (Term.Paired P) args args') :
    (substring args).Paired P (substring args') := by
  rcases terms with _ | ⟨needle, _ | ⟨haystack, _ | ⟨target, _ | _⟩⟩⟩
  · exact answer_paired false
  · exact answer_paired false
  · exact answer_paired false
  · refine .choices target fun more views => (views.scope.grounded (needle.mono more)).bind ?_
    rintro text _ ⟨rfl, -⟩
    refine (views.scope.grounded (haystack.mono more)).bind ?_
    rintro whole _ ⟨rfl, -⟩
    refine .ok (.of (.terms (List.forall₂_same.mpr fun position member => ?_)))
    obtain ⟨i, -, rfl⟩ := List.mem_map.mp member
    exact .num _
  · exact answer_paired false

-- Functions give parts of their arguments, or numbers.
section Functions

variable {values : List Term} {result : Term} (closed : ∀ t ∈ values, t.Closed P)
include closed

theorem sequenceOf_closed : ∀ t ∈ sequenceOf values, t.Closed P := by
  unfold sequenceOf
  split
  · exact Term.seq_closed_iff.mp (closed _ List.mem_cons_self)
  · simp

theorem extremum_closed {name : String} {pick : List Term → Option Term}
    (picks : ∀ items t, pick items = some t → t ∈ items)
    (called : extremum name pick values = .ok result) : result.Closed P := by
  unfold extremum at called
  split at called
  · rename_i picked
    obtain rfl := Except.ok.inj called
    exact sequenceOf_closed closed _ (picks _ _ picked)
  · simp at called

theorem lengthOf_closed (called : lengthOf values = .ok result) : result.Closed P := by
  unfold lengthOf at called
  split at called
  · obtain rfl := Except.ok.inj called
    exact Term.num_closed P _
  · obtain rfl := Except.ok.inj called
    exact Term.num_closed P _
  · simp at called
  · simp at called

theorem nth_closed (called : nth values = .ok result) : result.Closed P := by
  unfold nth at called
  split at called
  · rename_i index rest
    dsimp only at called
    split at called
    · rename_i found
      obtain rfl := Except.ok.inj called
      split at found
      · simp at found
      · exact sequenceOf_closed (List.forall_mem_cons.mp closed).2 _ (List.mem_of_getElem? found)
    · simp at called
  · simp at called

theorem sorted_closed (called : sorted values = .ok result) : result.Closed P := by
  unfold sorted at called
  split at called
  · rename_i items found
    obtain rfl := Except.ok.inj called
    exact Term.seq_closed_iff.mpr fun t member =>
      sequenceOf_closed closed t (sort?_mem found t member)
  · simp at called

end Functions

theorem foldl_mem {α : Type} {pick : α → α → α} (one : ∀ a b, pick a b = a ∨ pick a b = b)
    (items : List α) (first : α) : items.foldl pick first ∈ first :: items := by
  induction items generalizing first with
  | nil => simp
  | cons next rest ih =>
    have member := ih (pick first next)
    rw [List.foldl_cons]
    rcases List.mem_cons.mp member with same | later
    · rw [same]
      rcases one first next with kept | changed
      · simp [kept]
      · simp [changed]
    · simp [later]

theorem least_mem (items : List Term) (t : Term) (found : least items = some t) : t ∈ items := by
  cases items with
  | nil => simp [least] at found
  | cons first rest =>
    obtain rfl := Option.some.inj found
    refine foldl_mem (fun a b => ?_) rest first
    split <;> simp

theorem greatest_mem (items : List Term) (t : Term) (found : greatest items = some t) :
    t ∈ items := by
  cases items with
  | nil => simp [greatest] at found
  | cons first rest =>
    obtain rfl := Option.some.inj found
    refine foldl_mem (fun a b => ?_) rest first
    split <;> simp

/-- The actions whose values come from outside. -/
def surroundings : List ActionKey := [⟨".random", some 1⟩, ⟨".date", some 3⟩, ⟨".time", some 3⟩]

end Library

namespace Registry

/-- Every registered action is steady, unless its values come from outside. -/
def Steady (r : Registry) : Prop :=
  ∀ entry ∈ r.actions, entry.1 ∉ Library.surroundings → entry.2.Steady

variable {r : Registry}

theorem register_steady (steady : r.Steady) (name : String) (arity : Option Nat) {action : Action}
    (new : ⟨name, arity⟩ ∉ Library.surroundings → action.Steady) :
    (r.register name arity action).Steady :=
  forall_register steady name arity new

theorem lookup_steady (steady : r.Steady) {name : String} {arity : Nat}
    (inward : ⟨name, some arity⟩ ∉ Library.surroundings) {action : Action}
    (found : r.lookup name arity = some action) : action.Steady := by
  rcases mem_of_lookup found with exact | variadic
  · exact steady _ exact inward
  · exact steady _ variadic (by simp [Library.surroundings])

end Registry

namespace Library

open Registry

variable {r : Registry}

theorem addControl_steady (steady : r.Steady) : (addControl r).Steady := by
  refine register_steady ?_ _ _ fun _ _ _ _ _ _ => .once fun _ _ => .ok .stop
  refine register_steady ?_ _ _ fun _ _ _ _ _ _ => .once fun _ _ => .ok (.print _ _)
  refine register_steady ?_ _ _ fun _ _ _ _ _ _ => .once fun _ _ => .ok .forget
  refine register_steady ?_ _ _ fun _ _ _ _ _ => wait_paired
  exact register_steady steady _ _ fun _ _ _ _ _ _ => Plan.answer_paired false

theorem addIntrospection_steady (steady : r.Steady) : (addIntrospection r).Steady := by
  refine register_steady ?_ _ _ fun _ _ _ _ _ _ => .once fun _ _ => .ok .dump
  refine register_steady ?_ _ _ fun _ _ _ _ _ => myName_paired
  refine register_steady ?_ _ _ fun _ _ _ _ _ => findall_paired
  exact register_steady steady _ _ fun _ _ _ _ _ => count_paired

theorem addKinds_steady (steady : r.Steady) : (addKinds r).Steady :=
  forall_addKinds steady (fun _ _ _ => Action.predicate_steady _ _) fun _ _ _ _ _ => ground_paired

theorem addSequences_steady (steady : r.Steady) : (addSequences r).Steady := by
  refine register_steady ?_ _ _ fun _ _ _ _ _ => range_paired
  refine register_steady ?_ _ _ fun _ _ _ _ _ => member_paired
  refine register_steady ?_ _ _ fun _ => Action.function_steady sorted_closed
  refine register_steady ?_ _ _ fun _ => Action.function_steady nth_closed
  refine register_steady ?_ _ _ fun _ => Action.function_steady lengthOf_closed
  refine register_steady ?_ _ _ fun _ =>
    Action.function_steady fun closed => extremum_closed closed greatest_mem
  exact register_steady steady _ _ fun _ =>
    Action.function_steady fun closed => extremum_closed closed least_mem

theorem addTexts_steady (steady : r.Steady) : (addTexts r).Steady := by
  refine register_steady ?_ _ _ fun _ _ _ _ _ => substring_paired
  exact register_steady steady _ _ fun _ _ _ _ _ => concat_paired

/-- Chance, date and time of day are not among the steady actions. -/
theorem addSurroundings_steady (steady : r.Steady) : (addSurroundings r).Steady := by
  refine register_steady ?_ _ _ fun outside => absurd (by simp [surroundings]) outside
  refine register_steady ?_ _ _ fun outside => absurd (by simp [surroundings]) outside
  exact register_steady steady _ _ fun outside => absurd (by simp [surroundings]) outside

theorem standard_steady : standard.Steady := by
  refine addSurroundings_steady (addTexts_steady (addSequences_steady ?_))
  refine addKinds_steady (addIntrospection_steady (addControl_steady ?_))
  intro entry member
  simp at member

end Library

end Deliberation
