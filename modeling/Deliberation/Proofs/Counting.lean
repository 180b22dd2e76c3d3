import Deliberation.Library
import Deliberation.Proofs.HeldSolutions
import Deliberation.Proofs.ResolvedUnification
import Deliberation.Proofs.StandardActions
import Deliberation.Proofs.Surveys

/-! Counting and enumerating. The count tries the stored facts themselves on the value of its
pattern, in an empty scope; a query of the beliefs tries a copy of each fact in the scope as it is.
Where no fact shares a variable with the value of the pattern, the two find the same facts. -/
namespace Deliberation

/-- A variable of a pattern stands for itself, and one in a copy of a fact for the one that it
replaces. -/
def Pairing.copying (pattern fact : Term) (names : Renaming)
    (injective : ∀ v w u, names.lookup v = some u → names.lookup w = some u → v = w)
    (fresh : ∀ v ∈ fact.vars, ∀ u, names.lookup v = some u → u ∉ pattern.vars)
    (apart : ∀ v ∈ fact.vars, v ∉ pattern.vars) : Pairing where
  literals _ _ := True
  vars v w := (v = w ∧ v ∈ pattern.vars) ∨ (w ∈ fact.vars ∧ names.lookup w = some v)
  marks _ _ := False
  vars_unique := by
    constructor
    · rintro v w u (⟨rfl, inside⟩ | ⟨stored, found⟩) (⟨rfl, inside'⟩ | ⟨stored', found'⟩)
      · rfl
      · exact absurd inside (apart _ stored')
      · exact absurd inside' (apart _ stored)
      · exact Option.some.inj (found.symm.trans found')
    · rintro u v w (⟨rfl, inside⟩ | ⟨stored, found⟩) (⟨rfl, inside'⟩ | ⟨stored', found'⟩)
      · rfl
      · exact absurd inside (fresh _ stored' _ found')
      · exact absurd inside' (fresh _ stored _ found)
      · exact injective _ _ _ found found'
  marks_unique := nothing_unique

/-- A term with its variables replaced by paired ones is paired with the term. -/
theorem Term.paired_of_subst {P : Pairing} (known : ∀ f n, P.literals f n) {f : Var → Term}
    {t : Term} (each : ∀ v ∈ t.vars, (f v).Paired P (.var v)) : (t.subst f).Paired P t := by
  have items {ts : List Term} (member : ∀ t ∈ ts, (t.subst f).Paired P t) :
      List.Forall₂ (Term.Paired P) (ts.map (Term.subst f)) ts := by
    rw [List.forall₂_map_left_iff, List.forall₂_same]
    exact member
  induction t using partsInduction with
  | var v => exact each v (by simp)
  | num n => exact .num n
  | str s => exact .str s
  | seq ts ih =>
    rw [subst_seq]
    refine .seq (items fun t member => ih t member fun v inside => each v ?_)
    simpa using ⟨t, member, inside⟩
  | lit functor args annots ihArgs ihAnnots =>
    rw [subst_lit]
    refine .lit (known _ _) (items fun t member => ihArgs t member fun v inside => each v ?_)
      (items fun t member => ihAnnots t member fun v inside => each v ?_)
    · simpa using .inl ⟨t, member, inside⟩
    · simpa using .inr ⟨t, member, inside⟩

theorem Bindings.Concur.answer {P : Pairing} {b b' : Bindings} {r r' : Bool × Bindings}
    (concur : Concur P b b' r r') : r.1 = r'.1 := by
  cases concur <;> rfl

namespace Query

variable {ctx : Context} {s : State} {goal g : Term} {group : Group}

/-- The copy of a fact unifies with the goal just when the fact unifies with what the goal stands
for. -/
theorem fact_matches (acyclic : s.scope.Acyclic) (issued : Issued goal s) {fact : Term}
    (apart : ∀ v ∈ fact.vars, v ∉ (s.scope.resolve goal).vars) :
    ((factTry s fact).2.mark.2.unify goal (factTry s fact).1).1 =
      (Bindings.unify (s.scope.resolve goal) fact {}).1 := by
  obtain ⟨names, copied, each, injective⟩ := State.factTry_variant s fact
  have candidate : (factTry s fact).1 = fact.renamed names := Clause.fact.inj copied
  have value : (s.scope.resolve goal).Over (Var.between 0 s.nextVar) :=
    issued.scope_over.resolve issued.goal_over
  have fresh : ∀ v ∈ fact.vars, ∀ u, names.lookup v = some u → u ∉ (s.scope.resolve goal).vars := by
    intro v stored u found member
    obtain ⟨w, taken, found'⟩ := each v stored
    obtain rfl := Option.some.inj (found.symm.trans found')
    exact Nat.not_lt.mpr taken.1 (value u member).2
  let P := Pairing.copying (s.scope.resolve goal) fact names injective fresh apart
  have goals : Scope.Stands P s.scope .empty goal (s.scope.resolve goal) := by
    have self : (s.scope.resolve goal).Paired (.among {v | v ∈ (s.scope.resolve goal).vars})
        (s.scope.resolve goal) := Term.paired_among_iff.mpr fun v member => member
    have more : (Pairing.among {v | v ∈ (s.scope.resolve goal).vars}).Extends P := ⟨rfl, Or.inl, id⟩
    rw [Scope.Stands, Scope.resolve_empty]
    exact self.mono more
  have facts : Scope.Stands P s.scope .empty (fact.renamed names) fact := by
    have later : s.scope.resolve (fact.renamed names) = fact.renamed names :=
      issued.scope_over.resolve_of_later (Term.renamed_over each)
    rw [Scope.Stands, Scope.resolve_empty, later]
    refine Term.paired_of_subst (fun _ _ => trivial) fun v stored => ?_
    obtain ⟨u, -, found⟩ := each v stored
    rw [found]
    exact .var (.inr ⟨stored, found⟩)
  rw [candidate]
  exact (@Bindings.unify_stands P (factTry s fact).2.mark.2.bindings {} _ _ _ _ acyclic
    Scope.empty_acyclic goals facts).answer

section Facts

variable (unruled : ctx.mind.beliefs.rules group = []) (acyclic : s.scope.Acyclic)
  (issued : Issued goal s)
include unruled acyclic issued

/-- From a fact on, the facts that match are the solutions, and the bindings stay as they were. -/
theorem facts_solve {i : Nat} {rest : List Term}
    (dropped : (ctx.mind.beliefs.lookup group).drop i = rest)
    (apart : ∀ fact ∈ rest, ∀ v ∈ fact.vars, v ∉ (s.scope.resolve goal).vars) {s' : State}
    (same : s'.bindings = s.bindings) (later : s.nextVar ≤ s'.nextVar) :
    ∃ states t, (running g (.recalling goal (.facts group i) none)).Solves ctx s' states t ∧
      t.bindings = s.bindings ∧ states.length =
        (rest.filter fun fact => (Bindings.unify (s.scope.resolve goal) fact {}).1).length := by
  induction rest generalizing i s' with
  | nil =>
    have ended : (running g (.recalling goal (.rules group 0) none)).Solves ctx s' [] s' :=
      .exhausted (rules_over (by rw [unruled, List.drop_nil]))
    exact ⟨[], s', .of_mimics (facts_over dropped) ended, same, rfl⟩
  | cons fact rest ih =>
    obtain ⟨here, others⟩ := List.forall_mem_cons.mp apart
    have scope : s'.scope = s.scope := congrArg Bindings.scope same
    have issued' : Issued goal s' :=
      ⟨fun v member => Nat.lt_of_lt_of_le (issued.goal v member) later,
        fun v member => Nat.lt_of_lt_of_le (issued.scope v (scope ▸ member)) later⟩
    have matched := fact_matches (scope ▸ acyclic) issued' (scope ▸ here)
    rw [scope] at matched
    cases unified : (factTry s' fact).2.mark.2.unify goal (factTry s' fact).1 with
    | mk ok s'' =>
    rw [unified] at matched
    obtain ⟨back, undone, restored, platform⟩ := State.reroll_of_unify unified
    have taken : s.nextVar ≤ back.nextVar := by
      have grown := (Scope.before_freeze .empty fact [] s'.platform.supply).vars
      rw [show back.nextVar = (factTry s' fact).2.nextVar by rw [State.nextVar, platform]; rfl]
      exact Nat.le_trans later grown
    obtain ⟨states, t, solves, kept, counted⟩ :=
      ih (drop_succ_of_cons dropped) others (restored.trans same) taken
    cases ok with
    | true =>
      refine ⟨s'' :: states, t, .solution (fact_found dropped unified) ?_, kept, ?_⟩
      · exact .of_mimics (recalling_undoes undone) solves
      · simp [← matched, counted]
    | false =>
      refine ⟨states, t, .of_mimics (fact_missed dropped unified undone) solves, kept, ?_⟩
      simp [← matched, counted]

/-- The query of the beliefs has as many solutions as there are facts to count. -/
theorem beliefs_solve (grouped : (s.scope.walk goal).group? = some group)
    (apart : ∀ fact ∈ ctx.mind.beliefs.lookup group, ∀ v ∈ fact.vars,
      v ∉ (s.scope.resolve goal).vars) :
    ∃ states t, (ofBeliefs goal).Solves ctx s states t ∧ t.bindings = s.bindings ∧
      states.length =
        (Library.matching ctx.mind.beliefs (s.scope.resolve goal) group).length := by
  have looked : Search.groupOf s.scope goal = .ok group := by
    unfold Search.groupOf
    cases ended : s.scope.walk goal with
    | lit f args annots =>
      rw [ended] at grouped
      dsimp only
      rw [grouped]
    | _ => simp [ended, Term.group?] at grouped
  obtain ⟨states, t, solves, kept, counted⟩ :=
    facts_solve unruled acyclic issued (i := 0) rfl apart rfl (Nat.le_refl _)
  exact ⟨states, t, .of_mimics (recalling_starts looked) solves, kept, counted⟩

end Facts

/-- The count decides at once to unify its second argument with the number of matching facts. -/
theorem count_decides (total : Term) (view : View) (acyclic : view.scope.Acyclic)
    (grouped : (view.scope.walk goal).group? = some group) :
    ∃ decide, Library.count [goal, total] = .once decide ∧ decide view = .ok (.unify [(total,
      .int (Int64.ofNat
        (Library.matching view.mind.beliefs (view.scope.resolve goal) group).length))]) := by
  refine ⟨_, rfl, ?_⟩
  have value := Scope.resolve_eq acyclic goal
  cases ended : view.scope.walk goal with
  | lit f args annots =>
    rw [ended] at value grouped
    obtain rfl := Option.some.inj grouped
    simp [value, Term.group?]
  | _ => simp [ended, Term.group?] at grouped

/-- The count of a pattern is the number of solutions of the query of the beliefs for it, provided
that no fact of the group shares a variable with the value of the pattern: the facts that are counted
are not renamed apart. Neither leaves a binding behind, but for those of unifying the total. -/
theorem count_agrees {call total : Term} {annots : List Term} (acyclic : s.scope.Acyclic)
    (issued : Issued goal s) (called : s.scope.walk call = .lit ".count" [goal, total] annots)
    (known : ctx.actions.lookup ".count" 2 = Library.standard.lookup ".count" 2)
    (grouped : (s.scope.walk goal).group? = some group)
    (unruled : ctx.mind.beliefs.rules group = [])
    (apart : ∀ fact ∈ ctx.mind.beliefs.lookup group, ∀ v ∈ fact.vars,
      v ∉ (s.scope.resolve goal).vars) :
    ∃ limit states next t,
      (ofBeliefs goal).survey ctx limit note limit 0 [] s =
        some ⟨.ok states.length, states, next, t⟩ ∧ t.bindings = s.bindings ∧
      ∃ first, (Query.new call).Resumes ctx s first ∧
        UnifiesOnce ctx s total (.int (Int64.ofNat states.length)) first := by
  obtain ⟨states, t, solves, kept, counted⟩ := beliefs_solve unruled acyclic issued grouped apart
  obtain ⟨limit, surveyed⟩ := solves.survey
  obtain ⟨next, found⟩ := surveyed 0 []
  rw [Nat.zero_add, List.nil_append] at found
  refine ⟨limit, states, next, t, found, kept, ?_⟩
  have registered : ctx.actions.lookup ".count" [goal, total].length =
      some (.generator Library.count) := known
  refine UnifiesOnce.of_mimics (mimics_call called (by decide) registered) ?_
  obtain ⟨decide, planned, decided⟩ :=
    count_decides total (Search.look ctx s.mark.2).1 acyclic grouped
  rw [show Action.plan ".count" [goal, total] (.generator Library.count) = .once decide from planned]
  refine once_unifiesOnce ?_
  rw [counted]
  exact decided

/-- Facts with variables, which are others than those of the pattern. -/
def openFacts : Context where
  actions := Library.standard
  mind := { id := ⟨1⟩, name := "a", beliefs := { facts := [(⟨"foo", 2⟩,
    [.lit "foo" [.var ⟨1⟩, .atom "a"] [], .lit "foo" [.atom "c", .var ⟨2⟩] []])] } }

theorem count_agrees_open_facts :
    ∃ limit states next t,
      (ofBeliefs (.lit "foo" [.var ⟨9⟩, .var ⟨3⟩] [])).survey openFacts limit note limit 0 []
        .sample = some ⟨.ok states.length, states, next, t⟩ ∧
      t.bindings = State.sample.bindings ∧
      ∃ first, (Query.new (.lit ".count" [.lit "foo" [.var ⟨9⟩, .var ⟨3⟩] [], .var ⟨4⟩] [])).Resumes
          openFacts .sample first ∧
        UnifiesOnce openFacts .sample (.var ⟨4⟩) (.int (Int64.ofNat states.length)) first := by
  have acyclic : State.sample.scope.Acyclic :=
    Scope.bind_acyclic Scope.empty_acyclic rfl fun _ member => absurd member List.not_mem_nil
  refine count_agrees acyclic ⟨?_, ?_⟩ rfl rfl rfl rfl ?_
  · decide
  · decide
  · decide

/-- A fact that shares a variable with the pattern has a renamed copy that is a solution, and does
not match as it is. -/
theorem count_misses_shared_variable :
    let goal : Term := .lit "foo" [.atom "b", .var ⟨1⟩] []
    ∃ states next t first,
      (ofBeliefs goal).survey openFacts 4 note 4 0 [] .sample = some ⟨.ok 1, states, next, t⟩ ∧
      (Query.new (.lit ".count" [goal, .var ⟨4⟩] [])).Resumes openFacts .sample first ∧
        first.result = .ok .solution ∧ first.state.scope.walk (.var ⟨4⟩) = .int 0 :=
  ⟨_, _, _, _, rfl, ⟨4, rfl⟩, rfl, rfl⟩

end Query

end Deliberation
