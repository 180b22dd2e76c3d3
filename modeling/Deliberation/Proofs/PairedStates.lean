import Deliberation.Proofs.Pairing
import Deliberation.Proofs.ResumptionFrame
import Deliberation.Proofs.ResumptionRules

/-! States and queries side by side. Where both sides take a fresh number the pairing is extended by
the two; everything else that is done to a state keeps the pairing as it is. -/
namespace Deliberation

variable {P P' : Pairing}

namespace Pairing

/-- The second pairing knows all pairs of the first, and the same choicepoints. -/
structure ExtendsVars (P P' : Pairing) : Prop extends P.Extends P' where
  sameMarks : P'.marks = P.marks

theorem ExtendsVars.refl (P : Pairing) : P.ExtendsVars P := ⟨.refl P, rfl⟩

theorem ExtendsVars.trans {P P' P'' : Pairing} (first : P.ExtendsVars P')
    (second : P'.ExtendsVars P'') : P.ExtendsVars P'' :=
  ⟨first.toExtends.trans second.toExtends, second.sameMarks.trans first.sameMarks⟩

/-- Only numbers that are handed out are paired. -/
structure Fits (P : Pairing) (s s' : Supply) : Prop where
  vars : ∀ {v w}, P.vars v w → v.id < s.nextVar ∧ w.id < s'.nextVar
  marks : ∀ {c d}, P.marks c d → c.id < s.nextChoicepoint ∧ d.id < s'.nextChoicepoint

theorem Fits.grow {s s' t t' : Supply} (fits : P.Fits s s') (grown : s.Before t)
    (grown' : s'.Before t') : P.Fits t t' := by
  constructor
  · intro v w same
    have := fits.vars same
    have := grown.vars
    have := grown'.vars
    omega
  · intro c d same
    have := fits.marks same
    have := grown.choicepoints
    have := grown'.choicepoints
    omega

/-- One more pair of which neither side is paired yet. -/
theorem biUnique_insert {α β : Type} {R : α → β → Prop} (unique : Relator.BiUnique R) {a : α} {b : β}
    (left : ∀ b, ¬ R a b) (right : ∀ a, ¬ R a b) :
    Relator.BiUnique fun x y => R x y ∨ x = a ∧ y = b := by
  constructor
  · rintro x y z (one | ⟨rfl, rfl⟩) (two | ⟨rfl, same⟩)
    · exact unique.1 one two
    · exact absurd (same ▸ one) (right x)
    · exact absurd two (right y)
    · rfl
  · rintro x y z (one | ⟨rfl, rfl⟩) (two | ⟨same, rfl⟩)
    · exact unique.2 one two
    · exact absurd (same ▸ one) (left y)
    · exact absurd two (left z)
    · rfl

variable {s s' : Supply}

theorem Fits.freshVar (fits : P.Fits s s') :
    ∃ P', P.ExtendsVars P' ∧ P'.vars s.freshVar.1 s'.freshVar.1 ∧
      P'.Fits s.freshVar.2 s'.freshVar.2 := by
  have left (w : Var) : ¬ P.vars ⟨s.nextVar⟩ w := fun same => Nat.lt_irrefl _ (fits.vars same).1
  have right (v : Var) : ¬ P.vars v ⟨s'.nextVar⟩ := fun same => Nat.lt_irrefl _ (fits.vars same).2
  refine ⟨{ P with
    vars := fun v w => P.vars v w ∨ v = ⟨s.nextVar⟩ ∧ w = ⟨s'.nextVar⟩
    vars_unique := biUnique_insert P.vars_unique left right }, ⟨⟨rfl, .inl, id⟩, rfl⟩,
    .inr ⟨rfl, rfl⟩, ?_⟩
  constructor
  · rintro v w (old | ⟨rfl, rfl⟩)
    · have := fits.vars old
      simp only [Supply.freshVar]
      omega
    · exact ⟨Nat.lt_succ_self _, Nat.lt_succ_self _⟩
  · exact fun same => fits.marks same

theorem Fits.freshChoicepoint (fits : P.Fits s s') :
    ∃ P', P.Extends P' ∧ P'.marks s.freshChoicepoint.1 s'.freshChoicepoint.1 ∧
      P'.Fits s.freshChoicepoint.2 s'.freshChoicepoint.2 ∧
      ∀ c d, P'.marks c d → P.marks c d ∨ c = s.freshChoicepoint.1 := by
  have left (d : Choicepoint) : ¬ P.marks ⟨s.nextChoicepoint⟩ d :=
    fun same => Nat.lt_irrefl _ (fits.marks same).1
  have right (c : Choicepoint) : ¬ P.marks c ⟨s'.nextChoicepoint⟩ :=
    fun same => Nat.lt_irrefl _ (fits.marks same).2
  refine ⟨{ P with
    marks := fun c d => P.marks c d ∨ c = ⟨s.nextChoicepoint⟩ ∧ d = ⟨s'.nextChoicepoint⟩
    marks_unique := biUnique_insert P.marks_unique left right }, ⟨rfl, id, .inl⟩, .inr ⟨rfl, rfl⟩,
    ⟨fun same => fits.vars same, ?_⟩, fun c d => Or.imp_right And.left⟩
  rintro c d (old | ⟨rfl, rfl⟩)
  · have := fits.marks old
    simp only [Supply.freshChoicepoint]
    omega
  · exact ⟨Nat.lt_succ_self _, Nat.lt_succ_self _⟩

end Pairing

namespace Renaming

def Paired (P : Pairing) (names names' : Renaming) : Prop :=
  List.Forall₂ (fun entry entry' => P.vars entry.1 entry'.1 ∧ P.vars entry.2 entry'.2) names names'

variable {names names' : Renaming} {supply supply' : Supply} {v w : Var}

theorem Paired.mono (more : P.Extends P') (paired : names.Paired P names') :
    names.Paired P' names' :=
  paired.imp fun _ _ entry => ⟨more.vars entry.1, more.vars entry.2⟩

theorem Paired.lookup (paired : names.Paired P names') (same : P.vars v w) :
    Option.Rel P.vars (names.lookup v) (names'.lookup w) := by
  induction paired with
  | nil => exact .none
  | @cons entry entry' _ _ here _ ih =>
    obtain ⟨a, b⟩ := entry
    obtain ⟨a', b'⟩ := entry'
    rw [List.lookup_cons, List.lookup_cons]
    by_cases hit : v = a
    · have hit' : w = a' := (P.eq_iff same here.1).mp hit
      simp only [beq_iff_eq.mpr hit, beq_iff_eq.mpr hit']
      exact .some here.2
    · have miss : w ≠ a' := fun hit' => hit ((P.eq_iff same here.1).mpr hit')
      simp only [beq_eq_false_iff_ne.mpr hit, beq_eq_false_iff_ne.mpr miss]
      exact ih

theorem Paired.cover (paired : names.Paired P names') (fits : P.Fits supply supply')
    (same : P.vars v w) :
    ∃ P', P.ExtendsVars P' ∧
      (cover (names, supply) v).1.Paired P' (cover (names', supply') w).1 ∧
      P'.Fits (cover (names, supply) v).2 (cover (names', supply') w).2 := by
  have known := paired.lookup same
  unfold Renaming.cover
  dsimp only
  generalize names.lookup v = found at known
  generalize names'.lookup w = found' at known
  cases known with
  | some _ => exact ⟨P, .refl P, paired, fits⟩
  | none =>
    obtain ⟨P', more, fresh, fits'⟩ := fits.freshVar
    refine ⟨P', more, ?_, fits'⟩
    exact List.rel_append (paired.mono more.toExtends) (.cons ⟨more.vars same, fresh⟩ .nil)

theorem Paired.covers (paired : names.Paired P names') (fits : P.Fits supply supply')
    {vs ws : List Var} (same : List.Forall₂ P.vars vs ws) :
    ∃ P', P.ExtendsVars P' ∧
      (vs.foldl Renaming.cover (names, supply)).1.Paired P'
        (ws.foldl Renaming.cover (names', supply')).1 ∧
      P'.Fits (vs.foldl Renaming.cover (names, supply)).2
        (ws.foldl Renaming.cover (names', supply')).2 := by
  induction vs generalizing P names names' supply supply' ws with
  | nil =>
    cases same
    exact ⟨P, .refl P, paired, fits⟩
  | cons v vs ih =>
    cases same with
    | cons here rest =>
      obtain ⟨P', more, covered, fits'⟩ := paired.cover fits here
      obtain ⟨P'', more', all, fits''⟩ := ih covered fits' (rest.imp fun _ _ same => more.vars same)
      exact ⟨P'', more.trans more', all, fits''⟩

theorem Paired.renamed (paired : names.Paired P names') {t t' : Term} (terms : t.Paired P t') :
    (t.renamed names).Paired P (t'.renamed names') := by
  refine terms.subst fun v w same => .var ?_
  have found := paired.lookup same
  generalize names.lookup v = found at found
  generalize names'.lookup w = found' at found
  cases found with
  | none => exact same
  | some fresh => exact fresh

end Renaming

namespace Scope

variable {s s' : Scope} {names names' : Renaming} {supply supply' : Supply}

/-- Snapshots take the same number of fresh variables on both sides. -/
theorem Paired.freeze (paired : s.Paired P s') {t t' : Term} (terms : t.Paired P t')
    (known : names.Paired P names') (fits : P.Fits supply supply') :
    ∃ P', P.ExtendsVars P' ∧ (s.freeze t names supply).1.Paired P' (s'.freeze t' names' supply').1 ∧
      (s.freeze t names supply).2.1.Paired P' (s'.freeze t' names' supply').2.1 ∧
      P'.Fits (s.freeze t names supply).2.2 (s'.freeze t' names' supply').2.2 := by
  have values := paired.resolve terms
  obtain ⟨P', more, covered, fits'⟩ := known.covers fits values.vars
  exact ⟨P', more, covered.renamed (values.mono more.toExtends), covered, fits'⟩

end Scope

namespace State

structure Paired (P : Pairing) (s s' : State) : Prop where
  bindings : s.bindings.Paired P s'.bindings
  fits : P.Fits s.platform.supply s'.platform.supply

/-- The bindings are the same, and numbers may have been handed out meanwhile. -/
structure Undisturbed (s s' : State) : Prop where
  bindings : s'.bindings = s.bindings
  supply : s.platform.supply.Before s'.platform.supply

theorem Undisturbed.refl (s : State) : Undisturbed s s := ⟨rfl, .refl _⟩

theorem Undisturbed.trans {s s' s'' : State} (first : Undisturbed s s')
    (second : Undisturbed s' s'') : Undisturbed s s'' :=
  ⟨second.bindings.trans first.bindings, first.supply.trans second.supply⟩

theorem readClock_undisturbed (s : State) : Undisturbed s s.readClock.2 := ⟨rfl, .refl _⟩

variable {s s' t t' : State}

theorem Paired.later (paired : s.Paired P s') (left : Undisturbed s t) (right : Undisturbed s' t') :
    t.Paired P t' :=
  ⟨left.bindings ▸ right.bindings ▸ paired.bindings, paired.fits.grow left.supply right.supply⟩

theorem Paired.unify (paired : s.Paired P s') {left left' right right' : Term}
    (first : left.Paired P left') (second : right.Paired P right') :
    (s.unify left right).1 = (s'.unify left' right').1 ∧
      (s.unify left right).2.Paired P (s'.unify left' right').2 := by
  obtain ⟨same, bound⟩ := paired.bindings.unify first second
  exact ⟨same, bound, paired.fits⟩

theorem Paired.mark (paired : s.Paired P s') :
    ∃ P', P.Extends P' ∧ P'.marks s.mark.1 s'.mark.1 ∧ s.mark.2.Paired P' s'.mark.2 := by
  obtain ⟨P', more, fresh, fits, -⟩ := paired.fits.freshChoicepoint
  exact ⟨P', more, fresh, (paired.bindings.mono more).mark fresh, fits⟩

theorem Paired.reroll (paired : s.Paired P s') {c d : Choicepoint} (same : P.marks c d) :
    Agree (Paired P) (s.reroll c) (s'.reroll d) := by
  have undone := paired.bindings.reroll? same
  unfold State.reroll
  generalize s.bindings.reroll? c = b at undone
  generalize s'.bindings.reroll? d = b' at undone
  cases undone with
  | none => exact .error rfl
  | some bound => exact .ok ⟨bound, paired.fits⟩

theorem Paired.rerollIf (paired : s.Paired P s') {mark mark' : Option Choicepoint}
    (same : Option.Rel P.marks mark mark') : Agree (Paired P) (s.rerollIf mark) (s'.rerollIf mark') := by
  cases same with
  | none => exact .ok paired
  | some same => exact paired.reroll same

theorem Paired.freeze (paired : s.Paired P s') {names names' : Renaming}
    (known : names.Paired P names') {t t' : Term} (terms : t.Paired P t') :
    ∃ P', P.ExtendsVars P' ∧
      (s.scope.freeze t names s.platform.supply).1.Paired P'
        (s'.scope.freeze t' names' s'.platform.supply).1 ∧
      (s.scope.freeze t names s.platform.supply).2.1.Paired P'
        (s'.scope.freeze t' names' s'.platform.supply).2.1 ∧
      (s.withSupply (s.scope.freeze t names s.platform.supply).2.2).Paired P'
        (s'.withSupply (s'.scope.freeze t' names' s'.platform.supply).2.2) := by
  obtain ⟨P', more, value, names, fits⟩ := paired.bindings.scope.freeze terms known paired.fits
  exact ⟨P', more, value, names, paired.bindings.mono more.toExtends, fits⟩

open Query in
theorem Paired.factTry (paired : s.Paired P s') {fact : Term} (stored : fact.Paired P fact) :
    ∃ P', P.ExtendsVars P' ∧ (factTry s fact).1.Paired P' (factTry s' fact).1 ∧
      (factTry s fact).2.Paired P' (factTry s' fact).2 := by
  have unnamed : Renaming.Paired P [] [] := .nil
  obtain ⟨P', more, value, -, fits⟩ := (Scope.empty_paired P).freeze stored unnamed paired.fits
  exact ⟨P', more, value, paired.bindings.mono more.toExtends, fits⟩

open Query in
theorem Paired.ruleTry (paired : s.Paired P s') {rule : Rule} (head : rule.head.Paired P rule.head)
    (body : rule.body.Paired P rule.body) :
    ∃ P', P.ExtendsVars P' ∧ (ruleTry s rule).1.Paired P' (ruleTry s' rule).1 ∧
      (ruleTry s rule).2.1.Paired P' (ruleTry s' rule).2.1 ∧
      (ruleTry s rule).2.2.Paired P' (ruleTry s' rule).2.2 := by
  have unnamed : Renaming.Paired P [] [] := .nil
  obtain ⟨P₁, more, heads, names, fits⟩ := (Scope.empty_paired P).freeze head unnamed paired.fits
  obtain ⟨P₂, more', bodies, -, fits'⟩ :=
    (Scope.empty_paired P₁).freeze (body.mono more.toExtends) names fits
  exact ⟨P₂, more.trans more', heads.mono more'.toExtends, bodies,
    paired.bindings.mono (more.trans more').toExtends, fits'⟩

end State

inductive Candidates.Paired (P : Pairing) : Candidates → Candidates → Prop where
  | terms {rest rest' : List Term} (items : List.Forall₂ (Term.Paired P) rest rest') :
      Paired P (.terms rest) (.terms rest')
  | range (next stop : Int) : Paired P (.range next stop) (.range next stop)

theorem Candidates.Paired.mono (more : P.Extends P') {rest rest' : Candidates}
    (paired : rest.Paired P rest') : rest.Paired P' rest' := by
  cases paired with
  | terms items => exact .terms (items.imp fun _ _ item => item.mono more)
  | range next stop => exact .range next stop

theorem Candidates.Paired.next? {rest rest' : Candidates} (paired : rest.Paired P rest') :
    Option.Rel (fun offer offer' => offer.1.Paired P offer'.1 ∧ offer.2.Paired P offer'.2)
      rest.next? rest'.next? := by
  cases paired with
  | terms items =>
    cases items with
    | nil => exact .none
    | cons first others => exact .some ⟨first, .terms others⟩
  | range next stop =>
    simp only [Candidates.next?]
    split
    · exact .some ⟨.num _, .range _ _⟩
    · exact .none

theorem marks_mono (more : P.Extends P') {mark mark' : Option Choicepoint}
    (same : Option.Rel P.marks mark mark') : Option.Rel P'.marks mark mark' := by
  cases same with
  | none => exact .none
  | some same => exact .some (more.marks same)

-- A query keeps no plan from one resumption to the next, so no plan is paired here.
mutual
/-- The same stage of the evaluation up to numbers. The goal of a query that is begun is not looked
at any more. -/
inductive Query.Paired (P : Pairing) : Query → Query → Prop where
  | pending {goal goal' : Term} (goals : goal.Paired P goal') :
      Query.Paired P (.pending goal) (.pending goal')
  | running {goal goal' : Term} {search search' : Search} (searches : Search.Paired P search search') :
      Query.Paired P (.running goal search) (.running goal' search')
  | done {goal goal' : Term} : Query.Paired P (.done goal) (.done goal')

inductive Search.Paired (P : Pairing) : Search → Search → Prop where
  | held {c d : Choicepoint} (same : P.marks c d) : Search.Paired P (.held c) (.held d)
  | choosing {target target' : Term} {rest rest' : Candidates} {mark mark' : Option Choicepoint}
      (targets : target.Paired P target') (offers : rest.Paired P rest')
      (marks : Option.Rel P.marks mark mark') :
      Search.Paired P (.choosing target rest mark) (.choosing target' rest' mark')
  | spent : Search.Paired P .spent .spent
  | recalling {goal goal' : Term} {cursor : Cursor} {mark mark' : Option Choicepoint}
      (goals : goal.Paired P goal') (marks : Option.Rel P.marks mark mark') :
      Search.Paired P (.recalling goal cursor mark) (.recalling goal' cursor mark')
  | applying {goal goal' : Term} {cursor : Cursor} {c d : Choicepoint} {body body' : Query}
      (goals : goal.Paired P goal') (same : P.marks c d) (bodies : Query.Paired P body body') :
      Search.Paired P (.applying goal cursor c body) (.applying goal' cursor d body')
  | conj {left left' : Query} {right right' : Term} (lefts : Query.Paired P left left')
      (goals : right.Paired P right') : Search.Paired P (.conj left right) (.conj left' right')
  | conjRight {left left' right right' : Query} {goal goal' : Term}
      (lefts : Query.Paired P left left') (goals : goal.Paired P goal')
      (rights : Query.Paired P right right') :
      Search.Paired P (.conjRight left goal right) (.conjRight left' goal' right')
  | disj {left left' : Query} {right right' : Term} (lefts : Query.Paired P left left')
      (goals : right.Paired P right') : Search.Paired P (.disj left right) (.disj left' right')
  | disjRight {right right' : Query} (rights : Query.Paired P right right') :
      Search.Paired P (.disjRight right) (.disjRight right')
  | negation {inner inner' : Query} {mark mark' : Option Choicepoint}
      (inners : Query.Paired P inner inner') (marks : Option.Rel P.marks mark mark') :
      Search.Paired P (.negation inner mark) (.negation inner' mark')
end

mutual
theorem Query.Paired.mono (more : P.Extends P') {q q' : Query} :
    q.Paired P q' → q.Paired P' q'
  | .pending goals => .pending (goals.mono more)
  | .running searches => .running (searches.mono more)
  | .done => .done

theorem Search.Paired.mono (more : P.Extends P') {search search' : Search} :
    search.Paired P search' → search.Paired P' search'
  | .held same => .held (more.marks same)
  | .choosing targets offers marks =>
    .choosing (targets.mono more) (offers.mono more) (marks_mono more marks)
  | .spent => .spent
  | .recalling goals marks => .recalling (goals.mono more) (marks_mono more marks)
  | .applying goals same bodies =>
    .applying (goals.mono more) (more.marks same) (bodies.mono more)
  | .conj lefts goals => .conj (lefts.mono more) (goals.mono more)
  | .conjRight lefts goals rights =>
    .conjRight (lefts.mono more) (goals.mono more) (rights.mono more)
  | .disj lefts goals => .disj (lefts.mono more) (goals.mono more)
  | .disjRight rights => .disjRight (rights.mono more)
  | .negation inners marks => .negation (inners.mono more) (marks_mono more marks)
end

end Deliberation
