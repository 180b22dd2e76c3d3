import Deliberation.Proofs.Courses
import Deliberation.Proofs.Descent
import Deliberation.Proofs.Likeness
import Deliberation.Proofs.PairedStates
import Mathlib.Data.List.Nodup
import Mathlib.Data.Set.Basic

/-! Which variables there can be. Reading through a scope and unifying bring in no variables of
their own: what they give is over every set that the scope and the terms are over. A snapshot has
fresh variables only, and so has a copy of a clause, which is the clause under an injective
renaming. -/
namespace Deliberation

variable {A A' : Set Var}

/-- All variables of the term are in the set. -/
def Term.Over (A : Set Var) (t : Term) : Prop := ∀ v ∈ t.vars, v ∈ A

/-- The variables that are bound and those in bound terms. -/
def Scope.vars (s : Scope) : List Var := s.bindings.flatMap fun entry => entry.1 :: entry.2.vars

def Scope.Over (A : Set Var) (s : Scope) : Prop := ∀ v ∈ s.vars, v ∈ A

namespace Term

theorem Over.mono {t : Term} (owned : t.Over A) (more : A ⊆ A') : t.Over A' :=
  fun v member => more (owned v member)

@[simp] theorem over_var_iff {v : Var} : (var v).Over A ↔ v ∈ A := by simp [Over]

theorem over_of_closed {t : Term} (closed : t.vars = []) : t.Over A := by simp [Over, closed]

@[simp] theorem over_num (n : Number) : (num n).Over A := over_of_closed rfl

theorem over_seq_iff {items : List Term} : (seq items).Over A ↔ ∀ t ∈ items, t.Over A := by
  simp only [Over, vars_seq, List.mem_flatMap]
  constructor
  · exact fun all t member v inside => all v ⟨t, member, inside⟩
  · rintro each v ⟨t, member, inside⟩
    exact each t member v inside

theorem Over.part {t part : Term} (owned : t.Over A) (inside : part ∈ t.parts) : part.Over A :=
  fun v member => owned v (vars_of_part inside member)

theorem Over.arg {functor : String} {args annots : List Term}
    (owned : (lit functor args annots).Over A) {t : Term} (member : t ∈ args) : t.Over A :=
  owned.part (List.mem_append_left _ member)

end Term

theorem Pairing.nothing_unique : Relator.BiUnique fun _ _ : Choicepoint => False :=
  ⟨fun _ _ _ no => no.elim, fun _ _ _ no => no.elim⟩

/-- Every variable of a set stands for itself. -/
def Pairing.among (A : Set Var) : Pairing where
  literals _ _ := True
  vars v w := v = w ∧ v ∈ A
  marks _ _ := False
  vars_unique := ⟨fun _ _ _ one two => one.1.trans two.1.symm, fun _ _ _ one two =>
    one.1.symm.trans two.1⟩
  marks_unique := nothing_unique

/-- A term over a set is one that stands for itself. What is known of two lines of reasoning side by
side is used for a single one in this way. -/
theorem Term.paired_among_iff {t : Term} : t.Paired (.among A) t ↔ t.Over A := by
  constructor
  · exact fun paired v member => (List.forall₂_same.mp paired.vars v member).2
  · intro owned
    induction t using partsInduction with
    | var v => exact .var ⟨rfl, owned v (by simp)⟩
    | num n => exact .num n
    | str s => exact .str s
    | seq items ih =>
      exact .seq (List.forall₂_same.mpr fun t member => ih t member (owned.part member))
    | lit functor args annots ihArgs ihAnnots =>
      refine .lit trivial (List.forall₂_same.mpr fun t member => ?_)
        (List.forall₂_same.mpr fun t member => ?_)
      · exact ihArgs t member (owned.part (List.mem_append_left _ member))
      · exact ihAnnots t member (owned.part (List.mem_append_right _ member))

namespace Scope

variable {s : Scope}

theorem over_iff : s.Over A ↔ ∀ entry ∈ s.bindings, entry.1 ∈ A ∧ entry.2.Over A := by
  simp only [Over, vars, List.mem_flatMap, List.mem_cons]
  constructor
  · intro all entry member
    exact ⟨all _ ⟨entry, member, .inl rfl⟩, fun v inside => all v ⟨entry, member, .inr inside⟩⟩
  · rintro each v ⟨entry, member, rfl | inside⟩
    · exact (each entry member).1
    · exact (each entry member).2 v inside

theorem paired_among_iff : s.Paired (.among A) s ↔ s.Over A := by
  have entries (v : Var) : (Pairing.among A).vars v v ↔ v ∈ A := by simp [Pairing.among]
  rw [over_iff, Paired, List.forall₂_same]
  simp only [Term.paired_among_iff, entries]

theorem Over.mono (owned : s.Over A) (more : A ⊆ A') : s.Over A' :=
  fun v member => more (owned v member)

theorem over_empty : empty.Over A := by simp [Over, vars, empty]

theorem Over.walk (owned : s.Over A) {t : Term} (inside : t.Over A) : (s.walk t).Over A := by
  rw [← Term.paired_among_iff] at inside ⊢
  exact (paired_among_iff.mpr owned).walk inside

theorem Over.resolve (owned : s.Over A) {t : Term} (inside : t.Over A) : (s.resolve t).Over A := by
  rw [← Term.paired_among_iff] at inside ⊢
  exact (paired_among_iff.mpr owned).resolve inside

theorem Over.unbound (owned : s.Over A) {v : Var} (other : v ∉ A) : s.get? v = none := by
  cases found : s.get? v with
  | none => rfl
  | some value => exact absurd (over_iff.mp owned _ (find?_mem found)).1 other

theorem Over.elements (owned : s.Over A) {t : Term} (inside : t.Over A) {items : List Term}
    (found : s.elements t = .ok items) : ∀ item ∈ items, item.Over A := by
  have agree := (paired_among_iff.mpr owned).elements (Term.paired_among_iff.mpr inside)
  rw [found] at agree
  cases agree with
  | ok related =>
    exact fun item member => Term.paired_among_iff.mp (List.forall₂_same.mp related item member)

/-- Undoing brings nothing in. -/
theorem Over.undo (owned : s.Over A) (records : Trail) : (Bindings.undo s records).Over A := by
  induction records generalizing s with
  | nil => exact owned
  | cons entry rest ih =>
    cases entry with
    | mark c => exact ih owned
    | binding v =>
      apply ih
      rw [over_iff] at owned ⊢
      exact fun entry member => owned entry (List.mem_of_mem_eraseP member)

end Scope

namespace Bindings

/-- A unification can be followed without the trail. -/
theorem paired_among {scope : Scope} (owned : scope.Over A) :
    Bindings.Paired (.among A) ⟨scope, []⟩ ⟨scope, []⟩ :=
  ⟨Scope.paired_among_iff.mpr owned, .nil⟩

theorem unify_over {b : Bindings} (owned : b.scope.Over A) {left right : Term} (first : left.Over A)
    (second : right.Over A) : (b.unify left right).2.scope.Over A := by
  have seen : (b.unify left right).2.scope = (Bindings.unify left right ⟨b.scope, []⟩).2.scope :=
    congrArg Prod.snd (unify_seen left right (show b.scope = Bindings.scope ⟨b.scope, []⟩ from rfl))
  rw [← Term.paired_among_iff] at first second
  rw [seen, ← Scope.paired_among_iff]
  exact ((paired_among owned).unify first second).2.scope

theorem unifyEach_over {b : Bindings} (owned : b.scope.Over A) {pairs : List (Term × Term)}
    (each : ∀ pair ∈ pairs, pair.1.Over A ∧ pair.2.Over A) :
    (b.unifyEach pairs).2.scope.Over A := by
  have seen : (b.unifyEach pairs).2.scope = (unifyEach pairs ⟨b.scope, []⟩).2.scope :=
    congrArg Prod.snd (unifyEach_seen pairs (show b.scope = Bindings.scope ⟨b.scope, []⟩ from rfl))
  simp only [← Term.paired_among_iff] at each
  rw [seen, ← Scope.paired_among_iff]
  exact ((paired_among owned).unifyEach (List.forall₂_same.mpr each)).2.scope

end Bindings

/-- The variables with numbers from one up to but not including another. -/
def Var.between (low high : Nat) : Set Var := {v | low ≤ v.id ∧ v.id < high}

theorem Var.between_mono {low low' high high' : Nat} (below : low' ≤ low) (above : high ≤ high') :
    between low high ⊆ between low' high' :=
  fun _ inside => ⟨Nat.le_trans below inside.1, Nat.lt_of_lt_of_le inside.2 above⟩

namespace Renaming

/-- All replacements are in the set. -/
def Over (A : Set Var) (names : Renaming) : Prop := ∀ pair ∈ names, pair.2 ∈ A

/-- No replacement is used twice, and all were handed out before a number. -/
structure Distinct (names : Renaming) (next : Nat) : Prop where
  nodup : (names.map (·.2)).Nodup
  below : names.Over (Var.between 0 next)

variable {names : Renaming} {supply : Supply}

theorem mem_of_lookup {v w : Var} (found : names.lookup v = some w) : (v, w) ∈ names := by
  obtain ⟨before, after, split, -⟩ := List.lookup_eq_some_iff.mp found
  simp [split]

theorem Over.cover (owned : names.Over A) (v : Var)
    (fresh : Var.between supply.nextVar (Renaming.cover (names, supply) v).2.nextVar ⊆ A) :
    (Renaming.cover (names, supply) v).1.Over A := by
  cases known : names.lookup v with
  | some w =>
    simp only [Renaming.cover, known]
    exact owned
  | none =>
    simp only [Renaming.cover, known] at fresh ⊢
    intro pair member
    rcases List.mem_append.mp member with old | new
    · exact owned pair old
    · obtain rfl := List.mem_singleton.mp new
      exact fresh ⟨Nat.le_refl _, Nat.lt_succ_self _⟩

/-- Every replacement that is added is a fresh variable. -/
theorem Over.covers (owned : names.Over A) (vars : List Var)
    (fresh : Var.between supply.nextVar (vars.foldl Renaming.cover (names, supply)).2.nextVar ⊆ A) :
    (vars.foldl Renaming.cover (names, supply)).1.Over A := by
  induction vars generalizing names supply with
  | nil => exact owned
  | cons v rest ih =>
    have first := (before_cover (names, supply) v).vars
    have later := (before_covers rest (Renaming.cover (names, supply) v)).vars
    refine ih (owned.cover v fun w inside => ?_) fun w inside => ?_
    · exact fresh (Var.between_mono (Nat.le_refl _) later inside)
    · exact fresh (Var.between_mono first (Nat.le_refl _) inside)

theorem Distinct.cover (distinct : names.Distinct supply.nextVar) (v : Var) :
    (Renaming.cover (names, supply) v).1.Distinct (Renaming.cover (names, supply) v).2.nextVar := by
  have later := (before_cover (names, supply) v).vars
  refine ⟨?_, Over.cover (fun pair member => ?_) v
    (Var.between_mono (Nat.zero_le _) (Nat.le_refl _))⟩
  · cases known : names.lookup v with
    | some w =>
      simp only [Renaming.cover, known]
      exact distinct.nodup
    | none =>
      simp only [Renaming.cover, known, List.map_append, List.map_singleton]
      refine List.nodup_append.mpr ⟨distinct.nodup, List.pairwise_singleton _ _, ?_⟩
      intro old member new isNew same
      obtain ⟨pair, inside, rfl⟩ := List.mem_map.mp member
      rw [List.mem_singleton.mp isNew] at same
      have less := (distinct.below pair inside).2
      rw [same] at less
      exact Nat.lt_irrefl _ less
  · exact Var.between_mono (Nat.le_refl _) later (distinct.below pair member)

theorem Distinct.covers (distinct : names.Distinct supply.nextVar) (vars : List Var) :
    (vars.foldl Renaming.cover (names, supply)).1.Distinct
      (vars.foldl Renaming.cover (names, supply)).2.nextVar := by
  induction vars generalizing names supply with
  | nil => exact distinct
  | cons v rest ih => exact ih (distinct.cover v)

theorem Distinct.injective {next : Nat} (distinct : names.Distinct next) {v w u : Var}
    (one : names.lookup v = some u) (two : names.lookup w = some u) : v = w := by
  have first : (v, u) ∈ names := mem_of_lookup one
  have second : (w, u) ∈ names := mem_of_lookup two
  exact congrArg Prod.fst (List.inj_on_of_nodup_map distinct.nodup first second rfl)

end Renaming

theorem Term.renamed_over {t : Term} {names : Renaming}
    (known : ∀ v ∈ t.vars, ∃ w ∈ A, names.lookup v = some w) : (t.renamed names).Over A := by
  intro w member
  rw [renamed, vars_subst] at member
  obtain ⟨v, inside, same⟩ := List.mem_flatMap.mp member
  obtain ⟨u, good, found⟩ := known v inside
  rw [found, Option.getD_some, vars_var, List.mem_singleton] at same
  exact same ▸ good

/-- A snapshot has replacements for variables, and nothing else. -/
theorem Scope.freeze_over (s : Scope) (t : Term) (names : Renaming) (supply : Supply)
    (known : names.Over A)
    (fresh : Var.between supply.nextVar (s.freeze t names supply).2.2.nextVar ⊆ A) :
    (s.freeze t names supply).1.Over A ∧ (s.freeze t names supply).2.1.Over A := by
  have covered : (s.freeze t names supply).2.1.Over A := known.covers _ fresh
  refine ⟨Term.renamed_over fun v member => ?_, covered⟩
  obtain ⟨w, found⟩ := Renaming.covers_known (s.resolve t).vars names supply v member
  exact ⟨w, covered _ (Renaming.mem_of_lookup found), found⟩

/-- A term of unbound variables stands for itself. -/
theorem Scope.resolve_of_free {s : Scope} {t : Term} (free : ∀ v ∈ t.vars, s.get? v = none) :
    s.resolve t = t := by
  rw [resolve, resolveWithin]
  refine (Term.subst_congr t fun v member => ?_).trans t.subst_var
  rw [walk_of_unbound (free v member)]

theorem Scope.resolve_empty (t : Term) : empty.resolve t = t := resolve_of_free fun _ _ => rfl

/-- A scope says nothing about variables that were taken later. -/
theorem Scope.Over.resolve_of_later {s : Scope} {first next : Nat}
    (owned : s.Over (Var.between 0 first)) {t : Term} (later : t.Over (Var.between first next)) :
    s.resolve t = t :=
  resolve_of_free fun v member =>
    owned.unbound fun old => Nat.not_lt.mpr (later v member).1 old.2

theorem Term.renameApart_eq (t : Term) (names : Renaming) (supply : Supply) :
    t.renameApart names supply =
      (t.renamed (t.vars.foldl Renaming.cover (names, supply)).1,
        (t.vars.foldl Renaming.cover (names, supply)).1,
        (t.vars.foldl Renaming.cover (names, supply)).2) := by
  rw [renameApart, Scope.freeze, Scope.resolve_empty]

namespace Clause

def renamed (names : Renaming) : Clause → Clause
  | fact t => .fact (t.renamed names)
  | rule r => .rule ⟨r.head.renamed names, r.body.renamed names⟩

/-- The same clause with variables of a set in place of its own, a different one for each. -/
def Variant (A : Set Var) (stored copy : Clause) : Prop :=
  ∃ names : Renaming, copy = stored.renamed names ∧
    (∀ v ∈ stored.vars, ∃ w ∈ A, names.lookup v = some w) ∧
    ∀ v w u, names.lookup v = some u → names.lookup w = some u → v = w

theorem Variant.over {stored copy : Clause} (variant : stored.Variant A copy) :
    ∀ v ∈ copy.vars, v ∈ A := by
  obtain ⟨names, rfl, each, -⟩ := variant
  cases stored with
  | fact t => exact Term.renamed_over each
  | rule r =>
    simp only [Clause.vars, List.mem_append] at each
    intro v member
    rcases List.mem_append.mp member with head | body
    · exact Term.renamed_over (fun w inside => each w (.inl inside)) v head
    · exact Term.renamed_over (fun w inside => each w (.inr inside)) v body

/-- Covering the variables of a clause gives a renaming apart of it. -/
theorem variant_of_covers (stored : Clause) (supply : Supply) :
    stored.Variant
      (Var.between supply.nextVar (stored.vars.foldl Renaming.cover ([], supply)).2.nextVar)
      (stored.renamed (stored.vars.foldl Renaming.cover ([], supply)).1) := by
  have unnamed {B : Set Var} : Renaming.Over B [] := by simp [Renaming.Over]
  have distinct : Renaming.Distinct [] supply.nextVar := ⟨List.nodup_nil, unnamed⟩
  refine ⟨_, rfl, fun v member => ?_, fun v w u => (distinct.covers stored.vars).injective⟩
  obtain ⟨w, found⟩ := Renaming.covers_known stored.vars [] supply v member
  exact ⟨w, unnamed.covers stored.vars (fun _ => id) _ (Renaming.mem_of_lookup found), found⟩

end Clause

namespace State

/-- The number of the next variable. -/
def nextVar (s : State) : Nat := s.platform.supply.nextVar

open Query (factTry ruleTry)

theorem factTry_variant (s : State) (fact : Term) :
    (Clause.fact fact).Variant (Var.between s.nextVar (factTry s fact).2.nextVar)
      (.fact (factTry s fact).1) := by
  simp only [factTry, Term.renameApart_eq]
  exact Clause.variant_of_covers (.fact fact) s.platform.supply

/-- Head and body share their fresh variables. -/
theorem ruleTry_variant (s : State) (rule : Rule) :
    (Clause.rule rule).Variant (Var.between s.nextVar (ruleTry s rule).2.2.nextVar)
      (.rule ⟨(ruleTry s rule).1, (ruleTry s rule).2.1⟩) := by
  have variant := Clause.variant_of_covers (.rule rule) s.platform.supply
  obtain ⟨added, extended⟩ := Renaming.covers_extends rule.body.vars
    (rule.head.vars.foldl Renaming.cover ([], s.platform.supply)).1
    (rule.head.vars.foldl Renaming.cover ([], s.platform.supply)).2
  have head := Term.renamed_of_extends added rule.head
    (Renaming.covers_known rule.head.vars [] s.platform.supply)
  simp only [ruleTry, Term.renameApart_eq]
  simp only [Clause.vars, List.foldl_append, Clause.renamed] at variant
  rw [← extended] at head
  rwa [head] at variant

/-- The variables that are known, and those taken since a number was the next. -/
def own (known : Set Var) (first : Nat) (s : State) : Set Var := known ∪ Var.between first s.nextVar

/-- The scope has no other variables than these. -/
structure Owns (known : Set Var) (first : Nat) (s : State) : Prop where
  started : first ≤ s.nextVar
  scope : s.scope.Over (s.own known first)

variable {known : Set Var} {first : Nat} {s s' : State}

theorem own_mono (grown : s.nextVar ≤ s'.nextVar) : s.own known first ⊆ s'.own known first :=
  Set.union_subset_union_right known (Var.between_mono (Nat.le_refl _) grown)

/-- What is taken on the way is owned. -/
theorem Owns.fresh (owns : s.Owns known first) :
    Var.between s.nextVar s'.nextVar ⊆ s'.own known first :=
  (Var.between_mono owns.started (Nat.le_refl _)).trans Set.subset_union_right

theorem Owns.later (owns : s.Owns known first) (same : s'.scope = s.scope)
    (grown : s.nextVar ≤ s'.nextVar) : s'.Owns known first :=
  ⟨Nat.le_trans owns.started grown, same ▸ owns.scope.mono (own_mono grown)⟩

theorem Owns.unify (owns : s.Owns known first) {left right : Term}
    (lefts : left.Over (s.own known first)) (rights : right.Over (s.own known first)) :
    (s.unify left right).2.Owns known first :=
  ⟨owns.started, Bindings.unify_over owns.scope lefts rights⟩

theorem Owns.unifyEach (owns : s.Owns known first) {pairs : List (Term × Term)}
    (each : ∀ pair ∈ pairs, pair.1.Over (s.own known first) ∧ pair.2.Over (s.own known first)) :
    (s.unifyEach pairs).2.Owns known first :=
  ⟨owns.started, Bindings.unifyEach_over owns.scope each⟩

theorem Owns.reroll (owns : s.Owns known first) {c : Choicepoint} (rerolled : s.reroll c = .ok s') :
    s'.Owns known first := by
  obtain ⟨above, below, -, -, rfl⟩ := reroll_eq_ok_iff.mp rerolled
  exact ⟨owns.started, owns.scope.undo above⟩

end State

/-- The variables that a goal and the scope may mention have been handed out. -/
structure Query.Issued (goal : Term) (s : State) : Prop where
  goal : ∀ v ∈ goal.vars, v.id < s.nextVar
  scope : ∀ v ∈ s.scope.vars, v.id < s.nextVar

theorem Query.Issued.goal_over {goal : Term} {s : State} (issued : Issued goal s) :
    goal.Over (Var.between 0 s.nextVar) :=
  fun v member => ⟨Nat.zero_le _, issued.goal v member⟩

theorem Query.Issued.scope_over {goal : Term} {s : State} (issued : Issued goal s) :
    s.scope.Over (Var.between 0 s.nextVar) :=
  fun v member => ⟨Nat.zero_le _, issued.scope v member⟩

end Deliberation
