import Deliberation.Proofs.TermParts
import Deliberation.Unify
import Mathlib.Data.List.Forall2
import Mathlib.Logic.Relator

/-! Two lines of reasoning side by side. A pairing says which variables and which choicepoints of the
one stand for which of the other; both are told apart by it. Reading and unifying do not look at
numbers beyond that: on paired terms and bindings they give the same answers and paired results. -/
namespace Deliberation

/-- Which numbers correspond, and which literals there are. -/
structure Pairing where
  literals : String → Nat → Prop
  vars : Var → Var → Prop
  marks : Choicepoint → Choicepoint → Prop
  vars_unique : Relator.BiUnique vars
  marks_unique : Relator.BiUnique marks

namespace Pairing

/-- The second pairing knows all pairs of the first. -/
structure Extends (P P' : Pairing) : Prop where
  literals : P'.literals = P.literals
  vars : ∀ {v w}, P.vars v w → P'.vars v w
  marks : ∀ {c d}, P.marks c d → P'.marks c d

theorem Extends.refl (P : Pairing) : P.Extends P := ⟨rfl, id, id⟩

theorem Extends.trans {P P' P'' : Pairing} (first : P.Extends P') (second : P'.Extends P'') :
    P.Extends P'' :=
  ⟨second.literals.trans first.literals, fun same => second.vars (first.vars same),
    fun same => second.marks (first.marks same)⟩

variable {P : Pairing} {v v' w w' : Var}

theorem eq_iff (same : P.vars v w) (same' : P.vars v' w') : v = v' ↔ w = w' := by
  constructor
  · rintro rfl
    exact P.vars_unique.2 same same'
  · rintro rfl
    exact P.vars_unique.1 same same'

theorem marks_eq_iff {c c' d d' : Choicepoint} (same : P.marks c d) (same' : P.marks c' d') :
    c = c' ↔ d = d' := by
  constructor
  · rintro rfl
    exact P.marks_unique.2 same same'
  · rintro rfl
    exact P.marks_unique.1 same same'

end Pairing

/-- The same term up to the numbers of variables, with literals of the pairing only. -/
inductive Term.Paired (P : Pairing) : Term → Term → Prop where
  | var {v w : Var} (same : P.vars v w) : Paired P (.var v) (.var w)
  | num (n : Number) : Paired P (.num n) (.num n)
  | str (s : String) : Paired P (.str s) (.str s)
  | seq {xs ys : List Term} (items : List.Forall₂ (Paired P) xs ys) : Paired P (.seq xs) (.seq ys)
  | lit {f : String} {xs ys as bs : List Term} (known : P.literals f xs.length)
      (args : List.Forall₂ (Paired P) xs ys) (annots : List.Forall₂ (Paired P) as bs) :
      Paired P (.lit f xs as) (.lit f ys bs)

variable {P P' : Pairing}

/-- Pairs of elements may be treated with their membership at hand. -/
theorem forall₂_imp_of_mem {α β : Type} {R S : α → β → Prop} {xs : List α} {ys : List β}
    (related : List.Forall₂ R xs ys) (step : ∀ x ∈ xs, ∀ y, R x y → S x y) :
    List.Forall₂ S xs ys := by
  induction related with
  | nil => exact .nil
  | cons here _ ih =>
    refine .cons (step _ List.mem_cons_self _ here) (ih fun x member => ?_)
    exact step x (List.mem_cons_of_mem _ member)

theorem forall₂_flatMap {α β γ δ : Type} {R : α → β → Prop} {S : γ → δ → Prop} {xs : List α}
    {ys : List β} {f : α → List γ} {g : β → List δ} (related : List.Forall₂ R xs ys)
    (step : ∀ x ∈ xs, ∀ y, R x y → List.Forall₂ S (f x) (g y)) :
    List.Forall₂ S (xs.flatMap f) (ys.flatMap g) := by
  induction related with
  | nil => exact .nil
  | cons here _ ih =>
    rw [List.flatMap_cons, List.flatMap_cons]
    refine List.rel_append (step _ List.mem_cons_self _ here) (ih fun x member => ?_)
    exact step x (List.mem_cons_of_mem _ member)

theorem forall₂_map {α β γ δ : Type} {R : α → β → Prop} {S : γ → δ → Prop} {xs : List α}
    {ys : List β} {f : α → γ} {g : β → δ} (related : List.Forall₂ R xs ys)
    (step : ∀ x ∈ xs, ∀ y, R x y → S (f x) (g y)) :
    List.Forall₂ S (xs.map f) (ys.map g) := by
  rw [List.forall₂_map_left_iff, List.forall₂_map_right_iff]
  exact forall₂_imp_of_mem related step

namespace Term

theorem Paired.mono (more : P.Extends P') {t t' : Term} (paired : t.Paired P t') :
    t.Paired P' t' := by
  induction t using partsInduction generalizing t' with
  | var v =>
    cases paired with
    | var same => exact .var (more.vars same)
  | num n =>
    cases paired
    exact .num n
  | str s =>
    cases paired
    exact .str s
  | seq items ih =>
    cases paired with
    | seq related => exact .seq (forall₂_imp_of_mem related fun t member _ => ih t member)
  | lit functor args annots ihArgs ihAnnots =>
    cases paired with
    | lit known first second =>
      refine .lit (more.literals ▸ known) ?_ ?_
      · exact forall₂_imp_of_mem first fun t member _ => ihArgs t member
      · exact forall₂_imp_of_mem second fun t member _ => ihAnnots t member

theorem Paired.vars {t t' : Term} (paired : t.Paired P t') :
    List.Forall₂ P.vars t.vars t'.vars := by
  induction t using partsInduction generalizing t' with
  | var v =>
    cases paired with
    | var same => exact .cons same .nil
  | num n =>
    cases paired
    exact .nil
  | str s =>
    cases paired
    exact .nil
  | seq items ih =>
    cases paired with
    | seq related =>
      rw [vars_seq, vars_seq]
      exact forall₂_flatMap related fun t member _ => ih t member
  | lit functor args annots ihArgs ihAnnots =>
    cases paired with
    | lit known first second =>
      rw [vars_lit, vars_lit]
      exact List.rel_append (forall₂_flatMap first fun t member _ => ihArgs t member)
        (forall₂_flatMap second fun t member _ => ihAnnots t member)

theorem sizeOfAll_of_related {xs ys : List Term}
    (related : List.Forall₂ (fun t u => t.size = u.size) xs ys) : sizeOfAll xs = sizeOfAll ys := by
  induction related with
  | nil => rfl
  | cons here _ ih => rw [sizeOfAll, sizeOfAll, here, ih]

theorem Paired.size {t t' : Term} (paired : t.Paired P t') : t.size = t'.size := by
  induction t using partsInduction generalizing t' with
  | seq items ih =>
    cases paired with
    | seq related =>
      have same := sizeOfAll_of_related (forall₂_imp_of_mem related fun t member _ => ih t member)
      rw [Term.size, Term.size, same]
  | lit functor args annots ihArgs ihAnnots =>
    cases paired with
    | lit known first second =>
      have one := sizeOfAll_of_related (forall₂_imp_of_mem first fun t member _ => ihArgs t member)
      have two := sizeOfAll_of_related
        (forall₂_imp_of_mem second fun t member _ => ihAnnots t member)
      rw [Term.size, Term.size, one, two]
  | _ =>
    cases paired
    rfl

/-- Replacing paired variables by paired terms. -/
theorem Paired.subst {t t' : Term} (paired : t.Paired P t') {f f' : Var → Term}
    (step : ∀ v w, P.vars v w → (f v).Paired P (f' w)) : (t.subst f).Paired P (t'.subst f') := by
  induction t using partsInduction generalizing t' with
  | var v =>
    cases paired with
    | var same => exact step _ _ same
  | num n =>
    cases paired
    exact .num n
  | str s =>
    cases paired
    exact .str s
  | seq items ih =>
    cases paired with
    | seq related =>
      rw [subst_seq, subst_seq]
      exact .seq (forall₂_map related fun t member _ => ih t member)
  | lit functor args annots ihArgs ihAnnots =>
    cases paired with
    | lit known first second =>
      rw [subst_lit, subst_lit]
      refine .lit (by simpa using known) ?_ ?_
      · exact forall₂_map first fun t member _ => ihArgs t member
      · exact forall₂_map second fun t member _ => ihAnnots t member

/-- Paired terms become the same where paired variables are replaced by the same. -/
theorem Paired.subst_eq_subst {t t' : Term} (paired : t.Paired P t') {f g : Var → Term}
    (same : ∀ v w, v ∈ t.vars → P.vars v w → f v = g w) : t.subst f = t'.subst g := by
  have lists {xs ys : List Term} (related : List.Forall₂ (Term.Paired P) xs ys)
      (ih : ∀ t ∈ xs, ∀ t', t.Paired P t' → t.subst f = t'.subst g) :
      xs.map (Term.subst f) = ys.map (Term.subst g) := by
    rw [← List.forall₂_eq_eq_eq]
    exact forall₂_map related ih
  induction t using partsInduction generalizing t' with
  | var v =>
    cases paired with
    | var paired => exact same v _ (by simp) paired
  | num n =>
    cases paired
    rfl
  | str s =>
    cases paired
    rfl
  | seq items ih =>
    cases paired with
    | seq related =>
      rw [subst_seq, subst_seq, lists related]
      refine fun t member t' paired => ih t member paired fun v w inside => same v w ?_
      simpa using ⟨t, member, inside⟩
  | lit functor args annots ihArgs ihAnnots =>
    cases paired with
    | lit known first second =>
      rw [subst_lit, subst_lit, lists first, lists second]
      · refine fun t member t' paired => ihAnnots t member paired fun v w inside => same v w ?_
        simpa using .inr ⟨t, member, inside⟩
      · refine fun t member t' paired => ihArgs t member paired fun v w inside => same v w ?_
        simpa using .inl ⟨t, member, inside⟩

/-- A term without variables is paired with itself alone. -/
theorem Paired.eq_of_closed {t t' : Term} (paired : t.Paired P t') (closed : t.vars = []) :
    t = t' := by
  induction t using partsInduction generalizing t' with
  | var v => simp at closed
  | num n =>
    cases paired
    rfl
  | str s =>
    cases paired
    rfl
  | seq items ih =>
    cases paired with
    | seq related =>
      rw [vars_seq, List.flatMap_eq_nil_iff] at closed
      have same := forall₂_imp_of_mem related fun t member _ paired =>
        ih t member paired (closed t member)
      rw [List.forall₂_eq_eq_eq] at same
      rw [same]
  | lit functor args annots ihArgs ihAnnots =>
    cases paired with
    | lit known first second =>
      rw [vars_lit, List.append_eq_nil_iff, List.flatMap_eq_nil_iff,
        List.flatMap_eq_nil_iff] at closed
      have one := forall₂_imp_of_mem first fun t member _ paired =>
        ihArgs t member paired (closed.1 t member)
      have two := forall₂_imp_of_mem second fun t member _ paired =>
        ihAnnots t member paired (closed.2 t member)
      rw [List.forall₂_eq_eq_eq] at one two
      rw [one, two]

theorem Paired.group? {t t' : Term} (paired : t.Paired P t') : t.group? = t'.group? := by
  cases paired with
  | lit known args annots => rw [Term.group?, Term.group?, args.length_eq]
  | _ => rfl

end Term

namespace Scope

/-- Bindings of paired variables to paired terms, in the same order. -/
def Paired (P : Pairing) (s s' : Scope) : Prop :=
  List.Forall₂ (fun entry entry' => P.vars entry.1 entry'.1 ∧ entry.2.Paired P entry'.2)
    s.bindings s'.bindings

variable {s s' : Scope}

theorem Paired.mono (more : P.Extends P') (paired : s.Paired P s') : s.Paired P' s' :=
  paired.imp fun _ _ entry => ⟨more.vars entry.1, entry.2.mono more⟩

theorem empty_paired (P : Pairing) : empty.Paired P empty := .nil

theorem Paired.bind (paired : s.Paired P s') {v w : Var} (same : P.vars v w) {value value' : Term}
    (values : value.Paired P value') : (s.bind v value).Paired P (s'.bind w value') :=
  .cons ⟨same, values⟩ paired

theorem Paired.unbind (paired : s.Paired P s') {v w : Var} (same : P.vars v w) :
    (s.unbind v).Paired P (s'.unbind w) := by
  obtain ⟨entries⟩ := s
  obtain ⟨entries'⟩ := s'
  simp only [Paired, Scope.unbind] at paired ⊢
  induction paired with
  | nil => exact .nil
  | @cons entry entry' _ _ here rest ih =>
    by_cases hit : entry.1 = v
    · have hit' : entry'.1 = w := (P.eq_iff here.1 same).mp hit
      simpa [List.eraseP_cons, hit, hit'] using rest
    · have miss : entry'.1 ≠ w := fun hit' => hit ((P.eq_iff here.1 same).mpr hit')
      simpa [List.eraseP_cons, hit, miss] using ⟨here, ih⟩

theorem Paired.get? (paired : s.Paired P s') {v w : Var} (same : P.vars v w) :
    Option.Rel (Term.Paired P) (s.get? v) (s'.get? w) := by
  obtain ⟨entries⟩ := s
  obtain ⟨entries'⟩ := s'
  simp only [Paired, Scope.get?] at paired ⊢
  induction paired with
  | nil => exact .none
  | @cons entry entry' _ _ here rest ih =>
    simp only [find?, P.eq_iff here.1 same]
    split
    · exact .some here.2
    · exact ih

theorem Paired.size (paired : s.Paired P s') : s.size = s'.size := List.Forall₂.length_eq paired

theorem Paired.weight (paired : s.Paired P s') : s.weight = s'.weight := by
  obtain ⟨entries⟩ := s
  obtain ⟨entries'⟩ := s'
  simp only [Paired, Scope.weight] at paired ⊢
  induction paired with
  | nil => rfl
  | cons here _ ih => rw [List.foldr_cons, List.foldr_cons, ih, here.2.size]

theorem Paired.walkWithin (paired : s.Paired P s') (steps : Nat) {t t' : Term}
    (terms : t.Paired P t') : (s.walkWithin steps t).Paired P (s'.walkWithin steps t') := by
  induction steps generalizing t t' with
  | zero =>
    simp only [Scope.walkWithin]
    exact terms
  | succ steps ih =>
    have kept := terms
    cases terms with
    | var same =>
      simp only [Scope.walkWithin]
      have found := paired.get? same
      generalize s.get? _ = value at found
      generalize s'.get? _ = value' at found
      cases found with
      | none => exact .var same
      | some values => exact ih values
    | _ => exact kept

theorem Paired.walk (paired : s.Paired P s') {t t' : Term} (terms : t.Paired P t') :
    (s.walk t).Paired P (s'.walk t') := by
  rw [walk_eq_walkWithin, walk_eq_walkWithin, paired.size]
  exact paired.walkWithin _ terms

theorem any_of_related {α β : Type} {f : α → Bool} {g : β → Bool} {xs : List α} {ys : List β}
    (related : List.Forall₂ (fun x y => f x = g y) xs ys) : xs.any f = ys.any g := by
  induction related with
  | nil => rfl
  | cons here _ ih => rw [List.any_cons, List.any_cons, here, ih]

theorem Paired.occursWithin (paired : s.Paired P s') {v w : Var} (same : P.vars v w) (depth : Nat)
    {t t' : Term} (terms : t.Paired P t') :
    s.occursWithin v depth t = s'.occursWithin w depth t' := by
  induction depth generalizing t t' with
  | zero => rfl
  | succ depth ih =>
    refine any_of_related (terms.vars.imp fun u u' reached => ?_)
    have walked := paired.walk (.var reached)
    generalize s.walk (.var u) = value at walked
    generalize s'.walk (.var u') = value' at walked
    have kept := walked
    cases walked with
    | var ends => exact Bool.eq_iff_iff.mpr (by simpa using P.eq_iff ends same)
    | _ => exact ih kept

theorem Paired.occurs (paired : s.Paired P s') {v w : Var} (same : P.vars v w) {t t' : Term}
    (terms : t.Paired P t') : s.occurs v t = s'.occurs w t' := by
  rw [Scope.occurs, Scope.occurs, paired.size]
  exact paired.occursWithin same _ terms

theorem Paired.resolveWithin (paired : s.Paired P s') (depth : Nat) {t t' : Term}
    (terms : t.Paired P t') : (s.resolveWithin depth t).Paired P (s'.resolveWithin depth t') := by
  induction depth generalizing t t' with
  | zero => exact terms
  | succ depth ih =>
    refine terms.subst fun u u' reached => ?_
    have walked := paired.walk (.var reached)
    generalize s.walk (.var u) = value at walked
    generalize s'.walk (.var u') = value' at walked
    have kept := walked
    cases walked with
    | var ends => exact kept
    | _ => exact ih kept

theorem Paired.resolve (paired : s.Paired P s') {t t' : Term} (terms : t.Paired P t') :
    (s.resolve t).Paired P (s'.resolve t') := by
  rw [Scope.resolve, Scope.resolve, paired.size]
  exact paired.resolveWithin _ terms

theorem all_of_related {α β : Type} {f : α → Bool} {g : β → Bool} {xs : List α} {ys : List β}
    (related : List.Forall₂ (fun x y => f x = g y) xs ys) : xs.all f = ys.all g := by
  induction related with
  | nil => rfl
  | cons here _ ih => rw [List.all_cons, List.all_cons, here, ih]

theorem Paired.isGroundWithin (paired : s.Paired P s') (depth : Nat) {t t' : Term}
    (terms : t.Paired P t') : s.isGroundWithin depth t = s'.isGroundWithin depth t' := by
  induction depth generalizing t t' with
  | zero =>
    have vars := terms.vars
    simp only [Scope.isGroundWithin, Term.hasVars]
    generalize t.vars = xs at vars
    generalize t'.vars = ys at vars
    cases vars <;> rfl
  | succ depth ih =>
    refine all_of_related (terms.vars.imp fun u u' reached => ?_)
    have walked := paired.walk (.var reached)
    generalize s.walk (.var u) = value at walked
    generalize s'.walk (.var u') = value' at walked
    have kept := walked
    cases walked with
    | var ends => rfl
    | _ => exact ih kept

theorem Paired.isGround (paired : s.Paired P s') {t t' : Term} (terms : t.Paired P t') :
    s.isGround t = s'.isGround t' := by
  rw [Scope.isGround, Scope.isGround, paired.size]
  exact paired.isGroundWithin _ terms

theorem Paired.firstUnboundWithin (paired : s.Paired P s') (depth : Nat) {t t' : Term}
    (terms : t.Paired P t') :
    (s.firstUnboundWithin depth t).isSome = (s'.firstUnboundWithin depth t').isSome := by
  induction depth generalizing t t' with
  | zero =>
    have vars := terms.vars
    simp only [Scope.firstUnboundWithin]
    generalize t.vars = xs at vars
    generalize t'.vars = ys at vars
    cases vars <;> rfl
  | succ depth ih =>
    simp only [Scope.firstUnboundWithin, List.isSome_findSome?]
    refine any_of_related (terms.vars.imp fun u u' reached => ?_)
    have walked := paired.walk (.var reached)
    generalize s.walk (.var u) = value at walked
    generalize s'.walk (.var u') = value' at walked
    have kept := walked
    cases walked with
    | var ends => rfl
    | _ => exact ih kept

end Scope

theorem Term.vars_subst (f : Var → Term) (t : Term) :
    (t.subst f).vars = t.vars.flatMap fun v => (f v).vars := by
  induction t using partsInduction with
  | seq items ih =>
    rw [subst_seq, vars_seq, vars_seq, List.flatMap_map, List.flatMap_assoc]
    exact List.flatMap_congr fun t member => ih t member
  | lit functor args annots ihArgs ihAnnots =>
    rw [subst_lit, vars_lit, vars_lit, List.flatMap_map, List.flatMap_map, List.flatMap_append,
      List.flatMap_assoc, List.flatMap_assoc, List.flatMap_congr ihArgs, List.flatMap_congr ihAnnots]
  | _ => simp [subst, vars]

/-- What has no unbound variable has a value without variables. -/
theorem Scope.vars_resolveWithin {s : Scope} {depth : Nat} {t : Term}
    (bound : s.firstUnboundWithin depth t = none) : (s.resolveWithin depth t).vars = [] := by
  induction depth generalizing t with
  | zero => simpa [firstUnboundWithin, resolveWithin] using bound
  | succ depth ih =>
    simp only [firstUnboundWithin, List.findSome?_eq_none_iff] at bound
    rw [resolveWithin, Term.vars_subst, List.flatMap_eq_nil_iff]
    intro v member
    have reached := bound v member
    split at reached
    · simp at reached
    · exact ih reached

/-- Both fail with the same kind of error, or both succeed with related values. -/
inductive Agree {α β : Type} (R : α → β → Prop) :
    Except Halt α → Except Halt β → Prop where
  | ok {a : α} {b : β} (related : R a b) : Agree R (.ok a) (.ok b)
  | error {e e' : Halt} (kind : e.kind = e'.kind) : Agree R (.error e) (.error e')

/-- A value without variables, with known literals only. -/
structure Term.Closed (P : Pairing) (t : Term) : Prop where
  paired : t.Paired P t
  vars : t.vars = []

namespace Scope

variable {s s' : Scope}

/-- Values that must be ground are the same on both sides. -/
theorem Paired.grounded (paired : s.Paired P s') {t t' : Term} (terms : t.Paired P t') :
    Agree (fun value value' => value = value' ∧ value.Closed P) (s.grounded t) (s'.grounded t') := by
  have values := paired.resolve terms
  have same := paired.firstUnboundWithin (s.size + 1) terms
  unfold Scope.grounded firstUnbound?
  rw [← paired.size]
  cases found : s.firstUnboundWithin (s.size + 1) t with
  | some v =>
    rw [found, Option.isSome_some] at same
    obtain ⟨w, found'⟩ := Option.isSome_iff_exists.mp same.symm
    rw [found']
    exact .error rfl
  | none =>
    rw [found, Option.isSome_none] at same
    rw [Option.isSome_eq_false_iff.mp same.symm |> Option.isNone_iff_eq_none.mp]
    have closed : (s.resolve t).vars = [] := vars_resolveWithin found
    have equal := values.eq_of_closed closed
    exact .ok ⟨equal, equal ▸ values, closed⟩

theorem Paired.elements (paired : s.Paired P s') {t t' : Term} (terms : t.Paired P t') :
    Agree (List.Forall₂ (Term.Paired P)) (s.elements t) (s'.elements t') := by
  have walked := paired.walk terms
  unfold Scope.elements
  generalize s.walk t = value at walked
  generalize s'.walk t' = value' at walked
  cases walked with
  | var ends => exact .error rfl
  | num n => exact .error rfl
  | str text =>
    refine .ok (List.forall₂_same.mpr ?_)
    intro part member
    obtain ⟨c, -, rfl⟩ := List.mem_map.mp member
    exact .str _
  | seq items => exact .ok (forall₂_map items fun _ _ _ item => paired.resolve item)
  | lit known args annots => exact .error rfl

end Scope

inductive TrailEntry.Paired (P : Pairing) : TrailEntry → TrailEntry → Prop where
  | binding {v w : Var} (same : P.vars v w) : Paired P (.binding v) (.binding w)
  | mark {c d : Choicepoint} (same : P.marks c d) : Paired P (.mark c) (.mark d)

namespace Bindings

structure Paired (P : Pairing) (b b' : Bindings) : Prop where
  scope : b.scope.Paired P b'.scope
  trail : List.Forall₂ (TrailEntry.Paired P) b.trail b'.trail

variable {b b' : Bindings}

theorem Paired.mono (more : P.Extends P') (paired : b.Paired P b') : b.Paired P' b' := by
  refine ⟨paired.scope.mono more, paired.trail.imp ?_⟩
  intro entry entry' same
  cases same with
  | binding same => exact .binding (more.vars same)
  | mark same => exact .mark (more.marks same)

theorem Paired.mark (paired : b.Paired P b') {c d : Choicepoint} (same : P.marks c d) :
    (b.mark c).Paired P (b'.mark d) :=
  ⟨paired.scope, .cons (.mark same) paired.trail⟩

theorem Paired.clear (paired : b.Paired P b') : b.clear.Paired P b'.clear :=
  ⟨Scope.empty_paired P, paired.trail⟩

theorem unwind_paired {scope scope' : Scope} (scopes : scope.Paired P scope') {trail trail' : Trail}
    (trails : List.Forall₂ (TrailEntry.Paired P) trail trail') {c d : Choicepoint}
    (same : P.marks c d) : Option.Rel (Paired P) (unwind c scope trail) (unwind d scope' trail') := by
  induction trails generalizing scope scope' with
  | nil => exact .none
  | cons here rest ih =>
    cases here with
    | binding bound => exact ih (scopes.unbind bound)
    | mark laid =>
      simp only [unwind, P.marks_eq_iff laid same]
      split
      · exact .some ⟨scopes, rest⟩
      · exact ih scopes

theorem Paired.reroll? (paired : b.Paired P b') {c d : Choicepoint} (same : P.marks c d) :
    Option.Rel (Paired P) (b.reroll? c) (b'.reroll? d) :=
  unwind_paired paired.scope paired.trail same

/-- The same answer, and paired bindings. -/
def SameAnswer (P : Pairing) (r r' : Bool × Bindings) : Prop := r.1 = r'.1 ∧ r.2.Paired P r'.2

theorem Paired.bindChecked (paired : b.Paired P b') {v w : Var} (same : P.vars v w)
    {value value' : Term} (values : value.Paired P value') :
    SameAnswer P (b.bindChecked v value) (b'.bindChecked w value') := by
  unfold Bindings.bindChecked
  rw [paired.scope.occurs same values]
  split
  · exact ⟨rfl, paired⟩
  · exact ⟨rfl, paired.scope.bind same values, .cons (.binding same) paired.trail⟩

theorem unifyPairs_paired {unify : Term → Term → Bindings → Option (Bool × Bindings)}
    (step : ∀ {x x' y y' : Term} {b b' : Bindings}, x.Paired P x' → y.Paired P y' → b.Paired P b' →
      Option.Rel (SameAnswer P) (unify x y b) (unify x' y' b'))
    {xs xs' ys ys' : List Term} (first : List.Forall₂ (Term.Paired P) xs xs')
    (second : List.Forall₂ (Term.Paired P) ys ys') (paired : b.Paired P b') :
    Option.Rel (SameAnswer P) (unifyPairs unify xs ys b) (unifyPairs unify xs' ys' b') := by
  induction first generalizing ys ys' b b' with
  | nil =>
    cases second with
    | nil => exact .some ⟨rfl, paired⟩
    | cons _ _ => exact .some ⟨rfl, paired⟩
  | cons here rest ih =>
    cases second with
    | nil => exact .some ⟨rfl, paired⟩
    | cons there rest' =>
      simp only [unifyPairs]
      have answer := step here there paired
      generalize unify _ _ b = r at answer
      generalize unify _ _ b' = r' at answer
      cases answer with
      | none => exact .none
      | @some r r' same =>
        obtain ⟨ok, c⟩ := r
        obtain ⟨ok', c'⟩ := r'
        obtain ⟨rfl, bound⟩ : ok = ok' ∧ c.Paired P c' := same
        cases ok with
        | true => exact ih rest' bound
        | false => exact .some ⟨rfl, bound⟩

theorem unifyWithin_paired (depth : Nat) {left left' right right' : Term}
    (first : left.Paired P left') (second : right.Paired P right') (paired : b.Paired P b') :
    Option.Rel (SameAnswer P) (unifyWithin depth left right b)
      (unifyWithin depth left' right' b') := by
  induction depth generalizing left left' right right' b b' with
  | zero => exact .none
  | succ depth ih =>
    have walked := paired.scope.walk first
    have walked' := paired.scope.walk second
    unfold unifyWithin
    generalize b.scope.walk left = x at walked
    generalize b'.scope.walk left' = x' at walked
    generalize b.scope.walk right = y at walked'
    generalize b'.scope.walk right' = y' at walked'
    have value := walked
    have value' := walked'
    cases walked with
    | var same =>
      cases walked' with
      | var same' =>
        simp only [P.eq_iff same same']
        split
        · exact .some ⟨rfl, paired⟩
        · exact .some (paired.bindChecked same' value)
      | _ => exact .some (paired.bindChecked same value')
    | seq items =>
      cases walked' with
      | var same' => exact .some (paired.bindChecked same' value)
      | seq items' =>
        simp only [items.length_eq, items'.length_eq]
        split
        · exact unifyPairs_paired ih items items' paired
        · exact .some ⟨rfl, paired⟩
      | _ => exact .some ⟨rfl, paired⟩
    | lit known args annots =>
      cases walked' with
      | var same' => exact .some (paired.bindChecked same' value)
      | lit known' args' annots' =>
        simp only [args.length_eq, args'.length_eq]
        split
        · exact unifyPairs_paired ih args args' paired
        · exact .some ⟨rfl, paired⟩
      | _ => exact .some ⟨rfl, paired⟩
    | _ =>
      cases walked' with
      | var same' => exact .some (paired.bindChecked same' value)
      | _ => exact .some ⟨rfl, paired⟩

theorem Paired.unify (paired : b.Paired P b') {left left' right right' : Term}
    (first : left.Paired P left') (second : right.Paired P right') :
    SameAnswer P (b.unify left right) (b'.unify left' right') := by
  have usual := unifyWithin_paired usualDepth first second paired
  have sure := unifyWithin_paired (unifyDepth left right b) first second paired
  have depth : unifyDepth left right b = unifyDepth left' right' b' := by
    rw [unifyDepth, unifyDepth, first.size, second.size, paired.scope.weight]
  rw [Bindings.unify, Bindings.unify, ← depth]
  generalize unifyWithin usualDepth left right b = r at usual
  generalize unifyWithin usualDepth left' right' b' = r' at usual
  cases usual with
  | some same => exact same
  | none =>
    generalize unifyWithin _ left right b = r at sure
    generalize unifyWithin _ left' right' b' = r' at sure
    cases sure with
    | some same => exact same
    | none => exact ⟨rfl, paired⟩

theorem Paired.unifyEach (paired : b.Paired P b') {pairs pairs' : List (Term × Term)}
    (terms : List.Forall₂ (fun pair pair' => pair.1.Paired P pair'.1 ∧ pair.2.Paired P pair'.2)
      pairs pairs') : SameAnswer P (b.unifyEach pairs) (b'.unifyEach pairs') := by
  induction terms generalizing b b' with
  | nil => exact ⟨rfl, paired⟩
  | @cons pair pair' _ _ here _ ih =>
    obtain ⟨left, right⟩ := pair
    obtain ⟨left', right'⟩ := pair'
    simp only [Bindings.unifyEach]
    have answer := paired.unify here.1 here.2
    generalize b.unify left right = r at answer
    generalize b'.unify left' right' = r' at answer
    obtain ⟨ok, c⟩ := r
    obtain ⟨ok', c'⟩ := r'
    obtain ⟨rfl, bound⟩ : ok = ok' ∧ c.Paired P c' := answer
    cases ok with
    | true => exact ih bound
    | false => exact ⟨rfl, bound⟩

end Bindings

end Deliberation
