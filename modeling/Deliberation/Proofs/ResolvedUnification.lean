import Deliberation.Proofs.Agreement
import Deliberation.Proofs.OwnVariables

/-! Unification sees what terms stand for. How a value is spread over bindings makes no difference:
where two pairs of terms stand for the same values up to the numbers of variables, both are unified
or neither is, and all that stood for the same before still does. -/
namespace Deliberation

variable {P : Pairing}

/-- Of paired variables, one is among some exactly when the other is among their counterparts. -/
theorem Pairing.mem_iff {vars vars' : List Var} (related : List.Forall₂ P.vars vars vars')
    {v w : Var} (same : P.vars v w) : v ∈ vars ↔ w ∈ vars' := by
  induction related with
  | nil => simp
  | cons here _ ih => rw [List.mem_cons, List.mem_cons, ih, P.eq_iff same here]

namespace Scope

variable {s s' : Scope}

/-- The value of a term that is no variable at the end of its walk is made of the values of its
parts. -/
theorem mem_vars_resolve_of_walk (acyclic : s.Acyclic) {t : Term} {v : Var}
    (compound : ∀ u, s.walk t ≠ .var u) :
    v ∈ (s.resolve t).vars ↔ ∃ part ∈ (s.walk t).parts, v ∈ (s.resolve part).vars := by
  rw [resolve_eq acyclic]
  cases ended : s.walk t with
  | var u => exact absurd ended (compound u)
  | seq items => simp [Term.parts]
  | lit functor args annots => simp [Term.parts, or_and_right, exists_or]
  | _ => simp [Term.parts, Term.vars]

/-- Only unbound variables are left in a value. -/
theorem unbound_of_mem_vars_resolve (acyclic : s.Acyclic) {t : Term} {v : Var}
    (member : v ∈ (s.resolve t).vars) : s.get? v = none := by
  induction t using (descents_end acyclic).induction with
  | h t ih =>
    cases ended : s.walk t with
    | var u =>
      rw [resolve_eq acyclic, ended] at member
      obtain rfl : v = u := by simpa using member
      exact walk_unbound acyclic ended
    | _ =>
      rw [mem_vars_resolve_of_walk acyclic (by simp [ended])] at member
      obtain ⟨part, inside, deeper⟩ := member
      exact ih part inside deeper

/-- The occurs check looks for the variable in the value of the term. -/
theorem occurs_iff (acyclic : s.Acyclic) {t : Term} {v : Var} :
    s.occurs v t = true ↔ v ∈ (s.resolve t).vars := by
  induction t using (descents_end acyclic).induction with
  | h t ih =>
    rw [occurs_eq acyclic]
    cases ended : s.walk t with
    | var u =>
      rw [resolve_eq acyclic, ended]
      simpa using eq_comm
    | _ =>
      rw [mem_vars_resolve_of_walk acyclic (by simp [ended]), ended]
      simp only [List.any_eq_true]
      refine exists_congr fun part => and_congr_right fun inside => ih part ?_
      rwa [Descends, ended]

theorem resolve_of_unbound (acyclic : s.Acyclic) {v : Var} (free : s.get? v = none) :
    s.resolve (.var v) = .var v := by
  rw [resolve_eq acyclic, walk_of_unbound free]

/-- A new binding replaces its variable in all values. -/
theorem resolve_bind (acyclic : s.Acyclic) {v : Var} {value : Term} (free : s.get? v = none)
    (apart : s.occurs v value = false) (t : Term) :
    (s.bind v value).resolve t =
      (s.resolve t).subst fun u => if u = v then s.resolve value else .var u := by
  have acyclic' := bind_acyclic_of_occurs acyclic free apart
  have kept := extends_bind free value
  have others {u : Var} (unbound : s.get? u = none) (other : u ≠ v) :
      (s.bind v value).resolve (.var u) = .var u := by
    refine resolve_of_unbound acyclic' ?_
    rwa [get?_bind_of_ne s value other]
  have self : (s.bind v value).resolve (.var v) = s.resolve value := by
    have onward : (s.bind v value).walk (.var v) = (s.bind v value).walk value :=
      walk_of_bound acyclic' (get?_bind_self s v value)
    rw [resolve_of_walk acyclic' onward, kept.resolve acyclic acyclic' value]
    refine (Term.subst_congr _ fun u member => ?_).trans (Term.subst_var _)
    refine others (unbound_of_mem_vars_resolve acyclic member) ?_
    rintro rfl
    rw [(occurs_iff acyclic).mpr member] at apart
    exact absurd apart (by simp)
  rw [kept.resolve acyclic acyclic' t]
  refine Term.subst_congr _ fun u member => ?_
  split
  · rename_i same
    rw [same, self]
  · rename_i other
    exact others (unbound_of_mem_vars_resolve acyclic member) other

/-- The values of the two terms are the same up to the numbers of variables. -/
def Stands (P : Pairing) (s s' : Scope) (t t' : Term) : Prop :=
  (s.resolve t).Paired P (s'.resolve t')

/-- Ends of walks of terms that stand for the same. -/
inductive Matched (P : Pairing) (s s' : Scope) : Term → Term → Prop where
  | var {v w : Var} (free : s.get? v = none) (free' : s'.get? w = none) (same : P.vars v w) :
    Matched P s s' (.var v) (.var w)
  | num (n : Number) : Matched P s s' (.num n) (.num n)
  | str (text : String) : Matched P s s' (.str text) (.str text)
  | seq {xs ys : List Term} (items : List.Forall₂ (Stands P s s') xs ys) :
    Matched P s s' (.seq xs) (.seq ys)
  | lit {f : String} {xs ys as bs : List Term} (args : List.Forall₂ (Stands P s s') xs ys) :
    Matched P s s' (.lit f xs as) (.lit f ys bs)

theorem Stands.walk_iff (acyclic : s.Acyclic) (acyclic' : s'.Acyclic) {t t' : Term} :
    Stands P s s' (s.walk t) (s'.walk t') ↔ Stands P s s' t t' := by
  rw [Stands, Stands, resolve_of_walk acyclic (walk_walk acyclic t),
    resolve_of_walk acyclic' (walk_walk acyclic' t')]

theorem Stands.matched (acyclic : s.Acyclic) (acyclic' : s'.Acyclic) {t t' : Term}
    (stands : Stands P s s' t t') : Matched P s s' (s.walk t) (s'.walk t') := by
  have values := stands
  rw [Stands, resolve_eq acyclic, resolve_eq acyclic'] at values
  cases ended : s.walk t <;> cases ended' : s'.walk t' <;> rw [ended, ended'] at values <;>
    cases values
  case var.var v w same =>
    exact .var (walk_unbound acyclic ended) (walk_unbound acyclic' ended') same
  case num.num => exact .num _
  case str.str => exact .str _
  case seq.seq items =>
    rw [List.forall₂_map_left_iff, List.forall₂_map_right_iff] at items
    exact .seq items
  case lit.lit args annots =>
    rw [List.forall₂_map_left_iff, List.forall₂_map_right_iff] at args
    exact .lit args

end Scope

namespace Bindings

open Scope (Stands Matched)

variable {b b' : Bindings}

/-- Two answers from the first bindings on: both are no, or both are yes and terms that stood for the
same still do. -/
inductive Concur (P : Pairing) (b b' : Bindings) : Bool × Bindings → Bool × Bindings → Prop where
  | no (c c' : Bindings) : Concur P b b' (false, c) (false, c')
  | yes {c c' : Bindings} (acyclic : c.scope.Acyclic) (acyclic' : c'.scope.Acyclic)
      (carries : ∀ t t', Stands P b.scope b'.scope t t' → Stands P c.scope c'.scope t t') :
      Concur P b b' (true, c) (true, c')

theorem bindChecked_stands (acyclic : b.scope.Acyclic) (acyclic' : b'.scope.Acyclic) {v w : Var}
    (free : b.scope.get? v = none) (free' : b'.scope.get? w = none) (same : P.vars v w)
    {value value' : Term} (values : Stands P b.scope b'.scope value value') :
    Concur P b b' (b.bindChecked v value) (b'.bindChecked w value') := by
  have found : b.scope.occurs v value = b'.scope.occurs w value' := by
    rw [Bool.eq_iff_iff, Scope.occurs_iff acyclic, Scope.occurs_iff acyclic']
    exact P.mem_iff values.vars same
  unfold bindChecked
  rw [← found]
  cases apart : b.scope.occurs v value with
  | true => exact .no b b'
  | false =>
    have apart' := found.symm.trans apart
    refine .yes (Scope.bind_acyclic_of_occurs acyclic free apart)
      (Scope.bind_acyclic_of_occurs acyclic' free' apart') ?_
    intro t t' stands
    change Term.Paired P ((b.scope.bind v value).resolve t) ((b'.scope.bind w value').resolve t')
    rw [Scope.resolve_bind acyclic free apart, Scope.resolve_bind acyclic' free' apart']
    refine stands.subst fun u u' pair => ?_
    simp only [P.eq_iff pair same]
    split
    · exact values
    · exact .var pair

/-- The answers concur if both are given. -/
def Concurs (P : Pairing) (b b' : Bindings) (r r' : Option (Bool × Bindings)) : Prop :=
  ∀ a ∈ r, ∀ a' ∈ r', Concur P b b' a a'

theorem Concur.given {a a' : Bool × Bindings} (concur : Concur P b b' a a') :
    Concurs P b b' (some a) (some a') := by
  rintro _ ⟨⟩ _ ⟨⟩
  exact concur

/-- A comparison of constants binds nothing. -/
theorem Concur.unchanged (acyclic : b.scope.Acyclic) (acyclic' : b'.scope.Acyclic) (ok : Bool) :
    Concur P b b' (ok, b) (ok, b') := by
  cases ok with
  | false => exact .no b b'
  | true => exact .yes acyclic acyclic' fun _ _ => id

/-- What is done after answers that concur. -/
theorem Concur.andThen {a a' : Bool × Bindings} (concur : Concur P b b' a a')
    {next next' : Bindings → Option (Bool × Bindings)}
    (later : ∀ c c', c.scope.Acyclic → c'.scope.Acyclic →
      (∀ t t', Stands P b.scope b'.scope t t' → Stands P c.scope c'.scope t t') →
      Concurs P c c' (next c) (next' c')) :
    Concurs P b b' (if a.1 then next a.2 else some a) (if a'.1 then next' a'.2 else some a') := by
  cases concur with
  | no c c' => exact (Concur.no c c').given
  | yes kept kept' carries =>
    intro r made r' made'
    cases later _ _ kept kept' carries r made r' made' with
    | no c c' => exact .no c c'
    | yes last last' more =>
      exact .yes last last' fun t t' stands => more t t' (carries t t' stands)

theorem unifyPairs_stands {unify unify' : Term → Term → Bindings → Option (Bool × Bindings)}
    (step : ∀ {b b' : Bindings} {x x' y y' : Term}, b.scope.Acyclic → b'.scope.Acyclic →
      Stands P b.scope b'.scope x x' → Stands P b.scope b'.scope y y' →
      Concurs P b b' (unify x y b) (unify' x' y' b'))
    {xs xs' ys ys' : List Term} (acyclic : b.scope.Acyclic) (acyclic' : b'.scope.Acyclic)
    (first : List.Forall₂ (Stands P b.scope b'.scope) xs xs')
    (second : List.Forall₂ (Stands P b.scope b'.scope) ys ys') :
    Concurs P b b' (unifyPairs unify xs ys b) (unifyPairs unify' xs' ys' b') := by
  induction xs generalizing xs' ys ys' b b' with
  | nil =>
    cases first
    cases second with
    | nil => exact (Concur.unchanged acyclic acyclic' true).given
    | cons _ _ => exact (Concur.unchanged acyclic acyclic' false).given
  | cons x xs ih =>
    obtain ⟨x', xs', here, rest, rfl⟩ := List.forall₂_cons_left_iff.mp first
    cases second with
    | nil => exact (Concur.unchanged acyclic acyclic' false).given
    | @cons y y' ys ys' there rest' =>
      rw [unifyPairs_cons, unifyPairs_cons]
      intro r made r' made'
      obtain ⟨a, one, made⟩ := Option.bind_eq_some_iff.mp made
      obtain ⟨a', other, made'⟩ := Option.bind_eq_some_iff.mp made'
      refine (step acyclic acyclic' here there a one a' other).andThen ?_ r made r' made'
      intro c c' kept kept' carries
      exact ih kept kept' (rest.imp carries) (rest'.imp carries)

theorem unifyWithin_stands (depth depth' : Nat) {left left' right right' : Term}
    (acyclic : b.scope.Acyclic) (acyclic' : b'.scope.Acyclic)
    (first : Stands P b.scope b'.scope left left')
    (second : Stands P b.scope b'.scope right right') :
    Concurs P b b' (unifyWithin depth left right b) (unifyWithin depth' left' right' b') := by
  induction depth generalizing depth' left left' right right' b b' with
  | zero => simp [Concurs, unifyWithin]
  | succ depth ih =>
    obtain _ | depth' := depth'
    · simp [Concurs, unifyWithin]
    have walked := first.matched acyclic acyclic'
    have walked' := second.matched acyclic acyclic'
    have value := (Stands.walk_iff acyclic acyclic').mpr first
    have value' := (Stands.walk_iff acyclic acyclic').mpr second
    have clash := (Concur.unchanged (P := P) acyclic acyclic' false).given
    have pairs {xs xs' ys ys' : List Term} := @unifyPairs_stands P b b' _ _ (ih depth') xs xs' ys ys'
      acyclic acyclic'
    unfold unifyWithin
    generalize b.scope.walk left = x at *
    generalize b'.scope.walk left' = x' at *
    generalize b.scope.walk right = y at *
    generalize b'.scope.walk right' = y' at *
    cases walked' with
    | var free free' same =>
      have bound := (bindChecked_stands acyclic acyclic' free free' same value).given
      cases walked with
      | var _ _ same' =>
        simp only [P.eq_iff same' same]
        split
        · exact (Concur.unchanged acyclic acyclic' true).given
        · exact bound
      | _ => exact bound
    | num n =>
      cases walked with
      | var free free' same =>
        exact (bindChecked_stands acyclic acyclic' free free' same value').given
      | num m => exact (Concur.unchanged acyclic acyclic' _).given
      | _ => exact clash
    | str text =>
      cases walked with
      | var free free' same =>
        exact (bindChecked_stands acyclic acyclic' free free' same value').given
      | str text' => exact (Concur.unchanged acyclic acyclic' _).given
      | _ => exact clash
    | seq items =>
      cases walked with
      | var free free' same =>
        exact (bindChecked_stands acyclic acyclic' free free' same value').given
      | seq items' =>
        simp only [items.length_eq, items'.length_eq]
        split
        · exact pairs items' items
        · exact clash
      | _ => exact clash
    | lit args =>
      cases walked with
      | var free free' same =>
        exact (bindChecked_stands acyclic acyclic' free free' same value').given
      | lit args' =>
        simp only [args.length_eq, args'.length_eq]
        split
        · exact pairs args' args
        · exact clash
      | _ => exact clash

/-- Unification sees what the terms stand for. -/
theorem unify_stands {left left' right right' : Term} (acyclic : b.scope.Acyclic)
    (acyclic' : b'.scope.Acyclic) (first : Stands P b.scope b'.scope left left')
    (second : Stands P b.scope b'.scope right right') :
    Concur P b b' (b.unify left right) (b'.unify left' right') := by
  obtain ⟨depth, answer⟩ := unify_within acyclic left right
  obtain ⟨depth', answer'⟩ := unify_within acyclic' left' right'
  exact unifyWithin_stands depth depth' acyclic acyclic' first second _ answer _ answer'

end Bindings

end Deliberation
