import Deliberation.Proofs.UnificationSteps
import Mathlib.Data.List.Forall2

/-! Terms that unify agree. Unification compares numbers by their value and passes over annotations,
but it carries annotations into the bindings that it makes. So what it makes equal are the values of
the two terms without their annotations, up to the way in which equal numbers are written, and no
later unification takes that back. -/
namespace Deliberation

namespace Term

mutual
/-- The term without annotations, at every level. -/
def erased : Term → Term
  | var v => var v
  | num n => num n
  | str s => str s
  | seq items => seq (erasedAll items)
  | lit functor args _ => lit functor (erasedAll args) []

def erasedAll : List Term → List Term
  | [] => []
  | t :: rest => erased t :: erasedAll rest
end

mutual
/-- Structural identity, except that a number may stand for another that is equal to it. -/
def agrees : Term → Term → Bool
  | var v, var w => v == w
  | num m, num n => m == n || m.equals n
  | str s, str t => s == t
  | seq xs, seq ys => agreesAll xs ys
  | lit f xs as, lit g ys bs => f == g && agreesAll xs ys && agreesAll as bs
  | _, _ => false

def agreesAll : List Term → List Term → Bool
  | [], [] => true
  | x :: xs, y :: ys => agrees x y && agreesAll xs ys
  | _, _ => false
end

/-- The terms agree once their annotations are gone. -/
def Alike (t u : Term) : Prop := t.erased.agrees u.erased = true

theorem agreesAll_erased_iff (xs ys : List Term) :
    agreesAll (erasedAll xs) (erasedAll ys) = true ↔ List.Forall₂ Alike xs ys := by
  induction xs generalizing ys with
  | nil => cases ys <;> simp [erasedAll, agreesAll]
  | cons x xs ih => cases ys <;> simp [erasedAll, agreesAll, Alike, ih]

@[simp] theorem alike_seq_iff (xs ys : List Term) :
    Alike (seq xs) (seq ys) ↔ List.Forall₂ Alike xs ys := by
  simp only [Alike, erased, agrees, agreesAll_erased_iff]

@[simp] theorem alike_lit_iff (f g : String) (xs ys as bs : List Term) :
    Alike (lit f xs as) (lit g ys bs) ↔ f = g ∧ List.Forall₂ Alike xs ys := by
  simp [Alike, erased, agrees, agreesAll, agreesAll_erased_iff]

theorem Alike.refl (t : Term) : Alike t t := by
  induction t using partsInduction with
  | seq items ih => exact (alike_seq_iff _ _).mpr (List.forall₂_same.mpr ih)
  | lit functor args annots ih _ => exact (alike_lit_iff ..).mpr ⟨rfl, List.forall₂_same.mpr ih⟩
  | _ => simp [Alike, erased, agrees]

/-- Replacing variables keeps agreement, also where it brings in annotations. -/
theorem Alike.subst {t u : Term} (alike : Alike t u) (f : Var → Term) :
    Alike (t.subst f) (u.subst f) := by
  have all (xs ys : List Term)
      (each : ∀ x ∈ xs, ∀ y, Alike x y → Alike (x.subst f) (y.subst f))
      (related : List.Forall₂ Alike xs ys) :
      List.Forall₂ Alike (xs.map (Term.subst f)) (ys.map (Term.subst f)) := by
    induction related with
    | nil => exact .nil
    | cons first _ ih =>
      apply List.Forall₂.cons (each _ List.mem_cons_self _ first)
      exact ih fun x member => each x (List.mem_cons_of_mem _ member)
  induction t using partsInduction generalizing u with
  | var v =>
    cases u with
    | var w =>
      obtain rfl : v = w := by simpa [Alike, erased, agrees] using alike
      exact Alike.refl _
    | _ => simp [Alike, erased, agrees] at alike
  | num n => cases u <;> first | exact alike | simp [Alike, erased, agrees] at alike
  | str s => cases u <;> first | exact alike | simp [Alike, erased, agrees] at alike
  | seq items ih =>
    cases u with
    | seq others =>
      rw [subst_seq, subst_seq, alike_seq_iff]
      exact all items others (fun x member y => ih x member) ((alike_seq_iff _ _).mp alike)
    | _ => simp [Alike, erased, agrees] at alike
  | lit functor args annots ih _ =>
    cases u with
    | lit functor' others annots' =>
      obtain ⟨same, related⟩ := (alike_lit_iff ..).mp alike
      rw [subst_lit, subst_lit, alike_lit_iff]
      exact ⟨same, all args others (fun x member y => ih x member) related⟩
    | _ => simp [Alike, erased, agrees] at alike

end Term

namespace Scope

variable {s s' : Scope}

/-- A value depends on the end of the walk only. -/
theorem resolve_of_walk (acyclic : s.Acyclic) {t u : Term} (same : s.walk t = s.walk u) :
    s.resolve t = s.resolve u := by
  rw [resolve_eq acyclic, resolve_eq acyclic, same]

/-- The value under more bindings is the value under fewer with its variables replaced. -/
theorem Extends.resolve (kept : s.Extends s') (acyclic : s.Acyclic) (acyclic' : s'.Acyclic)
    (t : Term) : s'.resolve t = (s.resolve t).subst fun v => s'.resolve (.var v) := by
  induction t using (descents_end acyclic).induction with
  | h t ih =>
    have walked := kept.walk acyclic' t
    rw [resolve_of_walk acyclic' walked, resolve_eq acyclic]
    have all (items : List Term) (inside : ∀ part ∈ items, part ∈ (s.walk t).parts) :
        items.map s'.resolve =
          (items.map s.resolve).map (Term.subst fun v => s'.resolve (.var v)) := by
      rw [List.map_map]
      exact List.map_congr_left fun part member => ih part (inside part member)
    cases ended : s.walk t with
    | seq items =>
      rw [ended] at all
      simp only [resolve_seq, Term.subst_seq, all items fun _ => id]
    | lit functor args annots =>
      rw [ended] at all
      simp only [resolve_lit, Term.subst_lit, all args fun _ => List.mem_append_left _,
        all annots fun _ => List.mem_append_right _]
    | _ => rfl

end Scope

namespace Bindings

variable {b b' : Bindings}

/-- The bindings after further unifications, whether or not they succeed. -/
def afterUnifying (b : Bindings) (pairs : List (Term × Term)) : Bindings :=
  pairs.foldl (fun b pair => (b.unify pair.1 pair.2).2) b

theorem afterUnifying_assigns (b : Bindings) (pairs : List (Term × Term)) :
    Assigns b (b.afterUnifying pairs) := by
  induction pairs generalizing b with
  | nil => exact .refl
  | cons pair rest ih => exact (unify_assigns pair.1 pair.2 b).trans (ih _)

/-- Further bindings do not take agreement back. -/
theorem Assigns.alike (assigns : Assigns b b') (acyclic : b.scope.Acyclic) {t u : Term}
    (alike : (b.scope.resolve t).Alike (b.scope.resolve u)) :
    (b'.scope.resolve t).Alike (b'.scope.resolve u) := by
  have kept := assigns.kept acyclic
  have acyclic' := assigns.acyclic acyclic
  rw [kept.resolve acyclic acyclic' t, kept.resolve acyclic acyclic' u]
  exact alike.subst _

/-- A variable that has been bound stands for what its value stands for. -/
theorem walk_of_bindChecked (acyclic : b.scope.Acyclic) {t value : Term} {v : Var}
    (ended : b.scope.walk t = .var v) (bound : b.bindChecked v value = (true, b')) :
    b'.scope.walk t = b'.scope.walk value := by
  have assigns : Assigns b b' := by
    have made := bindChecked_assigns value ended
    rwa [bound] at made
  have found : b'.scope.get? v = some value := by
    unfold bindChecked at bound
    split at bound
    · simp at bound
    · obtain rfl : b.assign v value = b' := by simpa using bound
      exact Scope.get?_bind_self _ _ _
  have acyclic' := assigns.acyclic acyclic
  rw [(assigns.kept acyclic).walk acyclic', ended, Scope.walk_of_bound acyclic' found]

/-- Pairs that unify one after the other agree under the bindings of all of them. -/
theorem unifyPairs_alike {unify : Term → Term → Bindings → Option (Bool × Bindings)}
    (made : ∀ x y b result, unify x y b = some result → Assigns b result.2)
    (each : ∀ x y b b', b.scope.Acyclic → unify x y b = some (true, b') →
      (b'.scope.resolve x).Alike (b'.scope.resolve y))
    (xs ys : List Term) (b b' : Bindings) (acyclic : b.scope.Acyclic)
    (unified : unifyPairs unify xs ys b = some (true, b')) :
    List.Forall₂ Term.Alike (xs.map b'.scope.resolve) (ys.map b'.scope.resolve) := by
  induction xs generalizing ys b with
  | nil =>
    cases ys with
    | nil => exact .nil
    | cons y ys => simp [unifyPairs] at unified
  | cons x xs ih =>
    cases ys with
    | nil => simp [unifyPairs] at unified
    | cons y ys =>
      simp only [unifyPairs] at unified
      split at unified
      · rename_i next first
        have acyclic' := (made x y b _ first).acyclic acyclic
        have rest : Assigns next b' := unifyPairs_assigns made xs ys next _ unified
        have here := rest.alike acyclic' (each x y b next acyclic first)
        exact .cons here (ih ys next acyclic' unified)
      · rename_i failed
        exact absurd unified (failed b')

/-- At every level terms that unify agree: later siblings may change what earlier ones stand for,
but both sides in the same way. -/
theorem unifyWithin_alike (depth : Nat) (left right : Term) (b b' : Bindings)
    (acyclic : b.scope.Acyclic) (unified : unifyWithin depth left right b = some (true, b')) :
    (b'.scope.resolve left).Alike (b'.scope.resolve right) := by
  induction depth generalizing left right b b' with
  | zero => simp [unifyWithin] at unified
  | succ depth ih =>
    have assigns : Assigns b b' := unifyWithin_assigns _ left right b _ unified
    have acyclic' := assigns.acyclic acyclic
    have kept := assigns.kept acyclic
    have pairs (xs ys : List Term)
        (paired : unifyPairs (unifyWithin depth) xs ys b = some (true, b')) :
        List.Forall₂ Term.Alike (xs.map b'.scope.resolve) (ys.map b'.scope.resolve) :=
      unifyPairs_alike (unifyWithin_assigns depth) (fun x y b b' => ih x y b b') xs ys b b'
        acyclic paired
    -- Both sides are read at the ends of their old walks.
    have one := Scope.resolve_of_walk acyclic' (kept.walk acyclic' left)
    have other := Scope.resolve_of_walk acyclic' (kept.walk acyclic' right)
    have last := Scope.walk_walk acyclic left
    have last' := Scope.walk_walk acyclic right
    rw [one, other]
    have met := unifyWithin_meets depth left right b
    generalize unifyWithin (depth + 1) left right b = outcome at met unified
    generalize b.scope.walk left = start at *
    generalize b.scope.walk right = goal at *
    cases met with
    | same x => exact Term.Alike.refl _
    | right different =>
      have bound := walk_of_bindChecked acyclic last' (Option.some.inj unified)
      rw [Scope.resolve_of_walk acyclic' bound]
      exact Term.Alike.refl _
    | left compound =>
      have bound := walk_of_bindChecked acyclic last (Option.some.inj unified)
      rw [Scope.resolve_of_walk acyclic' bound]
      exact Term.Alike.refl _
    | num m n =>
      obtain ⟨equal, -⟩ : m.equals n = true ∧ b = b' := by simpa using unified
      simp [Scope.resolve_eq acyclic', Scope.walk, Term.Alike, Term.erased, Term.agrees, equal]
    | str s t =>
      obtain ⟨rfl, -⟩ : s = t ∧ b = b' := by simpa using unified
      exact Term.Alike.refl _
    | seq lengths =>
      rw [Scope.resolve_seq, Scope.resolve_seq, Term.alike_seq_iff]
      exact pairs _ _ unified
    | lit lengths =>
      rw [Scope.resolve_lit, Scope.resolve_lit, Term.alike_lit_iff]
      exact ⟨rfl, pairs _ _ unified⟩
    | clash apart => simp at unified

/-- Where two terms have unified, their values agree without their annotations, and they still do
after any further unifications. -/
theorem unify_agrees (b b' : Bindings) (left right : Term)
    (straight : ∀ v, ¬Relation.TransGen b.scope.Points v v)
    (unified : b.unify left right = (true, b')) (later : List (Term × Term)) :
    let s := (b'.afterUnifying later).scope
    (s.resolve left).erased.agrees (s.resolve right).erased = true := by
  have acyclic := Scope.acyclic_iff.mpr straight
  obtain ⟨depth, answered⟩ := unify_within acyclic left right
  rw [unified] at answered
  have alike := unifyWithin_alike depth left right b b' acyclic answered
  have acyclic' := (unifyWithin_assigns depth left right b _ answered).acyclic acyclic
  exact (afterUnifying_assigns b' later).alike acyclic' alike

/-- `p(X, 1)[u]` unifies with `p(f(Y)[w], 1.0)`, which binds `X` with its annotation, and a binding
of `Y` to `q[z]` leaves them alike. -/
theorem unify_agrees_annotated :
    let left : Term := .lit "p" [.var ⟨1⟩, .int 1] [.atom "u"]
    let right : Term := .lit "p" [.lit "f" [.var ⟨2⟩] [.atom "w"], .num (.float (.ofInt 1))] []
    let b' : Bindings := ({} : Bindings).assign ⟨1⟩ (.lit "f" [.var ⟨2⟩] [.atom "w"])
    let s := (b'.afterUnifying [(.var ⟨2⟩, .lit "q" [] [.atom "z"])]).scope
    ({} : Bindings).unify left right = (true, b') ∧
      (s.resolve left).erased.agrees (s.resolve right).erased = true := by
  intro left right b' s
  -- The float stays a variable while the bindings are computed.
  have unified (n : Number) (same : (Number.int 1).equals n = true) :
      ({} : Bindings).unify left (.lit "p" [.lit "f" [.var ⟨2⟩] [.atom "w"], .num n] []) =
        (true, b') := by
    simp [unify, usualDepth, unifyWithin, unifyPairs, bindChecked, assign, Scope.walk, Scope.get?,
      Scope.find?, Scope.bind, Scope.occurs, Scope.occursWithin, Term.int, Term.atom, left, b', same]
  have equal : (Number.int 1).equals (.float (.ofInt 1)) = true := by decide +kernel
  have straight (v : Var) : ¬Relation.TransGen ({} : Bindings).scope.Points v v := by
    apply Scope.acyclic_iff.mp
    exact Scope.empty_acyclic
  exact ⟨unified _ equal, unify_agrees {} b' left right straight (unified _ equal) _⟩

end Bindings

end Deliberation
