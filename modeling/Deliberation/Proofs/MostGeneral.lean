import Deliberation.Proofs.UnificationSteps

/-! Unification finds a most general solution whenever there is one. A solution replaces variables
so that every bound variable becomes equal to its value. If some solution of a scope makes two terms
equal, they unify, and it solves the resulting scope too: the new bindings say no more than that the
terms are equal. Annotations may be there; equal means equal with them. -/
namespace Deliberation

/-- The replacement makes every bound variable equal to its value. -/
def Scope.SolvedBy (s : Scope) (f : Var → Term) : Prop :=
  ∀ v value, s.get? v = some value → f v = value.subst f

namespace Term

/-- Every number in the term equals itself, which a NaN does not. -/
def Regular (t : Term) : Prop := ∀ n, num n ∈ t.subterms → n.equals n = true

theorem Regular.part {t part : Term} (regular : t.Regular) (inside : part ∈ t.parts) :
    part.Regular :=
  fun n member => regular n (mem_subterms_iff.mpr (.inr ⟨part, inside, member⟩))

theorem parts_subst {t : Term} (compound : ∀ v, t ≠ var v) (f : Var → Term) :
    (t.subst f).parts = t.parts.map (subst f) := by
  cases t with
  | var v => exact absurd rfl (compound v)
  | seq items => simp [parts]
  | lit functor args annots => simp [parts]
  | _ => rfl

/-- A part stays smaller than the whole, whatever replaces the variables. -/
theorem size_subst_of_part {t part : Term} (inside : part ∈ t.parts) (f : Var → Term) :
    (part.subst f).size < (t.subst f).size := by
  have compound : ∀ v, t ≠ var v := by
    rintro v rfl
    simp [parts] at inside
  apply size_of_part
  rw [parts_subst compound]
  exact List.mem_map_of_mem inside

end Term

namespace Scope

variable {s : Scope} {f : Var → Term}

theorem SolvedBy.walk (solved : s.SolvedBy f) (t : Term) : (s.walk t).subst f = t.subst f := by
  apply walk_induction (motive := fun reached => reached.subst f = t.subst f) _ rfl
  intro v value found reached
  rw [← solved v value found]
  exact reached

/-- The value of a variable is no larger than that of a term it occurs in, and it is smaller unless
the term stands for the variable. -/
theorem SolvedBy.size_le_of_occurs (solved : s.SolvedBy f) (acyclic : s.Acyclic) {v : Var}
    {t : Term} (inside : s.occurs v t = true) :
    (f v).size ≤ (t.subst f).size ∧
      ((∀ u, s.walk t ≠ .var u) → (f v).size < (t.subst f).size) := by
  induction t using (descents_end acyclic).induction with
  | h t ih =>
    have within : (∃ u, s.walk t = .var u) ∨ ∃ part ∈ (s.walk t).parts, s.occurs v part = true := by
      rw [occurs_eq acyclic] at inside
      cases ended : s.walk t with
      | var u => exact .inl ⟨u, rfl⟩
      | _ => simpa [ended] using inside
    rcases within with ⟨u, ended⟩ | ⟨part, component, deeper⟩
    · have same : u = v := by
        rw [occurs_eq acyclic, ended] at inside
        simpa using inside
      rw [← solved.walk t, ended, ← same]
      exact ⟨Nat.le_refl _, fun compound => absurd rfl (compound u)⟩
    · have below := (ih part component deeper).1
      have smaller := Term.size_subst_of_part component f
      rw [solved.walk] at smaller
      exact ⟨by omega, fun _ => by omega⟩

/-- A scope without cycles that a replacement solves, with no number that differs from itself. -/
structure Admits (s : Scope) (f : Var → Term) : Prop where
  acyclic : s.Acyclic
  regular : ∀ v value, s.get? v = some value → value.Regular
  solved : s.SolvedBy f

theorem Admits.walk_regular (admits : s.Admits f) {t : Term} (regular : t.Regular) :
    (s.walk t).Regular :=
  walk_induction (fun v value found _ => admits.regular v value found) regular

end Scope

namespace Bindings

variable {b : Bindings} {f : Var → Term}

/-- The occurs check lets a binding pass that agrees with a solution: a variable cannot be equal to
a term that properly contains it. -/
theorem bindChecked_admits (admits : b.scope.Admits f) {t value : Term} {v : Var}
    (ended : b.scope.walk t = .var v) (last : b.scope.walk value = value)
    (regular : value.Regular) (different : value ≠ .var v) (same : f v = value.subst f) :
    (b.bindChecked v value).1 = true ∧ (b.bindChecked v value).2.scope.Admits f := by
  have apart : b.scope.occurs v value = false := by
    by_contra occurs
    have inside : b.scope.occurs v value = true := by simpa using occurs
    have sizes := (admits.solved.size_le_of_occurs admits.acyclic inside).2
    rw [last, ← same] at sizes
    cases value with
    | var u =>
      rw [Scope.occurs_eq admits.acyclic, last] at inside
      exact different (by simpa using inside)
    | _ => exact absurd (sizes (by simp)) (Nat.lt_irrefl _)
  have assigned : b.bindChecked v value = (true, b.assign v value) := by
    simp [bindChecked, apart]
  have assigns : Assigns b (b.assign v value) := .single ⟨t, v, value, ended, apart, rfl⟩
  have entry (w : Var) (other : Term) (found : (b.scope.bind v value).get? w = some other) :
      w = v ∧ other = value ∨ b.scope.get? w = some other := by
    by_cases equal : w = v
    · subst equal
      exact .inl ⟨rfl, by simpa [eq_comm] using found⟩
    · exact .inr (by simpa [Scope.get?_bind_of_ne _ _ equal] using found)
  rw [assigned]
  refine ⟨rfl, assigns.acyclic admits.acyclic, ?_, ?_⟩
  · intro w other found
    rcases entry w other found with ⟨rfl, rfl⟩ | old
    · exact regular
    · exact admits.regular w other old
  · intro w other found
    rcases entry w other found with ⟨rfl, rfl⟩ | old
    · exact same
    · exact admits.solved w other old

/-- Pairs that are equal under a solution unify one after the other. -/
theorem unifyPairs_admits {unify : Term → Term → Bindings → Option (Bool × Bindings)}
    (xs ys : List Term) (same : xs.map (Term.subst f) = ys.map (Term.subst f))
    (each : ∀ x ∈ xs, ∀ y ∈ ys, x.subst f = y.subst f → ∀ b result, b.scope.Admits f →
      unify x y b = some result → result.1 = true ∧ result.2.scope.Admits f)
    (b : Bindings) (result : Bool × Bindings) (admits : b.scope.Admits f)
    (answered : unifyPairs unify xs ys b = some result) :
    result.1 = true ∧ result.2.scope.Admits f := by
  induction xs generalizing ys b with
  | nil =>
    obtain rfl : ys = [] := by simpa using same.symm
    obtain rfl := Option.some.inj answered
    exact ⟨rfl, admits⟩
  | cons x xs ih =>
    cases ys with
    | nil => simp at same
    | cons y ys =>
      simp only [List.map_cons, List.cons.injEq] at same
      cases first : unify x y b with
      | none => simp [unifyPairs, first] at answered
      | some found =>
        obtain ⟨ok, next⟩ := found
        obtain ⟨rfl, kept⟩ :=
          each x List.mem_cons_self y List.mem_cons_self same.1 b (ok, next) admits first
        apply ih ys same.2 _ next kept
        · simpa [unifyPairs, first] using answered
        · intro x here y there
          exact each x (List.mem_cons_of_mem _ here) y (List.mem_cons_of_mem _ there)

/-- Every level of a unification agrees with each solution that makes the two terms equal. -/
theorem unifyWithin_admits (depth : Nat) (left right : Term) (b : Bindings)
    (result : Bool × Bindings) (regular : left.Regular) (regular' : right.Regular)
    (admits : b.scope.Admits f) (same : left.subst f = right.subst f)
    (answered : unifyWithin depth left right b = some result) :
    result.1 = true ∧ result.2.scope.Admits f := by
  induction depth generalizing left right b result with
  | zero => simp [unifyWithin] at answered
  | succ depth ih =>
    have one := admits.walk_regular regular
    have other := admits.walk_regular regular'
    have equal : (b.scope.walk left).subst f = (b.scope.walk right).subst f := by
      rw [admits.solved.walk, admits.solved.walk, same]
    have last := Scope.walk_walk admits.acyclic left
    have last' := Scope.walk_walk admits.acyclic right
    have pairs (xs ys : List Term) (left_parts : ∀ x ∈ xs, x ∈ (b.scope.walk left).parts)
        (right_parts : ∀ y ∈ ys, y ∈ (b.scope.walk right).parts)
        (each : xs.map (Term.subst f) = ys.map (Term.subst f))
        (paired : unifyPairs (unifyWithin depth) xs ys b = some result) :
        result.1 = true ∧ result.2.scope.Admits f := by
      apply unifyPairs_admits xs ys each _ b result admits paired
      intro x here y there same b result admits answered
      exact ih x y b result (one.part (left_parts x here)) (other.part (right_parts y there))
        admits same answered
    have met := unifyWithin_meets depth left right b
    generalize unifyWithin (depth + 1) left right b = outcome at met answered
    generalize start : b.scope.walk left = reached at *
    generalize goal : b.scope.walk right = reached' at *
    cases met with
    | same x =>
      obtain rfl := Option.some.inj answered
      exact ⟨rfl, admits⟩
    | right different =>
      obtain rfl := Option.some.inj answered
      exact bindChecked_admits admits goal last one different equal.symm
    | left compound =>
      obtain rfl := Option.some.inj answered
      exact bindChecked_admits admits start last' other (compound _) equal
    | num m n =>
      obtain rfl := Option.some.inj answered
      obtain rfl : m = n := by simpa [Term.subst] using equal
      exact ⟨one m (Term.mem_subterms_self _), admits⟩
    | str s t =>
      obtain rfl := Option.some.inj answered
      obtain rfl : s = t := by simpa [Term.subst] using equal
      exact ⟨by simp, admits⟩
    | @seq xs ys lengths =>
      apply pairs xs ys (fun _ => id) (fun _ => id) _ answered
      simpa using equal
    | @lit functor xs ys annots annots' lengths =>
      simp only [Term.subst_lit, Term.lit.injEq, true_and] at equal
      exact pairs xs ys (fun _ => List.mem_append_left _) (fun _ => List.mem_append_left _) equal.1
        answered
    | clash apart => exact absurd equal (apart f)

/-- If a replacement of variables solves the scope and makes two terms equal, the terms unify, and
it solves the scope that results. -/
theorem unify_most_general (b : Bindings) (left right : Term) (f : Var → Term)
    (straight : ∀ v, ¬Relation.TransGen b.scope.Points v v)
    (regular : left.Regular ∧ right.Regular ∧
      ∀ v value, b.scope.get? v = some value → value.Regular)
    (solved : b.scope.SolvedBy f) (same : left.subst f = right.subst f) :
    (b.unify left right).1 = true ∧ (b.unify left right).2.scope.SolvedBy f := by
  obtain ⟨one, other, values⟩ := regular
  have acyclic := Scope.acyclic_iff.mpr straight
  obtain ⟨depth, answered⟩ := unify_within acyclic left right
  obtain ⟨unified, admits⟩ :=
    unifyWithin_admits depth left right b _ one other ⟨acyclic, values, solved⟩ same answered
  exact ⟨unified, admits.solved⟩

/-- With `X = f(Y)`, the terms `g(X, Z)` and `g(f(1), Y)` are equal where `Y` and `Z` are 1. -/
theorem unify_most_general_nested :
    let b : Bindings := { scope := ⟨[(⟨1⟩, .lit "f" [.var ⟨2⟩] [])]⟩ }
    let left : Term := .lit "g" [.var ⟨1⟩, .var ⟨3⟩] []
    let right : Term := .lit "g" [.lit "f" [.int 1] [], .var ⟨2⟩] []
    let f : Var → Term := fun v => if v.id = 1 then .lit "f" [.int 1] [] else .int 1
    b.scope.SolvedBy f ∧ left.subst f = right.subst f ∧ (b.unify left right).1 = true ∧
      (b.unify left right).2.scope.SolvedBy f := by
  intro b left right f
  have entry (v : Var) (value : Term) (found : b.scope.get? v = some value) :
      v = ⟨1⟩ ∧ value = .lit "f" [.var ⟨2⟩] [] := by
    by_cases first : (⟨1⟩ : Var) = v
    · exact ⟨first.symm, by simpa [b, Scope.get?, Scope.find?, first, eq_comm] using found⟩
    · simp [b, Scope.get?, Scope.find?, first] at found
  have solved : b.scope.SolvedBy f := by
    intro v value found
    obtain ⟨rfl, rfl⟩ := entry v value found
    rfl
  have acyclic : b.scope.Acyclic := by
    refine ⟨fun v => 3 - v.id, ?_⟩
    intro v value found w member
    obtain ⟨rfl, rfl⟩ := entry v value found
    obtain rfl : w = ⟨2⟩ := by simpa using member
    decide
  have regular : left.Regular ∧ right.Regular ∧
      ∀ v value, b.scope.get? v = some value → value.Regular := by
    refine ⟨?_, ?_, ?_⟩
    · intro n member
      simp [left, Term.subterms, Term.subtermsOfAll] at member
    · intro n member
      obtain rfl : n = .int 1 := by
        simpa [right, Term.subterms, Term.subtermsOfAll, Term.int] using member
      decide
    · intro v value found n member
      obtain ⟨rfl, rfl⟩ := entry v value found
      simp [Term.subterms, Term.subtermsOfAll] at member
  exact ⟨solved, rfl, unify_most_general b left right f (Scope.acyclic_iff.mp acyclic) regular solved
    rfl⟩

end Bindings

end Deliberation
