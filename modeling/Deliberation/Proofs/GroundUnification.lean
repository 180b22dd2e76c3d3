import Deliberation.Proofs.ReaderAgreement
import Deliberation.Proofs.TermEquality

/-! Unification of ground terms decides whether their values are equal without their annotations, and
does nothing else: there is no variable to bind, however far behind bindings the values are. Numbers
are compared by their value on both sides, so a NaN does not unify with itself. -/
namespace Deliberation

namespace Term

theorem length_erasedAll (items : List Term) : (erasedAll items).length = items.length := by
  induction items with
  | nil => rfl
  | cons t rest ih => simp [erasedAll, ih]

/-- Lists of different lengths are not equal, with or without annotations. -/
theorem equalsAll_erasedAll_of_lengths {xs ys : List Term} (apart : xs.length ≠ ys.length) :
    equalsAll (erasedAll xs) (erasedAll ys) = false := by
  rw [← Bool.not_eq_true]
  intro same
  have lengths := length_of_equalsAll same
  rw [length_erasedAll, length_erasedAll] at lengths
  exact apart lengths

end Term

namespace Scope

variable {s : Scope} {t : Term}

/-- Whatever a ground term stands for, its parts are ground. -/
theorem isGround_part (acyclic : s.Acyclic) (ground : s.isGround t = true) {part : Term}
    (inside : part ∈ (s.walk t).parts) : s.isGround part = true := by
  rw [isGround_eq acyclic] at ground
  cases ended : s.walk t with
  | var u => simp [ended] at ground
  | _ =>
    rw [ended] at ground inside
    exact List.all_eq_true.mp ground part inside

theorem walk_ne_var_of_ground (acyclic : s.Acyclic) (ground : s.isGround t = true) (u : Var) :
    s.walk t ≠ .var u := by
  intro ended
  rw [isGround_eq acyclic, ended] at ground
  simp at ground

end Scope

namespace Bindings

variable {b : Bindings}

/-- The answer to ground terms: whether their values are equal without annotations. -/
def decided (b : Bindings) (left right : Term) : Bool :=
  (b.scope.resolve left).erased.equals (b.scope.resolve right).erased

/-- Ground pairs are compared one after the other, from the same bindings. -/
theorem unifyPairs_ground {unify : Term → Term → Bindings → Option (Bool × Bindings)}
    {xs ys : List Term} {result : Bool × Bindings}
    (each : ∀ x ∈ xs, ∀ y ∈ ys, ∀ result, unify x y b = some result →
      result = (b.decided x y, b))
    (answered : unifyPairs unify xs ys b = some result) :
    result = (Term.equalsAll (Term.erasedAll (xs.map b.scope.resolve))
      (Term.erasedAll (ys.map b.scope.resolve)), b) := by
  induction xs generalizing ys with
  | nil => cases ys <;> exact (Option.some.inj answered).symm
  | cons x xs ih =>
    cases ys with
    | nil => exact (Option.some.inj answered).symm
    | cons y ys =>
      rw [unifyPairs_cons] at answered
      obtain ⟨first, here, rest⟩ := Option.bind_eq_some_iff.mp answered
      obtain rfl := each x List.mem_cons_self y List.mem_cons_self first here
      have later := @ih ys fun x member y member' =>
        each x (List.mem_cons_of_mem _ member) y (List.mem_cons_of_mem _ member')
      simp only [List.map_cons, Term.erasedAll, Term.equalsAll]
      change result = (b.decided x y && _, b)
      cases same : b.decided x y with
      | false => simpa [same] using rest.symm
      | true => simpa [same] using later (by simpa [same] using rest)

theorem unifyWithin_ground (depth : Nat) {left right : Term} {result : Bool × Bindings}
    (acyclic : b.scope.Acyclic) (ground : b.scope.isGround left = true)
    (ground' : b.scope.isGround right = true)
    (answered : unifyWithin depth left right b = some result) :
    result = (b.decided left right, b) := by
  induction depth generalizing left right result with
  | zero => simp [unifyWithin] at answered
  | succ depth ih =>
    have pairs (xs ys : List Term) (left_parts : ∀ x ∈ xs, x ∈ (b.scope.walk left).parts)
        (right_parts : ∀ y ∈ ys, y ∈ (b.scope.walk right).parts)
        (paired : unifyPairs (unifyWithin depth) xs ys b = some result) :=
      unifyPairs_ground (fun x here y there _ => ih
        (Scope.isGround_part acyclic ground (left_parts x here))
        (Scope.isGround_part acyclic ground' (right_parts y there))) paired
    have compound := Scope.walk_ne_var_of_ground acyclic ground
    have compound' := Scope.walk_ne_var_of_ground acyclic ground'
    rw [decided, Scope.resolve_eq acyclic left, Scope.resolve_eq acyclic right]
    unfold unifyWithin at answered
    generalize b.scope.walk left = one at *
    generalize b.scope.walk right = other at *
    cases one <;> cases other
    case seq.seq xs ys =>
      simp only [Term.erased, Term.equals] at answered ⊢
      split at answered
      · exact pairs xs ys (fun _ => id) (fun _ => id) answered
      · rename_i lengths
        rw [Term.equalsAll_erasedAll_of_lengths (by simpa using lengths)]
        exact (Option.some.inj answered).symm
    case lit.lit f xs as g ys bs =>
      simp only [Term.erased, Term.equals, Term.equalsAll, Bool.and_true] at answered ⊢
      split at answered
      · rename_i alike
        rw [beq_iff_eq.mpr alike.1, Bool.true_and]
        exact pairs xs ys (fun _ => List.mem_append_left _) (fun _ => List.mem_append_left _) answered
      · rename_i apart
        obtain rfl := Option.some.inj answered
        rcases Decidable.not_and_iff_not_or_not.mp apart with functors | lengths
        · rw [beq_false_of_ne functors, Bool.false_and]
        · rw [Term.equalsAll_erasedAll_of_lengths (by simpa using lengths), Bool.and_false]
    all_goals
      first
      | exact absurd rfl (compound _)
      | exact absurd rfl (compound' _)
      | exact (Option.some.inj answered).symm

/-- Two terms that are ground, however far behind bindings, have values, and unification succeeds
just when these are equal once all annotations are erased. Bindings and trail stay as they are. -/
theorem ground_unification (b : Bindings) (left right : Term)
    (straight : ∀ v, ¬Relation.TransGen b.scope.Points v v)
    (ground : b.scope.isGround left = true) (ground' : b.scope.isGround right = true) :
    ∃ value value', b.scope.grounded left = .ok value ∧ b.scope.grounded right = .ok value' ∧
      b.unify left right = (value.erased.equals value'.erased, b) := by
  have acyclic := Scope.acyclic_iff.mpr straight
  obtain ⟨depth, answered⟩ := unify_within acyclic left right
  refine ⟨_, _, Scope.grounded_of_ground acyclic ground, Scope.grounded_of_ground acyclic ground', ?_⟩
  exact unifyWithin_ground depth acyclic ground ground' answered

/-- With `X = Y` and `Y = f(1)[a]`, `p(X)[u]` and `p(f(1.0))` unify, a NaN does not unify with itself,
and nothing is bound. -/
theorem ground_unification_behind_bindings :
    let b := (({} : Bindings).assign ⟨2⟩ (.lit "f" [.int 1] [.atom "a"])).assign ⟨1⟩ (.var ⟨2⟩)
    let left : Term := .lit "p" [.var ⟨1⟩] [.atom "u"]
    let right : Term := .lit "p" [.lit "f" [.num (.float (.ofInt 1))] []] []
    let nan : Term := .num (.float (.nan false))
    (b.scope.isGround left = true ∧ b.scope.isGround right = true ∧
        b.unify left right = (true, b)) ∧
      b.scope.isGround nan = true ∧ b.unify nan nan = (false, b) := by
  intro b left right nan
  have acyclic : b.scope.Acyclic := by
    refine Scope.bind_acyclic_of_occurs (Scope.bind_acyclic_of_occurs ?_ rfl rfl) rfl rfl
    exact Scope.empty_acyclic
  have straight := Scope.acyclic_iff.mp acyclic
  obtain ⟨value, value', given, given', unified⟩ := ground_unification b left right straight rfl rfl
  obtain ⟨number, number', same, same', apart⟩ := ground_unification b nan nan straight rfl rfl
  obtain rfl := Except.ok.inj given
  obtain rfl := Except.ok.inj given'
  obtain rfl := Except.ok.inj same
  obtain rfl := Except.ok.inj same'
  refine ⟨⟨rfl, rfl, unified.trans ?_⟩, rfl, apart.trans ?_⟩
  · have equal : (b.scope.resolve left).erased.equals (b.scope.resolve right).erased = true := by
      decide +kernel
    rw [equal]
  · have unequal : (b.scope.resolve nan).erased.equals (b.scope.resolve nan).erased = false := by
      decide +kernel
    rw [unequal]

end Bindings

end Deliberation
