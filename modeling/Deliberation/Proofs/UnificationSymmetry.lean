import Deliberation.Proofs.ResolvedUnification
import Deliberation.Proofs.TermEquality
import Mathlib.Logic.Equiv.Basic

/-! Unification does not care which term is the left one. Of two unbound variables the right one is
bound, so the two orders build different chains of bindings and leave different variables unbound.
But in both orders all walks end at the same terms, or at variables that a permutation leads into
each other, and every later comparison and every occurs check goes by that. -/
namespace Deliberation

/-- A variable is renamed; any other term stays as it is, its parts included. -/
def Term.renamedTop (names : Var → Var) : Term → Term
  | var v => var (names v)
  | t => t

namespace Scope

variable {s s' : Scope} {names : Equiv.Perm Var}

theorem walk_bind_of_ne (acyclic : s.Acyclic) {v : Var} {value t : Term} (free : s.get? v = none)
    (apart : s.occurs v value = false) (other : s.walk t ≠ .var v) :
    (s.bind v value).walk t = s.walk t := by
  have acyclic' := bind_acyclic_of_occurs acyclic free apart
  rw [(extends_bind free value).walk acyclic']
  cases ended : s.walk t with
  | var u =>
    have different : u ≠ v := fun same => other (by rw [ended, same])
    apply walk_of_unbound
    rw [get?_bind_of_ne s value different]
    exact walk_unbound acyclic ended
  | _ => rfl

/-- What stood for the variable stands for its value now. -/
theorem walk_bind_of_eq (acyclic : s.Acyclic) {v : Var} {value t : Term} (free : s.get? v = none)
    (apart : s.occurs v value = false) (ended : s.walk t = .var v) :
    (s.bind v value).walk t = s.walk value := by
  have acyclic' := bind_acyclic_of_occurs acyclic free apart
  have other : s.walk value ≠ .var v := by
    intro inside
    rw [occurs_eq acyclic, inside] at apart
    simp at apart
  rw [(extends_bind free value).walk acyclic', ended, walk_of_bound acyclic' (get?_bind_self ..)]
  exact walk_bind_of_ne acyclic free apart other

theorem occurs_of_unbound (acyclic : s.Acyclic) {x y : Var} (free : s.get? y = none)
    (different : x ≠ y) : s.occurs x (.var y) = false := by
  rw [occurs_eq acyclic, walk_of_unbound free]
  simpa using different.symm

/-- All walks end at the same terms, or at variables that the permutation leads from those of the
second scope to those of the first. -/
structure Mirrors (names : Equiv.Perm Var) (s s' : Scope) : Prop where
  acyclic : s.Acyclic
  acyclic' : s'.Acyclic
  walks : ∀ t, s.walk t = (s'.walk t).renamedTop names

theorem Mirrors.refl (acyclic : s.Acyclic) : Mirrors (Equiv.refl Var) s s where
  acyclic := acyclic
  acyclic' := acyclic
  walks t := by cases s.walk t <;> rfl

theorem Mirrors.walk_var_iff (mirrors : Mirrors names s s') {t : Term} {v : Var} :
    s.walk t = .var (names v) ↔ s'.walk t = .var v := by
  rw [mirrors.walks]
  cases s'.walk t <;> simp [Term.renamedTop]

theorem Mirrors.unbound (mirrors : Mirrors names s s') {v : Var} (free : s'.get? v = none) :
    s.get? (names v) = none :=
  walk_unbound mirrors.acyclic (mirrors.walk_var_iff.mpr (walk_of_unbound free))

/-- Whole values differ by the permutation only. -/
theorem Mirrors.resolve (mirrors : Mirrors names s s') (t : Term) :
    s.resolve t = (s'.resolve t).subst fun v => .var (names v) := by
  induction t using (descents_end mirrors.acyclic').induction with
  | h t ih =>
    have all (items : List Term) (inside : ∀ part ∈ items, part ∈ (s'.walk t).parts) :
        items.map s.resolve =
          (items.map s'.resolve).map (Term.subst fun v => .var (names v)) := by
      rw [List.map_map]
      exact List.map_congr_left fun part member => ih part (inside part member)
    rw [resolve_eq mirrors.acyclic, resolve_eq mirrors.acyclic', mirrors.walks]
    cases ended : s'.walk t with
    | seq items =>
      rw [ended] at all
      simp only [Term.renamedTop, Term.subst_seq, all items fun _ => id]
    | lit functor args annots =>
      rw [ended] at all
      simp only [Term.renamedTop, Term.subst_lit, all args fun _ => List.mem_append_left _,
        all annots fun _ => List.mem_append_right _]
    | _ => rfl

theorem Mirrors.occurs (mirrors : Mirrors names s s') (v : Var) (t : Term) :
    s.occurs (names v) t = s'.occurs v t := by
  rw [Bool.eq_iff_iff, occurs_iff mirrors.acyclic, occurs_iff mirrors.acyclic', mirrors.resolve,
    Term.vars_subst]
  simp

/-- The same value is bound on both sides. -/
theorem Mirrors.bind (mirrors : Mirrors names s s') {v : Var} {value : Term}
    (free : s'.get? v = none) (apart : s'.occurs v value = false) :
    Mirrors names (s.bind (names v) value) (s'.bind v value) := by
  have acyclic := mirrors.acyclic
  have acyclic' := mirrors.acyclic'
  have free₁ := mirrors.unbound free
  have apart₁ : s.occurs (names v) value = false := by rw [mirrors.occurs, apart]
  refine ⟨bind_acyclic_of_occurs acyclic free₁ apart₁,
    bind_acyclic_of_occurs acyclic' free apart, fun t => ?_⟩
  by_cases ended : s'.walk t = .var v
  · rw [walk_bind_of_eq acyclic' free apart ended,
      walk_bind_of_eq acyclic free₁ apart₁ (mirrors.walk_var_iff.mpr ended)]
    exact mirrors.walks value
  · have ended₁ : s.walk t ≠ .var (names v) := fun other => ended (mirrors.walk_var_iff.mp other)
    rw [walk_bind_of_ne acyclic' free apart ended, walk_bind_of_ne acyclic free₁ apart₁ ended₁]
    exact mirrors.walks t

/-- Of two unbound variables each side binds another one. The ones that are left stand for each
other from then on. -/
theorem Mirrors.bind_across (mirrors : Mirrors names s s') {x y : Var} (different : x ≠ y)
    (free : s'.get? x = none) (free' : s'.get? y = none) :
    Mirrors ((Equiv.swap x y).trans names) (s.bind (names y) (.var (names x)))
      (s'.bind x (.var y)) := by
  have free₁ := mirrors.unbound free
  have free₁' := mirrors.unbound free'
  have apart := occurs_of_unbound mirrors.acyclic' free' different
  have apart₁ := occurs_of_unbound mirrors.acyclic free₁ (names.injective.ne different.symm)
  refine ⟨bind_acyclic_of_occurs mirrors.acyclic free₁' apart₁,
    bind_acyclic_of_occurs mirrors.acyclic' free apart, fun t => ?_⟩
  by_cases first : s'.walk t = .var x
  · have first₁ : s.walk t = .var (names x) := mirrors.walk_var_iff.mpr first
    have other : s.walk t ≠ .var (names y) := by simpa [first₁] using different
    rw [walk_bind_of_ne mirrors.acyclic free₁' apart₁ other, first₁,
      walk_bind_of_eq mirrors.acyclic' free apart first, walk_of_unbound free']
    simp [Term.renamedTop]
  · rw [walk_bind_of_ne mirrors.acyclic' free apart first]
    by_cases second : s'.walk t = .var y
    · rw [walk_bind_of_eq mirrors.acyclic free₁' apart₁ (mirrors.walk_var_iff.mpr second),
        walk_of_unbound free₁, second]
      simp [Term.renamedTop]
    · rw [walk_bind_of_ne mirrors.acyclic free₁' apart₁
        fun ended => second (mirrors.walk_var_iff.mp ended), mirrors.walks]
      cases ended : s'.walk t with
      | var w =>
        have one : w ≠ x := fun same => first (by rw [ended, same])
        have other : w ≠ y := fun same => second (by rw [ended, same])
        simp [Term.renamedTop, Equiv.swap_apply_of_ne_of_ne one other]
      | _ => rfl

end Scope

namespace Bindings

variable {b b' : Bindings} {names : Equiv.Perm Var}

structure Mirrors (names : Equiv.Perm Var) (b b' : Bindings) : Prop where
  scopes : Scope.Mirrors names b.scope b'.scope
  size : b.scope.size = b'.scope.size

/-- Both answers are no, or both are yes and the bindings mirror each other. -/
inductive Mirrored : Bool × Bindings → Bool × Bindings → Prop where
  | no (c c' : Bindings) : Mirrored (false, c) (false, c')
  | yes {names : Equiv.Perm Var} {c c' : Bindings} (mirrors : Mirrors names c c') :
      Mirrored (true, c) (true, c')

theorem Mirrors.unchanged (mirrors : Mirrors names b b') (ok : Bool) :
    Mirrored (ok, b) (ok, b') := by
  cases ok with
  | false => exact .no b b'
  | true => exact .yes mirrors

theorem Mirrors.bindChecked (mirrors : Mirrors names b b') {v : Var}
    (free : b'.scope.get? v = none) (value : Term) :
    Mirrored (b.bindChecked (names v) value) (b'.bindChecked v value) := by
  unfold Bindings.bindChecked
  rw [mirrors.scopes.occurs]
  cases apart : b'.scope.occurs v value with
  | true => exact .no b b'
  | false =>
    exact .yes ⟨mirrors.scopes.bind free apart, congrArg (· + 1) mirrors.size⟩

theorem Mirrors.bindAcross (mirrors : Mirrors names b b') {x y : Var} (different : x ≠ y)
    (free : b'.scope.get? x = none) (free' : b'.scope.get? y = none) :
    Mirrored (b.bindChecked (names y) (.var (names x))) (b'.bindChecked x (.var y)) := by
  have apart := Scope.occurs_of_unbound mirrors.scopes.acyclic' free' different
  have apart₁ := Scope.occurs_of_unbound mirrors.scopes.acyclic (mirrors.scopes.unbound free)
    (names.injective.ne different.symm)
  simp only [Bindings.bindChecked, apart, apart₁, Bool.false_eq_true, if_false]
  exact .yes ⟨mirrors.scopes.bind_across different free free', congrArg (· + 1) mirrors.size⟩

/-- Pairs that are unified with either term on the left. -/
theorem unifyPairs_mirrored {unify unify' : Term → Term → Bindings → Option (Bool × Bindings)}
    (each : ∀ names b b' x y, Mirrors names b b' →
      ∀ r ∈ unify x y b, ∀ r' ∈ unify' y x b', Mirrored r r')
    (xs ys : List Term) (mirrors : Mirrors names b b') :
    ∀ r ∈ unifyPairs unify xs ys b, ∀ r' ∈ unifyPairs unify' ys xs b', Mirrored r r' := by
  induction xs generalizing ys names b b' with
  | nil =>
    cases ys <;>
      · rintro _ ⟨⟩ _ ⟨⟩
        exact mirrors.unchanged _
  | cons x xs ih =>
    cases ys with
    | nil =>
      rintro _ ⟨⟩ _ ⟨⟩
      exact mirrors.unchanged false
    | cons y ys =>
      rw [unifyPairs_cons, unifyPairs_cons]
      intro r made r' made'
      obtain ⟨a, one, rest⟩ := Option.bind_eq_some_iff.mp made
      obtain ⟨a', other, rest'⟩ := Option.bind_eq_some_iff.mp made'
      cases each names b b' x y mirrors a one a' other with
      | no c c' =>
        obtain rfl := Option.some.inj rest
        obtain rfl := Option.some.inj rest'
        exact .no c c'
      | yes next => exact ih ys next r rest r' rest'

theorem unifyWithin_mirrored (depth depth' : Nat) (left right : Term)
    (mirrors : Mirrors names b b') :
    ∀ r ∈ unifyWithin depth left right b, ∀ r' ∈ unifyWithin depth' right left b',
      Mirrored r r' := by
  induction depth generalizing depth' left right names b b' with
  | zero => simp [unifyWithin]
  | succ depth ih =>
    obtain _ | depth' := depth'
    · simp [unifyWithin]
    have pairs (xs ys : List Term) :
        ∀ r ∈ unifyPairs (unifyWithin depth) xs ys b,
          ∀ r' ∈ unifyPairs (unifyWithin depth') ys xs b', Mirrored r r' :=
      unifyPairs_mirrored (fun names b b' x y => ih depth' x y) xs ys mirrors
    have unbound {t : Term} {v : Var} (ended : b'.scope.walk t = .var v) :
        b'.scope.get? v = none := Scope.walk_unbound mirrors.scopes.acyclic' ended
    unfold unifyWithin
    rw [mirrors.scopes.walks, mirrors.scopes.walks]
    cases one : b'.scope.walk left <;> cases other : b'.scope.walk right <;>
      simp only [Term.renamedTop]
    case var.var x y =>
      rintro _ ⟨⟩ _ ⟨⟩
      by_cases same : x = y
      · simpa [same] using mirrors.unchanged true
      · simpa [same, Ne.symm same] using mirrors.bindAcross same (unbound one) (unbound other)
    case num.num m n =>
      rintro _ ⟨⟩ _ ⟨⟩
      rw [Number.equals_comm]
      exact mirrors.unchanged _
    case str.str text text' =>
      rintro _ ⟨⟩ _ ⟨⟩
      rw [BEq.comm]
      exact mirrors.unchanged _
    case seq.seq xs ys =>
      simp only [eq_comm (a := ys.length)]
      split
      · exact pairs xs ys
      · rintro _ ⟨⟩ _ ⟨⟩
        exact .no b b'
    case lit.lit functor xs annots functor' ys annots' =>
      simp only [eq_comm (a := ys.length), eq_comm (a := functor')]
      split
      · exact pairs xs ys
      · rintro _ ⟨⟩ _ ⟨⟩
        exact .no b b'
    all_goals
      rintro _ ⟨⟩ _ ⟨⟩
      first
      | exact mirrors.bindChecked (unbound one) _
      | exact mirrors.bindChecked (unbound other) _
      | exact .no b b'

/-- Unifying two terms and unifying them the other way round give the same answer. If it is yes, as
many bindings are recorded on the trail, and the values of all terms differ by one and the same
permutation of variables. -/
theorem unify_symmetric (b : Bindings) (left right : Term)
    (straight : ∀ v, ¬Relation.TransGen b.scope.Points v v) :
    (b.unify left right).1 = (b.unify right left).1 ∧
      ((b.unify left right).1 = true →
        (∃ bound bound' : List Var, bound.length = bound'.length ∧
          (b.unify left right).2.trail = bound.map .binding ++ b.trail ∧
          (b.unify right left).2.trail = bound'.map .binding ++ b.trail) ∧
        ∃ names : Var → Var, Function.Bijective names ∧ ∀ t,
          (b.unify left right).2.scope.resolve t =
            ((b.unify right left).2.scope.resolve t).subst fun v => .var (names v)) := by
  have acyclic := Scope.acyclic_iff.mpr straight
  obtain ⟨depth, answer⟩ := unify_within acyclic left right
  obtain ⟨depth', answer'⟩ := unify_within acyclic right left
  have mirrored := unifyWithin_mirrored depth depth' left right
    ⟨Scope.Mirrors.refl acyclic, rfl⟩ _ answer _ answer'
  obtain ⟨added, extended, -⟩ := (unify_assigns left right b).extends
  obtain ⟨added', extended', -⟩ := (unify_assigns right left b).extends
  generalize b.unify left right = result at *
  generalize b.unify right left = result' at *
  cases mirrored with
  | no c c' => exact ⟨rfl, by simp⟩
  | @yes names c c' mirrors =>
    simp only at extended extended'
    subst c c'
    refine ⟨rfl, fun _ => ⟨⟨added.map (·.1), added'.map (·.1), ?_, by simp [extend],
      by simp [extend]⟩, names, names.bijective, mirrors.scopes.resolve⟩⟩
    have size := mirrors.size
    simp only [extend, Scope.size, List.length_append] at size
    simpa using size

/-- With `V = f(U)[u]`, unifying `g(X, V)` and `g(Y, f(1))` leaves `X` unbound in the one order and
`Y` in the other. -/
theorem unify_symmetric_aliases :
    let b : Bindings := ({} : Bindings).assign ⟨4⟩ (.lit "f" [.var ⟨3⟩] [.atom "u"])
    let left : Term := .lit "g" [.var ⟨1⟩, .var ⟨4⟩] []
    let right : Term := .lit "g" [.var ⟨2⟩, .lit "f" [.int 1] []] []
    let one := b.unify left right
    let other := b.unify right left
    (one.1 = true ∧ other.1 = true) ∧
      (one.2.scope.resolve (.var ⟨2⟩) = .var ⟨1⟩ ∧ other.2.scope.resolve (.var ⟨2⟩) = .var ⟨2⟩) ∧
      ∃ names : Var → Var, Function.Bijective names ∧ ∀ t,
        one.2.scope.resolve t = (other.2.scope.resolve t).subst fun v => .var (names v) := by
  intro b left right one other
  have acyclic : b.scope.Acyclic := Scope.bind_acyclic_of_occurs Scope.empty_acyclic rfl rfl
  obtain ⟨-, succeed⟩ := unify_symmetric b left right (Scope.acyclic_iff.mp acyclic)
  exact ⟨⟨rfl, rfl⟩, ⟨rfl, rfl⟩, (succeed rfl).2⟩

end Bindings

end Deliberation
