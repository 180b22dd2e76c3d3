import Deliberation.Proofs.UnificationSteps

/-! Unification comes to an end. To unify two terms is to unify pairs of arguments, each pair from
the bindings that the pairs before it left behind. The arguments come out of the scope as often as
out of the terms, and the scope grows from one pair to the next; still the calls cannot go on
forever. Each of them gives what one level of unification without any bound on the depth gives. -/
namespace Deliberation.Bindings

variable {b : Bindings}

theorem unifyPairs_mono {unify unify' : Term → Term → Bindings → Option (Bool × Bindings)}
    (more : ∀ x y b result, unify x y b = some result → unify' x y b = some result)
    (xs ys : List Term) (b : Bindings) (result : Bool × Bindings)
    (answered : unifyPairs unify xs ys b = some result) :
    unifyPairs unify' xs ys b = some result := by
  induction xs generalizing ys b with
  | nil => cases ys <;> exact answered
  | cons x xs ih =>
    cases ys with
    | nil => exact answered
    | cons y ys =>
      rw [unifyPairs_cons] at answered ⊢
      obtain ⟨⟨ok, next⟩, first, rest⟩ := Option.bind_eq_some_iff.mp answered
      rw [more x y b _ first, Option.bind_some]
      cases ok with
      | false => exact rest
      | true => exact ih ys next rest

/-- A greater depth gives the same answer. -/
theorem unifyWithin_mono {depth depth' : Nat} (enough : depth ≤ depth') (left right : Term)
    (b : Bindings) (result : Bool × Bindings)
    (answered : unifyWithin depth left right b = some result) :
    unifyWithin depth' left right b = some result := by
  induction depth generalizing depth' left right b result with
  | zero => simp [unifyWithin] at answered
  | succ depth ih =>
    obtain ⟨depth', rfl⟩ := Nat.exists_eq_add_of_le' (Nat.lt_of_lt_of_le (Nat.succ_pos _) enough)
    have deeper :=
      unifyPairs_mono fun x y b result => ih (Nat.le_of_succ_le_succ enough) x y b result
    unfold unifyWithin at answered ⊢
    generalize b.scope.walk left = one at *
    generalize b.scope.walk right = other at *
    cases one <;> cases other <;> try exact answered
    case seq.seq xs ys =>
      simp only at answered ⊢
      split at answered
      · rw [if_pos ‹_›]
        exact deeper xs ys b result answered
      · rw [if_neg ‹_›]
        exact answered
    case lit.lit functor xs annots functor' ys annots' =>
      simp only at answered ⊢
      split at answered
      · rw [if_pos ‹_›]
        exact deeper xs ys b result answered
      · rw [if_neg ‹_›]
        exact answered

/-- In an acyclic scope the answer within any depth is the answer. -/
theorem unify_of_within (acyclic : b.scope.Acyclic) {depth : Nat} {left right : Term}
    {result : Bool × Bindings} (answered : unifyWithin depth left right b = some result) :
    b.unify left right = result := by
  obtain ⟨depth', answered'⟩ := unify_within acyclic left right
  have one := unifyWithin_mono (Nat.le_max_left depth depth') left right b _ answered
  have other := unifyWithin_mono (Nat.le_max_right depth depth') left right b _ answered'
  exact Option.some.inj (other.symm.trans one)

theorem unifyEach_of_pairs (acyclic : b.scope.Acyclic) {depth : Nat} {xs ys : List Term}
    (lengths : xs.length = ys.length) {result : Bool × Bindings}
    (answered : unifyPairs (unifyWithin depth) xs ys b = some result) :
    b.unifyEach (xs.zip ys) = result := by
  induction xs generalizing ys b with
  | nil =>
    obtain rfl := List.length_eq_zero_iff.mp lengths.symm
    exact Option.some.inj answered
  | cons x xs ih =>
    cases ys with
    | nil => simp at lengths
    | cons y ys =>
      rw [unifyPairs_cons] at answered
      obtain ⟨⟨ok, next⟩, first, rest⟩ := Option.bind_eq_some_iff.mp answered
      have acyclic' := (unifyWithin_assigns depth x y b _ first).acyclic acyclic
      rw [List.zip_cons_cons, unifyEach, unify_of_within acyclic first]
      cases ok with
      | false => exact Option.some.inj rest
      | true => exact ih acyclic' (by simpa using lengths) rest

/-- Two terms to be unified, and the bindings at that moment. -/
structure Call where
  left : Term
  right : Term
  bindings : Bindings

namespace Call

/-- The arguments to be unified in turn, as they stand at the ends of the walks. -/
def pairs (call : Call) : List (Term × Term) :=
  match call.bindings.scope.walk call.left, call.bindings.scope.walk call.right with
  | .seq xs, .seq ys => if xs.length = ys.length then xs.zip ys else []
  | .lit f xs _, .lit g ys _ => if f = g ∧ xs.length = ys.length then xs.zip ys else []
  | _, _ => []

/-- The first call makes the second one: some pairs have been unified, and the next one is, from the
bindings that they left behind. -/
def Makes (call next : Call) : Prop :=
  ∃ before after, call.pairs = before ++ (next.left, next.right) :: after ∧
    call.bindings.unifyEach before = (true, next.bindings)

/-- One level of unification. There is no bound on the depth of those that it makes. -/
def answer (call : Call) : Bool × Bindings :=
  let b := call.bindings
  match b.scope.walk call.left, b.scope.walk call.right with
  | .var x, .var y => if x = y then (true, b) else b.bindChecked y (.var x)
  | value, .var y => b.bindChecked y value
  | .var x, value => b.bindChecked x value
  | .num m, .num n => (m.equals n, b)
  | .str s, .str t => (s == t, b)
  | .seq xs, .seq ys => if xs.length = ys.length then b.unifyEach call.pairs else (false, b)
  | .lit f xs _, .lit g ys _ =>
    if f = g ∧ xs.length = ys.length then b.unifyEach call.pairs else (false, b)
  | _, _ => (false, b)

end Call

/-- In an acyclic scope unification satisfies the plain recursion. -/
theorem unify_eq_answer (acyclic : b.scope.Acyclic) (left right : Term) :
    b.unify left right = Call.answer ⟨left, right, b⟩ := by
  obtain ⟨depth, answered⟩ := unify_within acyclic left right
  cases depth with
  | zero => simp [unifyWithin] at answered
  | succ depth =>
    unfold unifyWithin at answered
    unfold Call.answer Call.pairs
    simp only
    generalize b.unify left right = result at *
    generalize b.scope.walk left = one at *
    generalize b.scope.walk right = other at *
    cases one <;> cases other <;> try exact (Option.some.inj answered).symm
    case seq.seq xs ys =>
      simp only at answered ⊢
      split at answered
      · rename_i lengths
        simpa only [lengths, if_true] using (unifyEach_of_pairs acyclic lengths answered).symm
      · rename_i lengths
        simpa only [lengths, if_false] using (Option.some.inj answered).symm
    case lit.lit functor xs annots functor' ys annots' =>
      simp only at answered ⊢
      split at answered
      · rename_i alike
        simpa only [alike, and_self, if_true] using
          (unifyEach_of_pairs acyclic alike.2 answered).symm
      · rename_i alike
        simpa only [alike, if_false] using (Option.some.inj answered).symm

theorem unifyEach_values {terms : List Term}
    (closed : ∀ t ∈ terms, ∀ part ∈ t.parts, part ∈ terms) (acyclic : b.scope.Acyclic)
    (values : ValuesIn terms b) {pairs : List (Term × Term)}
    (each : ∀ pair ∈ pairs, pair.1 ∈ terms ∧ pair.2 ∈ terms) :
    ValuesIn terms (b.unifyEach pairs).2 := by
  induction pairs generalizing b with
  | nil => exact values
  | cons pair rest ih =>
    obtain ⟨left, right⟩ := pair
    obtain ⟨here, there⟩ := each _ List.mem_cons_self
    obtain ⟨depth, answered⟩ := unify_within acyclic left right
    have first := unifyWithin_values closed depth left right b _ values here there answered
    have acyclic' := (unify_assigns left right b).acyclic acyclic
    unfold unifyEach
    split
    · rename_i next unified
      rw [unified] at first acyclic'
      exact ih acyclic' first fun pair member => each pair (List.mem_cons_of_mem _ member)
    · exact first

namespace Call

variable {call next : Call}

/-- Only parts of what the two terms stand for are unified in turn. -/
theorem mem_parts_of_mem_pairs {pair : Term × Term} (member : pair ∈ call.pairs) :
    pair.1 ∈ (call.bindings.scope.walk call.left).parts ∧
      pair.2 ∈ (call.bindings.scope.walk call.right).parts := by
  unfold pairs at member
  generalize call.bindings.scope.walk call.left = one at *
  generalize call.bindings.scope.walk call.right = other at *
  cases one <;> cases other <;> simp only [List.not_mem_nil] at member
  case seq.seq xs ys =>
    split at member
    · exact List.of_mem_zip member
    · simp at member
  case lit.lit functor xs annots functor' ys annots' =>
    split at member
    · obtain ⟨first, second⟩ := List.of_mem_zip member
      exact ⟨List.mem_append_left _ first, List.mem_append_left _ second⟩
    · simp at member

theorem Makes.acyclic (makes : call.Makes next) (acyclic : call.bindings.scope.Acyclic) :
    next.bindings.scope.Acyclic := by
  obtain ⟨before, after, -, unified⟩ := makes
  have assigns := unifyEach_assigns before call.bindings
  rw [unified] at assigns
  exact assigns.acyclic acyclic

theorem Makes.reached {terms path : List Term} (makes : call.Makes next)
    (closed : ∀ t ∈ terms, ∀ part ∈ t.parts, part ∈ terms)
    (reached : Reached terms path call.left call.right call.bindings) :
    Reached terms (call.bindings.scope.walk call.left :: path) next.left next.right
      next.bindings := by
  obtain ⟨before, after, split, unified⟩ := makes
  have inside (pair : Term × Term) (member : pair ∈ call.pairs) :
      pair.1 ∈ terms ∧ pair.2 ∈ terms := by
    obtain ⟨one, other⟩ := mem_parts_of_mem_pairs member
    exact ⟨closed _ (reached.values.walk reached.here) _ one,
      closed _ (reached.values.walk reached.there) _ other⟩
  have assigns := unifyEach_assigns before call.bindings
  have values : ValuesIn terms (call.bindings.unifyEach before).2 :=
    unifyEach_values closed reached.acyclic reached.values fun pair member =>
      inside pair (by simp [split, member])
  rw [unified] at assigns values
  have member : (next.left, next.right) ∈ call.pairs := by simp [split]
  obtain ⟨one, other⟩ := mem_parts_of_mem_pairs member
  exact reached.step closed one other assigns values

/-- The way down takes one term after the other from a list, none of them twice. -/
theorem accessible_of_reached {terms path : List Term}
    (closed : ∀ t ∈ terms, ∀ part ∈ t.parts, part ∈ terms)
    (reached : Reached terms path call.left call.right call.bindings) :
    Acc (fun next call => Makes call next) call := by
  generalize room : terms.length - path.length = remaining
  induction remaining using Nat.strongRecOn generalizing call path with
  | ind remaining ih =>
    refine .intro _ fun next makes => ?_
    have below := makes.reached closed reached
    have within := below.distinct.length_le_of_subset below.known
    rw [List.length_cons] at within
    refine ih (terms.length - (path.length + 1)) (by omega) below ?_
    rw [List.length_cons]

end Call

/-- From an acyclic scope there is no endless chain of calls. In each call that is made the walks
and the occurs check end too, and the answer is that of one level of unification without a bound on
the depth. -/
theorem unify_terminates (b : Bindings) (left right : Term)
    (straight : ∀ v, ¬Relation.TransGen b.scope.Points v v) :
    Acc (fun next call => Call.Makes call next) ⟨left, right, b⟩ ∧
      ∀ call, Relation.ReflTransGen Call.Makes ⟨left, right, b⟩ call →
        (WellFounded fun value t => call.bindings.scope.Hops t value) ∧
        (WellFounded fun part t => call.bindings.scope.Descends t part) ∧
        call.bindings.unify call.left call.right = call.answer := by
  have acyclic := Scope.acyclic_iff.mpr straight
  refine ⟨Call.accessible_of_reached (horizon_closed left right b)
    (reached_horizon acyclic left right), fun call made => ?_⟩
  have kept : call.bindings.scope.Acyclic := by
    induction made with
    | refl => exact acyclic
    | tail _ makes ih => exact makes.acyclic ih
  exact ⟨Scope.hops_end kept, Scope.descents_end kept, unify_eq_answer kept _ _⟩

/-- With `X = f(Y)`, unifying `p(X, Y)` with `p(f(Z), 1)` makes a call on `Y` and `Z`, the first of
which comes out of the scope, and one on `Y` and 1 once `Z` is bound. -/
theorem unify_terminates_through_bindings :
    let b : Bindings := ({} : Bindings).assign ⟨1⟩ (.lit "f" [.var ⟨2⟩] [])
    let left : Term := .lit "p" [.var ⟨1⟩, .var ⟨2⟩] []
    let right : Term := .lit "p" [.lit "f" [.var ⟨3⟩] [], .int 1] []
    let inner : Call := ⟨.var ⟨2⟩, .var ⟨3⟩, b⟩
    let later : Call := ⟨.var ⟨2⟩, .int 1, b.assign ⟨3⟩ (.var ⟨2⟩)⟩
    Acc (fun next call => Call.Makes call next) ⟨left, right, b⟩ ∧
      (Relation.ReflTransGen Call.Makes ⟨left, right, b⟩ inner ∧
        b.unify inner.left inner.right = inner.answer) ∧
      Relation.ReflTransGen Call.Makes ⟨left, right, b⟩ later ∧
        later.bindings.unify later.left later.right = later.answer := by
  intro b left right inner later
  have acyclic : b.scope.Acyclic := Scope.bind_acyclic_of_occurs Scope.empty_acyclic rfl rfl
  obtain ⟨ends, answers⟩ := unify_terminates b left right (Scope.acyclic_iff.mp acyclic)
  have first : Call.Makes ⟨left, right, b⟩ ⟨.var ⟨1⟩, .lit "f" [.var ⟨3⟩] [], b⟩ :=
    ⟨[], [(.var ⟨2⟩, .int 1)], rfl, rfl⟩
  have second : Call.Makes ⟨.var ⟨1⟩, .lit "f" [.var ⟨3⟩] [], b⟩ inner := ⟨[], [], rfl, rfl⟩
  have third : Call.Makes ⟨left, right, b⟩ later :=
    ⟨[(.var ⟨1⟩, .lit "f" [.var ⟨3⟩] [])], [], rfl, rfl⟩
  have down : Relation.ReflTransGen Call.Makes ⟨left, right, b⟩ inner :=
    .tail (.single first) second
  have along : Relation.ReflTransGen Call.Makes ⟨left, right, b⟩ later := .single third
  exact ⟨ends, ⟨down, (answers inner down).2.2⟩, along, (answers later along).2.2⟩

end Deliberation.Bindings
