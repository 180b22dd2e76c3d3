import Deliberation.Proofs.Assignment
import Deliberation.Proofs.Descent
import Mathlib.Data.List.Nodup
import Mathlib.Order.WellFounded

/-! Unification level by level. At the ends of their walks two terms are compared, one of them is
bound, or their arguments are unified in turn. In an acyclic scope this comes to an end: on the way
down no term is met twice, and all of them are parts of what there was at the start. So the bound on
the depth is never felt. -/
namespace Deliberation

namespace Term

mutual
/-- The term and all terms inside it. -/
def subterms : Term → List Term
  | var v => [var v]
  | num n => [num n]
  | str s => [str s]
  | seq items => seq items :: subtermsOfAll items
  | lit functor args annots =>
    lit functor args annots :: (subtermsOfAll args ++ subtermsOfAll annots)

def subtermsOfAll : List Term → List Term
  | [] => []
  | t :: rest => subterms t ++ subtermsOfAll rest
end

theorem subtermsOfAll_eq (items : List Term) : subtermsOfAll items = items.flatMap subterms := by
  induction items with
  | nil => rfl
  | cons t rest ih => simp [subtermsOfAll, ih]

theorem mem_subterms_self (t : Term) : t ∈ t.subterms := by
  cases t <;> simp [subterms]

theorem mem_subterms_iff {t other : Term} :
    other ∈ t.subterms ↔ other = t ∨ ∃ part ∈ t.parts, other ∈ part.subterms := by
  cases t with
  | seq items => simp [subterms, parts, subtermsOfAll_eq]
  | lit functor args annots =>
    simp [subterms, parts, subtermsOfAll_eq, or_and_right, exists_or]
  | _ => simp [subterms, parts]

/-- What holds of a term whenever it holds of all its parts holds of every term. -/
theorem ofParts {motive : Term → Prop}
    (step : ∀ t, (∀ part ∈ t.parts, motive part) → motive t) (t : Term) : motive t := by
  induction t using partsInduction with
  | seq items ih => exact step _ ih
  | lit functor args annots ihArgs ihAnnots =>
    apply step
    intro part inside
    rcases List.mem_append.mp inside with argument | annotation
    · exact ihArgs part argument
    · exact ihAnnots part annotation
  | _ => exact step _ (by simp [parts])

/-- The parts of what is inside a term are inside it too. -/
theorem part_mem_subterms {t other part : Term} (member : other ∈ t.subterms)
    (inside : part ∈ other.parts) : part ∈ t.subterms := by
  induction t using ofParts with
  | step t ih =>
    rcases mem_subterms_iff.mp member with rfl | ⟨component, here, below⟩
    · exact mem_subterms_iff.mpr (.inr ⟨part, inside, mem_subterms_self part⟩)
    · exact mem_subterms_iff.mpr (.inr ⟨component, here, ih component here below⟩)

theorem length_subterms (t : Term) : t.subterms.length = t.size := by
  have all (items : List Term) (each : ∀ t ∈ items, t.subterms.length = t.size) :
      (subtermsOfAll items).length = sizeOfAll items := by
    induction items with
    | nil => rfl
    | cons first rest ih =>
      have later := ih fun t member => each t (List.mem_cons_of_mem _ member)
      simp [subtermsOfAll, sizeOfAll, each first List.mem_cons_self, later]
  induction t using partsInduction with
  | seq items ih =>
    simp only [subterms, size, List.length_cons, all items ih]
    omega
  | lit functor args annots ihArgs ihAnnots =>
    simp only [subterms, size, List.length_cons, List.length_append, all args ihArgs,
      all annots ihAnnots]
    omega
  | _ => rfl

end Term

namespace Scope

variable {s s' : Scope}

/-- What each hop from a variable to its value keeps holds at the end of a walk. -/
theorem walk_induction {motive : Term → Prop}
    (hop : ∀ v value, s.get? v = some value → motive (.var v) → motive value) {t : Term}
    (start : motive t) : motive (s.walk t) := by
  rw [walk_eq_walkWithin]
  generalize s.size = steps
  induction steps generalizing t with
  | zero => cases t <;> exact start
  | succ steps ih =>
    cases t with
    | var v =>
      cases found : s.get? v with
      | none => simpa [walkWithin, found] using start
      | some value => simpa only [walkWithin, found] using ih (hop v value found start)
    | _ => exact start

/-- Every binding of the first scope is one of the second. -/
def Extends (s s' : Scope) : Prop := ∀ v value, s.get? v = some value → s'.get? v = some value

theorem extends_bind {v : Var} (free : s.get? v = none) (value : Term) :
    s.Extends (s.bind v value) := by
  intro u bound found
  have other : u ≠ v := by
    rintro rfl
    simp [free] at found
  rwa [get?_bind_of_ne s value other]

/-- A walk through more bindings may stop at the end of the walk through fewer and go on. -/
theorem Extends.walk (kept : s.Extends s') (acyclic' : s'.Acyclic) (t : Term) :
    s'.walk t = s'.walk (s.walk t) := by
  apply walk_induction (motive := fun reached => s'.walk t = s'.walk reached) _ rfl
  intro v value found reached
  rw [reached, walk_of_bound acyclic' (kept v value found)]

/-- What a term stands for stays the same, unless it is a variable. -/
theorem Extends.walk_compound (kept : s.Extends s') (acyclic' : s'.Acyclic) {t : Term}
    (compound : ∀ v, s.walk t ≠ .var v) : s'.walk t = s.walk t := by
  rw [kept.walk acyclic', walk_of_not_var compound]

theorem Extends.descends (kept : s.Extends s') (acyclic' : s'.Acyclic) {t part : Term}
    (inside : s.Descends t part) : s'.Descends t part := by
  have compound : ∀ v, s.walk t ≠ .var v := by
    intro v ended
    simp [Descends, ended, Term.parts] at inside
  rw [Descends, kept.walk_compound acyclic' compound]
  exact inside

end Scope

namespace Bindings

variable {b b' : Bindings}

theorem Assigns.acyclic (assigns : Assigns b b') (acyclic : b.scope.Acyclic) :
    b'.scope.Acyclic := by
  obtain ⟨added, -, fresh⟩ := assigns.extends
  exact (fresh acyclic).1

theorem Assigns.kept (assigns : Assigns b b') (acyclic : b.scope.Acyclic) :
    b.scope.Extends b'.scope := fun _ _ found => assigns.get? acyclic found

/-- What one level of unification does with two terms at the ends of their walks. -/
inductive Meets (unify : Term → Term → Bindings → Option (Bool × Bindings)) (b : Bindings) :
    Term → Term → Option (Bool × Bindings) → Prop where
  | same (x : Var) : Meets unify b (.var x) (.var x) (some (true, b))
  | right {value : Term} {y : Var} (different : value ≠ .var y) :
      Meets unify b value (.var y) (some (b.bindChecked y value))
  | left {x : Var} {value : Term} (compound : ∀ y, value ≠ .var y) :
      Meets unify b (.var x) value (some (b.bindChecked x value))
  | num (m n : Number) : Meets unify b (.num m) (.num n) (some (m.equals n, b))
  | str (s t : String) : Meets unify b (.str s) (.str t) (some (s == t, b))
  | seq {xs ys : List Term} (lengths : xs.length = ys.length) :
      Meets unify b (.seq xs) (.seq ys) (unifyPairs unify xs ys b)
  | lit {functor : String} {xs ys annots annots' : List Term} (lengths : xs.length = ys.length) :
      Meets unify b (.lit functor xs annots) (.lit functor ys annots') (unifyPairs unify xs ys b)
  /-- No replacement of their variables makes them equal. -/
  | clash {one other : Term} (apart : ∀ f, one.subst f ≠ other.subst f) :
      Meets unify b one other (some (false, b))

theorem unifyWithin_meets (depth : Nat) (left right : Term) (b : Bindings) :
    Meets (unifyWithin depth) b (b.scope.walk left) (b.scope.walk right)
      (unifyWithin (depth + 1) left right b) := by
  rw [unifyWithin]
  generalize b.scope.walk left = one
  generalize b.scope.walk right = other
  cases one <;> cases other
  case var.var x y =>
    by_cases equal : x = y
    · subst equal
      simpa using Meets.same x
    · simpa [equal] using Meets.right (by simpa using equal)
  case seq.seq xs ys =>
    by_cases lengths : xs.length = ys.length
    · simpa [lengths] using Meets.seq lengths
    · simp only [lengths, if_false]
      apply Meets.clash
      intro f equal
      simp only [Term.subst_seq, Term.seq.injEq] at equal
      exact lengths (by simpa using congrArg List.length equal)
  case lit.lit functor xs annots functor' ys annots' =>
    by_cases alike : functor = functor' ∧ xs.length = ys.length
    · obtain ⟨rfl, lengths⟩ := alike
      simpa [lengths] using Meets.lit lengths
    · simp only [alike, if_false]
      apply Meets.clash
      intro f equal
      simp only [Term.subst_lit, Term.lit.injEq] at equal
      exact alike ⟨equal.1, by simpa using congrArg List.length equal.2.1⟩
  case num.num m n => exact .num m n
  case str.str s t => exact .str s t
  all_goals
    first
    | exact .right (by simp)
    | exact .left (by simp)
    | exact .clash fun f equal => by simp [Term.subst] at equal

theorem unifyPairs_cons (unify : Term → Term → Bindings → Option (Bool × Bindings)) (x y : Term)
    (xs ys : List Term) (b : Bindings) :
    unifyPairs unify (x :: xs) (y :: ys) b =
      (unify x y b).bind fun a => if a.1 then unifyPairs unify xs ys a.2 else some a := by
  rw [unifyPairs]
  obtain _ | ⟨_ | _, c⟩ := unify x y b <;> rfl

/-- Where every pair is answered, so are all of them one after another. -/
theorem unifyPairs_answers {unify : Term → Term → Bindings → Option (Bool × Bindings)}
    (kept : Bindings → Prop) (xs ys : List Term)
    (each : ∀ x ∈ xs, ∀ y ∈ ys, ∀ b, kept b → ∃ result, unify x y b = some result ∧ kept result.2)
    (b : Bindings) (start : kept b) :
    ∃ result, unifyPairs unify xs ys b = some result ∧ kept result.2 := by
  induction xs generalizing ys b with
  | nil => cases ys <;> exact ⟨_, rfl, start⟩
  | cons x xs ih =>
    cases ys with
    | nil => exact ⟨_, rfl, start⟩
    | cons y ys =>
      obtain ⟨⟨ok, next⟩, answered, still⟩ :=
        each x List.mem_cons_self y List.mem_cons_self b start
      cases ok with
      | false => exact ⟨(false, next), by simp [unifyPairs, answered], still⟩
      | true =>
        obtain ⟨result, rest, last⟩ := ih ys (fun x here y there =>
          each x (List.mem_cons_of_mem _ here) y (List.mem_cons_of_mem _ there)) next still
        exact ⟨result, by simp [unifyPairs, answered, rest], last⟩

/-- All bound values are in the list. -/
def ValuesIn (terms : List Term) (b : Bindings) : Prop :=
  ∀ v value, b.scope.get? v = some value → value ∈ terms

theorem ValuesIn.walk {terms : List Term} (values : ValuesIn terms b) {t : Term}
    (member : t ∈ terms) : b.scope.walk t ∈ terms :=
  Scope.walk_induction (fun v value found _ => values v value found) member

theorem ValuesIn.bindChecked {terms : List Term} (values : ValuesIn terms b) (v : Var)
    {value : Term} (member : value ∈ terms) : ValuesIn terms (b.bindChecked v value).2 := by
  unfold Bindings.bindChecked
  split
  · exact values
  · intro w other found
    by_cases same : w = v
    · subst same
      obtain rfl : value = other := by simpa [assign] using found
      exact member
    · exact values w other (by simpa [assign, Scope.get?_bind_of_ne _ _ same] using found)

/-- A term that others descend to is none of these: a reader would come back to where it was. -/
theorem walk_ne_of_descends (acyclic : b.scope.Acyclic) {t above : Term}
    (chain : Relation.TransGen b.scope.Descends above t) : b.scope.walk t ≠ above := by
  intro met
  have same : b.scope.walk above = b.scope.walk t := by rw [← met, Scope.walk_walk acyclic]
  have cycle : Relation.TransGen b.scope.Descends t t := by
    obtain ⟨next, first, rest⟩ := Relation.TransGen.head'_iff.mp chain
    have step : b.scope.Descends t next := by rwa [Scope.Descends, ← same]
    exact Relation.TransGen.head' step rest
  have returns := Relation.transGen_swap.mp cycle
  exact (Scope.descents_end acyclic).transGen.irrefl.irrefl t returns

theorem unifyPairs_kept {unify : Term → Term → Bindings → Option (Bool × Bindings)}
    (kept : Bindings → Prop) (xs ys : List Term)
    (each : ∀ x ∈ xs, ∀ y ∈ ys, ∀ b result, kept b → unify x y b = some result → kept result.2)
    (b : Bindings) (result : Bool × Bindings) (start : kept b)
    (answered : unifyPairs unify xs ys b = some result) : kept result.2 := by
  induction xs generalizing ys b with
  | nil =>
    cases ys <;>
      · obtain rfl := Option.some.inj answered
        exact start
  | cons x xs ih =>
    cases ys with
    | nil =>
      obtain rfl := Option.some.inj answered
      exact start
    | cons y ys =>
      have here := each x List.mem_cons_self y List.mem_cons_self b
      simp only [unifyPairs] at answered
      split at answered
      · rename_i next first
        exact ih ys (fun x here y there =>
          each x (List.mem_cons_of_mem _ here) y (List.mem_cons_of_mem _ there)) next
          (here _ start first) answered
      · exact here result start answered

section Descent

variable {terms path : List Term} {left right x y : Term}
  (closed : ∀ t ∈ terms, ∀ part ∈ t.parts, part ∈ terms)
include closed

/-- Unification binds variables to what it meets only. -/
theorem unifyWithin_values (depth : Nat) (left right : Term) (b : Bindings)
    (result : Bool × Bindings) (values : ValuesIn terms b) (here : left ∈ terms)
    (there : right ∈ terms) (answered : unifyWithin depth left right b = some result) :
    ValuesIn terms result.2 := by
  induction depth generalizing left right b result with
  | zero => simp [unifyWithin] at answered
  | succ depth ih =>
    have one := values.walk here
    have other := values.walk there
    have pairs (xs ys : List Term) (left_parts : ∀ x ∈ xs, x ∈ (b.scope.walk left).parts)
        (right_parts : ∀ y ∈ ys, y ∈ (b.scope.walk right).parts)
        (paired : unifyPairs (unifyWithin depth) xs ys b = some result) :
        ValuesIn terms result.2 := by
      refine unifyPairs_kept (ValuesIn terms) xs ys ?_ b result values paired
      intro x x_mem y y_mem b result values answered
      exact ih x y b result values (closed _ one x (left_parts x x_mem))
        (closed _ other y (right_parts y y_mem)) answered
    have met := unifyWithin_meets depth left right b
    generalize unifyWithin (depth + 1) left right b = outcome at met answered
    generalize b.scope.walk left = start at *
    generalize b.scope.walk right = goal at *
    cases met with
    | right different =>
      obtain rfl := Option.some.inj answered
      exact values.bindChecked _ one
    | left compound =>
      obtain rfl := Option.some.inj answered
      exact values.bindChecked _ other
    | seq lengths => exact pairs _ _ (fun _ => id) (fun _ => id) answered
    | lit lengths =>
      exact pairs _ _ (fun _ => List.mem_append_left _) (fun _ => List.mem_append_left _) answered
    | _ =>
      obtain rfl := Option.some.inj answered
      exact values

omit closed in
/-- Two terms that unification has come down to. All that it can meet is in a list, and the terms
that it has come through on the left are distinct. -/
structure Reached (terms path : List Term) (left right : Term) (b : Bindings) : Prop where
  acyclic : b.scope.Acyclic
  values : ValuesIn terms b
  here : left ∈ terms
  there : right ∈ terms
  distinct : path.Nodup
  known : path ⊆ terms
  above : ∀ t ∈ path, Relation.TransGen b.scope.Descends t left

/-- One level down there is one more term above: the end of the walk on the left, to which no way
leads back. -/
theorem Reached.step (reached : Reached terms path left right b)
    (left_part : x ∈ (b.scope.walk left).parts) (right_part : y ∈ (b.scope.walk right).parts)
    (assigns : Assigns b b') (values' : ValuesIn terms b') :
    Reached terms (b.scope.walk left :: path) x y b' := by
  obtain ⟨acyclic, values, here, there, distinct, known, above⟩ := reached
  have acyclic' := assigns.acyclic acyclic
  have descends (t part : Term) (inside : b.scope.Descends t part) : b'.scope.Descends t part :=
    (assigns.kept acyclic).descends acyclic' inside
  have fresh : b.scope.walk left ∉ path := fun met => walk_ne_of_descends acyclic (above _ met) rfl
  refine ⟨acyclic', values', closed _ (values.walk here) x left_part,
    closed _ (values.walk there) y right_part, List.nodup_cons.mpr ⟨fresh, distinct⟩,
    List.cons_subset.mpr ⟨values.walk here, known⟩, fun t member => ?_⟩
  rcases List.mem_cons.mp member with rfl | earlier
  · have again : b.scope.Descends (b.scope.walk left) x := by
      rwa [Scope.Descends, Scope.walk_walk acyclic]
    exact .single (descends _ _ again)
  · exact Relation.TransGen.mono descends _ _ ((above t earlier).tail left_part)

/-- A depth that leaves room for every term of a list suffices where all that can be met is in the
list: the terms on the way down are distinct. -/
theorem Reached.answers {depth : Nat} (reached : Reached terms path left right b)
    (room : terms.length < depth + path.length) :
    ∃ result, unifyWithin depth left right b = some result := by
  induction depth generalizing left right b path with
  | zero =>
    have crowded := reached.distinct.length_le_of_subset reached.known
    omega
  | succ depth ih =>
    have pairs (xs ys : List Term) (left_parts : ∀ x ∈ xs, x ∈ (b.scope.walk left).parts)
        (right_parts : ∀ y ∈ ys, y ∈ (b.scope.walk right).parts) :
        ∃ result, unifyPairs (unifyWithin depth) xs ys b = some result := by
      let kept (b' : Bindings) : Prop := Assigns b b' ∧ ValuesIn terms b'
      obtain ⟨result, answered, -⟩ := unifyPairs_answers kept xs ys
        (fun x x_mem y y_mem b' ⟨assigns, values'⟩ => by
          have next :=
            reached.step closed (left_parts x x_mem) (right_parts y y_mem) assigns values'
          obtain ⟨result, answered⟩ := ih next (by simp only [List.length_cons]; omega)
          exact ⟨result, answered, assigns.trans (unifyWithin_assigns depth x y b' result answered),
            unifyWithin_values closed depth x y b' result values' next.here next.there answered⟩)
        b ⟨.refl, reached.values⟩
      exact ⟨result, answered⟩
    have met := unifyWithin_meets depth left right b
    generalize unifyWithin (depth + 1) left right b = answer at met
    generalize b.scope.walk left = start at *
    generalize b.scope.walk right = goal at *
    cases met with
    | seq lengths => exact pairs _ _ (fun _ => id) fun _ => id
    | lit lengths =>
      exact pairs _ _ (fun _ => List.mem_append_left _) fun _ => List.mem_append_left _
    | _ => exact ⟨_, rfl⟩

end Descent

/-- Everything that unifying can meet: what is inside the two terms and inside the bound values. -/
def horizon (left right : Term) (b : Bindings) : List Term :=
  left.subterms ++ right.subterms ++ b.scope.bindings.flatMap fun entry => entry.2.subterms

theorem length_horizon (left right : Term) (b : Bindings) :
    (horizon left right b).length ≤ left.size + right.size + b.scope.weight := by
  have values (entries : List (Var × Term)) :
      (entries.flatMap fun entry => entry.2.subterms).length ≤
        entries.foldr (fun entry n => 1 + entry.2.size + n) 0 := by
    induction entries with
    | nil => simp
    | cons entry rest ih =>
      simp only [List.flatMap_cons, List.length_append, Term.length_subterms, List.foldr_cons]
      omega
  have bound := values b.scope.bindings
  simp only [horizon, List.length_append, Term.length_subterms, Scope.weight]
  omega

theorem horizon_closed (left right : Term) (b : Bindings) :
    ∀ t ∈ horizon left right b, ∀ part ∈ t.parts, part ∈ horizon left right b := by
  intro t member part inside
  simp only [horizon, List.mem_append, List.mem_flatMap] at member ⊢
  rcases member with (one | other) | ⟨entry, bound, deep⟩
  · exact .inl (.inl (Term.part_mem_subterms one inside))
  · exact .inl (.inr (Term.part_mem_subterms other inside))
  · exact .inr ⟨entry, bound, Term.part_mem_subterms deep inside⟩

theorem reached_horizon (acyclic : b.scope.Acyclic) (left right : Term) :
    Reached (horizon left right b) [] left right b where
  acyclic := acyclic
  values v value found := by
    simp only [horizon, List.mem_append, List.mem_flatMap]
    exact .inr ⟨(v, value), Scope.find?_mem found, Term.mem_subterms_self value⟩
  here := by simp [horizon, Term.mem_subterms_self]
  there := by simp [horizon, Term.mem_subterms_self]
  distinct := List.nodup_nil
  known := by simp
  above := by simp

/-- In an acyclic scope unification gives the answer of a depth that it does not exceed. -/
theorem unify_within (acyclic : b.scope.Acyclic) (left right : Term) :
    ∃ depth, unifyWithin depth left right b = some (b.unify left right) := by
  unfold unify
  split
  · rename_i result answered
    exact ⟨usualDepth, answered⟩
  have room : (horizon left right b).length < unifyDepth left right b + 0 := by
    have bound := length_horizon left right b
    have square := Nat.le_mul_self (left.size + right.size + b.scope.weight + 1)
    simp only [unifyDepth]
    omega
  obtain ⟨result, answered⟩ :=
    (reached_horizon acyclic left right).answers (horizon_closed left right b) room
  exact ⟨unifyDepth left right b, by simp [answered]⟩

end Bindings

end Deliberation
