import Deliberation.Dereference
import Deliberation.Trail

/-!
Unification with occurs check. Of two unbound variables the right one is bound to the left one.
Arguments unify from left to right up to the first mismatch, and bindings made before it stay:
callers guard each attempt with a choicepoint. Annotations take no part.
-/
namespace Deliberation.Bindings

/-- Binds an unbound variable unless it occurs in the value. -/
def bindChecked (b : Bindings) (v : Var) (value : Term) : Bool × Bindings :=
  if b.scope.occurs v value then (false, b) else (true, b.assign v value)

/-- Unifies two lists pairwise, left to right, up to the first mismatch. -/
def unifyPairs (unify : Term → Term → Bindings → Option (Bool × Bindings)) :
    List Term → List Term → Bindings → Option (Bool × Bindings)
  | x :: xs, y :: ys, b =>
    match unify x y b with
    | some (true, b) => unifyPairs unify xs ys b
    | other => other
  | [], [], b => some (true, b)
  | _, _, b => some (false, b)

/-- Unification of terms nested at most `depth` deep once resolved; nothing beyond that. -/
def unifyWithin : Nat → Term → Term → Bindings → Option (Bool × Bindings)
  | 0, _, _, _ => none
  | depth + 1, left, right, b =>
    match b.scope.walk left, b.scope.walk right with
    | .var x, .var y => some (if x = y then (true, b) else b.bindChecked y (.var x))
    | value, .var y => some (b.bindChecked y value)
    | .var x, value => some (b.bindChecked x value)
    | .num m, .num n => some (m.equals n, b)
    | .str s, .str t => some (s == t, b)
    | .seq xs, .seq ys =>
      if xs.length = ys.length then unifyPairs (unifyWithin depth) xs ys b else some (false, b)
    | .lit f xs _, .lit g ys _ =>
      if f = g ∧ xs.length = ys.length then unifyPairs (unifyWithin depth) xs ys b
      else some (false, b)
    | _, _ => some (false, b)

/-- A depth that suffices in a scope without cycles: a path through the resolved terms meets each
bound variable at most once, and each bound value is part of what there was at the start. -/
def unifyDepth (left right : Term) (b : Bindings) : Nat :=
  let size := left.size + right.size + b.scope.weight + 1
  size * size

/-- A depth that nearly always suffices and need not be computed. -/
def usualDepth : Nat := 1000

/-- Makes two terms equal by binding variables, or reports that they differ. The depth that is sure
to suffice is computed only where the usual one does not. -/
def unify (left right : Term) (b : Bindings) : Bool × Bindings :=
  match unifyWithin usualDepth left right b with
  | some result => result
  | none => (unifyWithin (unifyDepth left right b) left right b).getD (false, b)

def unifyEach : List (Term × Term) → Bindings → Bool × Bindings
  | [], b => (true, b)
  | (left, right) :: rest, b =>
    match unify left right b with
    | (true, b) => unifyEach rest b
    | failed => failed

end Deliberation.Bindings
