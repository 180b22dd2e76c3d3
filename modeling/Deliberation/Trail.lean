import Deliberation.Scope

/-!
The trail: the undo log of a scope. Every binding is recorded; a choicepoint is a marker laid down
before an alternative is tried. Rerolling to a marker undoes the bindings above it and removes the
marker itself, and is the only way a single binding is reverted.
-/
namespace Deliberation

/-- A marker on a trail, identified by its number. -/
structure Choicepoint where
  id : Nat
deriving DecidableEq, Repr

inductive TrailEntry where
  | binding (v : Var)
  | mark (c : Choicepoint)
deriving DecidableEq, Repr

abbrev Trail := List TrailEntry

/-- A scope together with the trail that undoes it. -/
structure Bindings where
  scope : Scope := {}
  trail : Trail := []
deriving Inhabited

namespace Bindings

def assign (b : Bindings) (v : Var) (value : Term) : Bindings :=
  { scope := b.scope.bind v value, trail := .binding v :: b.trail }

def mark (b : Bindings) (c : Choicepoint) : Bindings :=
  { b with trail := .mark c :: b.trail }

/-- Forgets every binding and keeps the records, whose undoing then changes nothing. -/
def clear (b : Bindings) : Bindings := { b with scope := Scope.empty }

/-- What is left below the newest occurrence of a marker once everything above it is undone. -/
def unwind (c : Choicepoint) (scope : Scope) : Trail → Option Bindings
  | [] => none
  | .binding v :: rest => unwind c (scope.unbind v) rest
  | .mark d :: rest => if d = c then some { scope, trail := rest } else unwind c scope rest

/-- Undoes back to a marker; without that marker on the trail there is nothing to undo to. -/
def reroll? (b : Bindings) (c : Choicepoint) : Option Bindings := unwind c b.scope b.trail

@[simp] theorem reroll?_mark (b : Bindings) (c : Choicepoint) :
    (b.mark c).reroll? c = some b := by
  simp [reroll?, mark, unwind]

/-- A binding above a marker does not change what rerolling to the marker gives. -/
@[simp] theorem reroll?_assign (b : Bindings) (c : Choicepoint) (v : Var) (value : Term) :
    (b.assign v value).reroll? c = b.reroll? c := by
  simp [reroll?, assign, unwind]

end Bindings

end Deliberation
