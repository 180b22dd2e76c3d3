import Deliberation.Error
import Deliberation.Scope

/-!
Reading terms through a scope. `resolve` replaces what is bound, `grounded` asks for a value without
variables. All functions descend through bindings at most as often as there are bindings, which is
exact in a scope without cycles.
-/
namespace Deliberation.Scope

/-- Whether a variable occurs in a term through at most `depth` levels of bindings. -/
def occursWithin (s : Scope) (v : Var) : Nat → Term → Bool
  | 0, _ => false
  | depth + 1, t => t.vars.any fun w =>
    match s.walk (.var w) with
    | .var u => u == v
    | value => s.occursWithin v depth value

/-- Whether a variable occurs in a term, annotations included, under the bindings of the scope. -/
def occurs (s : Scope) (v : Var) (t : Term) : Bool := s.occursWithin v (s.size + 1) t

def resolveWithin (s : Scope) : Nat → Term → Term
  | 0, t => t
  | depth + 1, t => t.subst fun v =>
    match s.walk (.var v) with
    | .var w => .var w
    | value => s.resolveWithin depth value

/-- The current value of a term, with unbound variables left in place. -/
def resolve (s : Scope) (t : Term) : Term := s.resolveWithin (s.size + 1) t

def isGroundWithin (s : Scope) : Nat → Term → Bool
  | 0, t => !t.hasVars
  | depth + 1, t => t.vars.all fun v =>
    match s.walk (.var v) with
    | .var _ => false
    | value => s.isGroundWithin depth value

/-- Whether no unbound variable is left in a term. -/
def isGround (s : Scope) (t : Term) : Bool := s.isGroundWithin (s.size + 1) t

/-- The first variable, as written where it stands, whose chain of bindings ends unbound. -/
def firstUnboundWithin (s : Scope) : Nat → Term → Option Var
  | 0, t => t.vars.head?
  | depth + 1, t => t.vars.findSome? fun v =>
    match s.walk (.var v) with
    | .var _ => some v
    | value => s.firstUnboundWithin depth value

def firstUnbound? (s : Scope) (t : Term) : Option Var := s.firstUnboundWithin (s.size + 1) t

/-- The value of a term that must not contain an unbound variable. -/
def grounded (s : Scope) (t : Term) : Except Halt Term :=
  match s.firstUnbound? t with
  | some v => .error (.raised (.instantiation (.var v)))
  | none => .ok (s.resolve t)

/-- The elements of a sequence, resolved, or the characters of a string. -/
def elements (s : Scope) (t : Term) : Except Halt (List Term) :=
  match s.walk t with
  | .var _ => .error (.raised (.instantiation t))
  | .seq items => .ok (items.map s.resolve)
  | .str text => .ok (text.toList.map fun c => .str (String.singleton c))
  | other => .error (.raised (.typeMismatch "evaluate" "sequence" other.kind))

end Deliberation.Scope
