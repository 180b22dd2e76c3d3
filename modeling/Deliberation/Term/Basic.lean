import Deliberation.Number

/-!
Terms: the values that beliefs, goals and actions are made of. A literal without arguments and
annotations is an atom. Variables carry no value; what they are bound to lives in a scope.
-/
namespace Deliberation

structure Var where
  id : Nat
deriving DecidableEq, Repr

inductive Term where
  | var (v : Var)
  | num (value : Number)
  | str (text : String)
  | seq (items : List Term)
  | lit (functor : String) (args annots : List Term)
deriving Inhabited

/-- Functor and arity: what literals are indexed by. -/
structure Group where
  functor : String
  arity : Nat
deriving DecidableEq, Repr

namespace Group

def text (g : Group) : String := g.functor ++ "/" ++ Nat.repr g.arity

def order (g h : Group) : Ordering :=
  (compare g.functor h.functor).then (compare g.arity h.arity)

end Group

namespace Term

def atom (name : String) : Term := lit name [] []

def int (i : Int64) : Term := num (.int i)

def compound (functor : String) (args : List Term) : Term := lit functor args []

def isAtom : Term → Bool
  | lit _ [] [] => true
  | _ => false

def kind : Term → String
  | var _ => "variable"
  | num _ => "number"
  | str _ => "string"
  | seq _ => "sequence"
  | lit _ [] [] => "atom"
  | lit _ _ _ => "literal"

/-- Literals have a group; no other term does. -/
def group? : Term → Option Group
  | lit functor args _ => some ⟨functor, args.length⟩
  | _ => none

mutual
/-- The variables of a term in reading order, arguments before annotations, with repetitions. -/
def vars : Term → List Var
  | var v => [v]
  | num _ => []
  | str _ => []
  | seq items => varsOfAll items
  | lit _ args annots => varsOfAll args ++ varsOfAll annots

def varsOfAll : List Term → List Var
  | [] => []
  | t :: rest => vars t ++ varsOfAll rest
end

/-- Whether a variable occurs in the term itself, whatever is bound. -/
def hasVars (t : Term) : Bool := !t.vars.isEmpty

mutual
/-- Replaces every variable, annotations included. -/
def subst (f : Var → Term) : Term → Term
  | var v => f v
  | num n => num n
  | str s => str s
  | seq items => seq (substAll f items)
  | lit functor args annots => lit functor (substAll f args) (substAll f annots)

def substAll (f : Var → Term) : List Term → List Term
  | [] => []
  | t :: rest => subst f t :: substAll f rest
end

mutual
def size : Term → Nat
  | var _ => 1
  | num _ => 1
  | str _ => 1
  | seq items => 1 + sizeOfAll items
  | lit _ args annots => 1 + sizeOfAll args + sizeOfAll annots

def sizeOfAll : List Term → Nat
  | [] => 0
  | t :: rest => size t + sizeOfAll rest
end

mutual
/-- Structural equality, with numbers compared by value and annotations included. -/
def equals : Term → Term → Bool
  | var v, var w => v == w
  | num m, num n => m.equals n
  | str s, str t => s == t
  | seq xs, seq ys => equalsAll xs ys
  | lit f xs as, lit g ys bs => f == g && equalsAll xs ys && equalsAll as bs
  | _, _ => false

def equalsAll : List Term → List Term → Bool
  | [], [] => true
  | x :: xs, y :: ys => equals x y && equalsAll xs ys
  | _, _ => false
end

end Term

end Deliberation
