import Deliberation.Term.Basic

/-!
The standard order of terms: variables, numbers, atoms, strings, sequences, literals. Sequences
compare element by element and then by length; literals by arity, functor and arguments.
Annotations take no part. An integer is rounded where it meets a float, so the order is transitive
among terms with one kind of number and need not be among others.
-/
namespace Deliberation.Term

/-- Position of a term's kind in the standard order. -/
def rank : Term → Nat
  | var _ => 0
  | num _ => 1
  | lit _ [] [] => 2
  | str _ => 3
  | seq _ => 4
  | lit _ _ _ => 5

mutual
def order : Term → Term → Ordering
  | var v, var w => compare v.id w.id
  | num m, num n => m.order n
  | str s, str t => compare s t
  | seq xs, seq ys => orderAll xs ys
  | lit f xs as, lit g ys bs =>
    (compare (lit f xs as).rank (lit g ys bs).rank).then <|
      (compare xs.length ys.length).then <| (compare f g).then <| orderAll xs ys
  | a, b => compare a.rank b.rank

def orderAll : List Term → List Term → Ordering
  | [], [] => .eq
  | [], _ :: _ => .lt
  | _ :: _, [] => .gt
  | x :: xs, y :: ys => (order x y).then (orderAll xs ys)
end

mutual
/-- Whether all numbers that the order can look at satisfy a condition. -/
def numbersAll (p : Number → Bool) : Term → Bool
  | var _ => true
  | num n => p n
  | str _ => true
  | seq items => numbersAllIn p items
  | lit _ args _ => numbersAllIn p args

def numbersAllIn (p : Number → Bool) : List Term → Bool
  | [] => true
  | t :: rest => numbersAll p t && numbersAllIn p rest
end

end Deliberation.Term
