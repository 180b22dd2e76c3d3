/-!
Sorting of short lists by a relation `less`, which need not be transitive: the result is fixed by
which elements are compared, and each definition says which ones are. Elements of which neither is
less keep their order. A relation that contradicts itself may be noticed, and then there is no
result.
-/
namespace Deliberation.Sorting

variable {α : Type} (less : α → α → Bool)

/-- Inserts into a list from greatest to least, going past the elements that it is less than. -/
def insertDescending (x : α) : List α → List α
  | [] => [x]
  | y :: rest => if less x y then y :: insertDescending x rest else x :: y :: rest

/-- Inserts elements one after the other into a sorted list, each from the greater end. -/
def insertAll (sorted items : List α) : List α :=
  (items.foldl (fun descending x => insertDescending less x descending) sorted.reverse).reverse

def sortByInsertion (items : List α) : List α := insertAll less [] items

def sortTwo (x y : α) : α × α := if less y x then (y, x) else (x, y)

/-- Four elements in order: two pairs, then the least and the greatest of all, then the rest. -/
def sortFour (w x y z : α) : List α :=
  let (a, b) := sortTwo less w x
  let (c, d) := sortTwo less y z
  match less c a, less d b with
  | false, false => let (low, high) := sortTwo less b c; [a, low, high, d]
  | false, true => let (low, high) := sortTwo less c d; [a, low, high, b]
  | true, false => let (low, high) := sortTwo less a b; [c, low, high, d]
  | true, true => let (low, high) := sortTwo less a d; [c, low, high, b]

/-- Takes a number of elements from the fronts of two lists, always the lesser of the two first
ones, and gives what is left of both. It ends early when one list is used up. -/
def takeLeast : Nat → List α → List α → List α × List α × List α
  | n + 1, a :: left, b :: right =>
    if less b a then
      let (taken, rests) := takeLeast n (a :: left) right
      (b :: taken, rests)
    else
      let (taken, rests) := takeLeast n left (b :: right)
      (a :: taken, rests)
  | _, left, right => ([], left, right)

def mergeFromFront (left right : List α) : List α := left.merge right fun a b => !less b a

def mergeFromBack (left right : List α) : List α :=
  (right.reverse.merge left.reverse fun b a => !less b a).reverse

/-- Merges sorted lists from both ends to the middle, where one element may be left over. There is
no result if both ends claim the same element, which takes an intransitive relation. -/
def mergeFromBothEnds? (left right : List α) : Option (List α) :=
  let size := left.length + right.length
  let (low, leftAfter, rightAfter) := takeLeast less (size / 2) left right
  let (high, rightBefore, leftBefore) :=
    takeLeast (flip less) (size / 2) right.reverse left.reverse
  let middle := leftAfter.take (leftAfter.length + leftBefore.length - left.length) ++
    rightAfter.take (rightAfter.length + rightBefore.length - right.length)
  let merged := low ++ middle ++ high.reverse
  if merged.length = size then some merged else none

/-- From this length on, both halves of a short list start with four elements in order. -/
def fourLimit : Nat := 8

def sortHalf (startsWithFour : Bool) : List α → List α
  | w :: x :: y :: z :: rest =>
    if startsWithFour then insertAll less (sortFour less w x y z) rest
    else sortByInsertion less (w :: x :: y :: z :: rest)
  | items => sortByInsertion less items

/-- Sorts both halves of a short list and merges them from both ends. -/
def sortShort? (items : List α) : Option (List α) :=
  let half := items.length / 2
  let long := decide (fourLimit ≤ items.length)
  mergeFromBothEnds? less (sortHalf less long (items.take half))
    (sortHalf less long (items.drop half))

end Deliberation.Sorting
