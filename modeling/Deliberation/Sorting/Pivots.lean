import Deliberation.Sorting.Runs

/-!
Sorting by pivots, and the sort that takes a list by insertion, runs or pivots as its length and
shape suggest.
-/
namespace Deliberation.Sorting

variable {α : Type} (less : α → α → Bool)

def medianOf (lessAt : Nat → Nat → Bool) (a b c : Nat) : Nat :=
  let first := lessAt a b
  if first = lessAt a c then (if lessAt b c = first then b else c) else a

/-- A place near the median of a stretch: the first one of few, else the median of three such places
at its start, past its middle and at its end. -/
def pivotPlace (lessAt : Nat → Nat → Bool) (start size : Nat) : Nat :=
  if size < 8 then start
  else
    let step := size / 8
    medianOf lessAt (pivotPlace lessAt start step) (pivotPlace lessAt (start + 4 * step) step)
      (pivotPlace lessAt (start + 7 * step) step)
termination_by size
decreasing_by all_goals omega

/-- A list around one of its elements. -/
structure Split (α : Type) where
  before : List α
  pivot : α
  after : List α

/-- A list around an element near its median. -/
def Split.of? (items : List α) : Option (Split α) :=
  let places := items.toArray
  let lessAt (i j : Nat) : Bool := match places[i]?, places[j]? with
    | some a, some b => less a b
    | _, _ => false
  let place := pivotPlace lessAt 0 places.size
  match items.drop place with
  | [] => none
  | pivot :: after => some ⟨items.take place, pivot, after⟩

namespace Split

/-- The elements other than the pivot that satisfy a condition, and the pivot if it is wanted. -/
def select (s : Split α) (withPivot : Bool) (p : α → Bool) : List α :=
  s.before.filter p ++ (if withPivot then s.pivot :: s.after.filter p else s.after.filter p)

def below (s : Split α) : List α := s.select false (less · s.pivot)

def notBelow (s : Split α) : List α := s.select true (!less · s.pivot)

def notAbove (s : Split α) : List α := s.select true (!less s.pivot ·)

def above (s : Split α) : List α := s.select false (less s.pivot ·)

end Split

/-- Sorts by splitting lists at a pivot, a number of times at most and then by runs. If nothing is
below the pivot, or the pivot is no greater than one that the list was split from, the elements not
above it are in order already. -/
def sortByPivots? : Nat → Option α → List α → Option (List α)
  | 0, _, items =>
    if items.length ≤ shortLimit then sortShort? less items
    else sortByRuns? less true (sortShort? less) items
  | limit + 1, floor, items =>
    if items.length ≤ shortLimit then sortShort? less items
    else match Split.of? less items with
      | none => some items
      | some s =>
        let below := s.below less
        if floor.any (!less · s.pivot) || below.isEmpty then do
          let higher ← sortByPivots? limit none (s.above less)
          return s.notAbove less ++ higher
        else do
          let higher ← sortByPivots? limit (some s.pivot) (s.notBelow less)
          let lower ← sortByPivots? limit floor below
          return lower ++ higher

def sortRun? (items : List α) : Option (List α) :=
  sortByPivots? less (2 * items.length.log2) none items

/-- Lists of at most this length are sorted by insertion. -/
def insertionLimit : Nat := 20

/-- Sorts a list by a relation. Elements of which neither is less keep their order, as far as the
relation is transitive. The result for one that is not depends on the comparisons made, and there is
none where these are seen to contradict each other. -/
def sort? (items : List α) : Option (List α) :=
  if items.length ≤ insertionLimit then some (sortByInsertion less items)
  else sortByRuns? less (items.length ≤ 2 * shortLimit) (sortRun? less) items

end Deliberation.Sorting
