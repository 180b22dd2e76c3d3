import Deliberation.Sorting.Short

/-!
Sorting by runs. A list is cut into runs that are sorted already or left for later, and neighbouring
runs are merged along a tree that is balanced over the whole list.
-/
namespace Deliberation.Sorting

variable {α : Type} (less : α → α → Bool)

/-- Neighbouring elements of a list, sorted or not yet. -/
structure Run (α : Type) where
  items : List α
  sorted : Bool

def shortLimit : Nat := 32

/-- How many elements go on as the ones before them, each less than the last one or none so. -/
def following (descending : Bool) (last : α) : List α → Nat → Nat
  | x :: rest, count =>
    if less x last = descending then following descending x rest (count + 1) else count
  | [], count => count

/-- Length of the longest ascending or strictly descending start, and whether it descends. -/
def naturalRun : List α → Nat × Bool
  | a :: b :: rest =>
    let descending := less b a
    (following less descending b rest 2, descending)
  | items => (items.length, false)

/-- The first run of a list: its natural run if that is long enough, else a short sorted run or a
longer one left unsorted. -/
def firstRun? (enough : Nat) (eager : Bool) (items : List α) : Option (Run α) :=
  let (size, descending) := naturalRun less items
  if enough ≤ size then
    some ⟨if descending then (items.take size).reverse else items.take size, true⟩
  else if eager then (sortShort? less (items.take shortLimit)).map (⟨·, true⟩)
  else some ⟨items.take enough, false⟩

/-- A list as its runs, from left to right. -/
def runs? (enough : Nat) (eager : Bool) : List α → Option (List (Run α))
  | [] => some []
  | x :: rest => do
    let run ← firstRun? less enough eager (x :: rest)
    let later ← runs? enough eager (rest.drop (run.items.length - 1))
    return run :: later
termination_by items => items.length
decreasing_by simp only [List.length_drop, List.length_cons]; omega

def Run.settled? (sortItems? : List α → Option (List α)) (run : Run α) : Option (List α) :=
  if run.sorted then some run.items else sortItems? run.items

/-- Joins neighbours. Two unsorted runs stay unsorted; otherwise they are merged, from the end at
which the shorter one stands. -/
def Run.join? (sortItems? : List α → Option (List α)) (left right : Run α) : Option (Run α) :=
  if left.sorted || right.sorted then do
    let a ← left.settled? sortItems?
    let b ← right.settled? sortItems?
    return ⟨if a.length ≤ b.length then mergeFromFront less a b else mergeFromBack less a b, true⟩
  else some ⟨left.items ++ right.items, false⟩

/-- Binary places of a position in the tree of merges. -/
def treePlaces : Nat := 62

/-- Where two neighbouring runs of a list meet in the tree of merges, counted from the root: the
number of leading binary places in which their middles agree as fractions of the list. -/
def meetingDepth (size start middle stop : Nat) : Nat :=
  let unit := ((1 <<< treePlaces) + size - 1) / size
  let differing := (unit * (start + middle)) ^^^ (unit * (middle + stop))
  treePlaces + 1 - differing.log2

/-- Joins the latest run with those before it that meet it no higher than a depth. -/
def joinBack? (sortItems? : List α → Option (List α)) (depth : Nat) :
    List (Run α × Nat) → Run α → Option (List (Run α × Nat) × Run α)
  | (left, meets) :: earlier, run =>
    if depth ≤ meets then do
      let joined ← left.join? less sortItems? run
      joinBack? sortItems? depth earlier joined
    else some ((left, meets) :: earlier, run)
  | [], run => some ([], run)

/-- Joins all runs of a list. The earlier ones stand latest first, each with the depth at which it
meets the next; the latest of all ends where the remaining ones start. -/
def joinRuns? (sortItems? : List α → Option (List α)) (size : Nat) :
    List (Run α × Nat) → Nat → Run α → List (Run α) → Option (Run α)
  | earlier, _, run, [] => (joinBack? less sortItems? 0 earlier run).map Prod.snd
  | earlier, start, run, next :: rest => do
    let stop := start + next.items.length
    let depth := meetingDepth size (start - run.items.length) start stop
    let (earlier, joined) ← joinBack? less sortItems? depth earlier run
    joinRuns? sortItems? size ((joined, depth) :: earlier) stop next rest

/-- A number close to the square root. -/
def nearRoot (n : Nat) : Nat :=
  let shift := (n.log2 + 1) / 2
  ((1 <<< shift) + (n >>> shift)) / 2

/-- The least length of a natural run that is worth keeping. -/
def enoughFor (size : Nat) : Nat := if size ≤ 4096 then min (size - size / 2) 64 else nearRoot size

/-- Sorts a list by its runs, with a way to sort the runs that are left unsorted. -/
def sortByRuns? (eager : Bool) (sortItems? : List α → Option (List α)) (items : List α) :
    Option (List α) := do
  match ← runs? less (enoughFor items.length) eager items with
  | [] => return []
  | run :: rest =>
    let joined ← joinRuns? less sortItems? items.length [] run.items.length run rest
    joined.settled? sortItems?

end Deliberation.Sorting
