import Deliberation.Library

/-! Sorting invents nothing: what holds of all elements of a list holds of all elements of the sorted
list, whatever the relation. -/
namespace Deliberation.Sorting

variable {α : Type} {less : α → α → Bool} {p : α → Prop}

theorem insertDescending_members {x : α} {sorted : List α} (new : p x) (all : ∀ y ∈ sorted, p y) :
    ∀ y ∈ insertDescending less x sorted, p y := by
  induction sorted with
  | nil => simpa [insertDescending] using new
  | cons z rest ih =>
    obtain ⟨first, others⟩ := List.forall_mem_cons.mp all
    unfold insertDescending
    split
    · exact List.forall_mem_cons.mpr ⟨first, ih others⟩
    · exact List.forall_mem_cons.mpr ⟨new, all⟩

theorem insertAll_members {sorted items : List α} (old : ∀ y ∈ sorted, p y)
    (new : ∀ y ∈ items, p y) : ∀ y ∈ insertAll less sorted items, p y := by
  have inserted (descending : List α) (all : ∀ y ∈ descending, p y) :
      ∀ y ∈ items.foldl (fun descending x => insertDescending less x descending) descending,
        p y := by
    induction items generalizing descending with
    | nil => exact all
    | cons x rest ih =>
      obtain ⟨first, others⟩ := List.forall_mem_cons.mp new
      exact ih others _ (insertDescending_members first all)
  intro y member
  exact inserted sorted.reverse (by simpa using old) y (List.mem_reverse.mp member)

theorem sortByInsertion_members {items : List α} (all : ∀ y ∈ items, p y) :
    ∀ y ∈ sortByInsertion less items, p y :=
  insertAll_members (by simp) all

theorem sortTwo_members (less : α → α → Bool) {x y : α} (first : p x) (second : p y) :
    p (sortTwo less x y).1 ∧ p (sortTwo less x y).2 := by
  unfold sortTwo
  split
  · exact ⟨second, first⟩
  · exact ⟨first, second⟩

theorem sortFour_members {w x y z : α} (one : p w) (two : p x) (three : p y) (four : p z) :
    ∀ v ∈ sortFour less w x y z, p v := by
  obtain ⟨a, b⟩ := sortTwo_members less one two
  obtain ⟨c, d⟩ := sortTwo_members less three four
  have inner {u v : α} (left : p u) (right : p v) := sortTwo_members less left right
  simp only [sortFour]
  split <;> simp [*]

theorem takeLeast_members (less : α → α → Bool) (n : Nat) {left right : List α}
    (first : ∀ y ∈ left, p y) (second : ∀ y ∈ right, p y) :
    (∀ y ∈ (takeLeast less n left right).1, p y) ∧
      (∀ y ∈ (takeLeast less n left right).2.1, p y) ∧
      ∀ y ∈ (takeLeast less n left right).2.2, p y := by
  fun_induction takeLeast less n left right with
  | case1 n a left b right _ taken rests took ih =>
    obtain ⟨least, others⟩ := List.forall_mem_cons.mp second
    obtain ⟨low, rest⟩ := ih first others
    rw [took] at low rest
    exact ⟨List.forall_mem_cons.mpr ⟨least, low⟩, rest⟩
  | case2 n a left b right _ taken rests took ih =>
    obtain ⟨least, others⟩ := List.forall_mem_cons.mp first
    obtain ⟨low, rest⟩ := ih others second
    rw [took] at low rest
    exact ⟨List.forall_mem_cons.mpr ⟨least, low⟩, rest⟩
  | case3 => exact ⟨by simp, first, second⟩

theorem mergeFromFront_members {left right : List α} (first : ∀ y ∈ left, p y)
    (second : ∀ y ∈ right, p y) : ∀ y ∈ mergeFromFront less left right, p y := by
  intro y member
  exact (List.mem_merge.mp member).elim (first y) (second y)

theorem mergeFromBack_members {left right : List α} (first : ∀ y ∈ left, p y)
    (second : ∀ y ∈ right, p y) : ∀ y ∈ mergeFromBack less left right, p y := by
  intro y member
  rw [mergeFromBack, List.mem_reverse, List.mem_merge, List.mem_reverse, List.mem_reverse] at member
  exact member.elim (second y) (first y)

theorem mergeFromBothEnds?_members {left right merged : List α} (first : ∀ y ∈ left, p y)
    (second : ∀ y ∈ right, p y) (found : mergeFromBothEnds? less left right = some merged) :
    ∀ y ∈ merged, p y := by
  have first' : ∀ y ∈ left.reverse, p y := fun y member => first y (List.mem_reverse.mp member)
  have second' : ∀ y ∈ right.reverse, p y := fun y member => second y (List.mem_reverse.mp member)
  obtain ⟨low, fronts⟩ := takeLeast_members less ((left.length + right.length) / 2) first second
  obtain ⟨high, -⟩ :=
    takeLeast_members (flip less) ((left.length + right.length) / 2) second' first'
  simp only [mergeFromBothEnds?] at found
  split at found
  · obtain rfl := Option.some.inj found
    simp only [List.forall_mem_append, List.mem_reverse]
    refine ⟨⟨low, ?_, ?_⟩, high⟩
    · exact fun y member => fronts.1 y (List.mem_of_mem_take member)
    · exact fun y member => fronts.2 y (List.mem_of_mem_take member)
  · simp at found

theorem sortHalf_members {items : List α} (startsWithFour : Bool) (all : ∀ y ∈ items, p y) :
    ∀ y ∈ sortHalf less startsWithFour items, p y := by
  unfold sortHalf
  split
  · split
    · simp only [List.forall_mem_cons] at all
      exact insertAll_members (sortFour_members all.1 all.2.1 all.2.2.1 all.2.2.2.1) all.2.2.2.2
    · exact sortByInsertion_members all
  · exact sortByInsertion_members all

theorem sortShort?_members {items sorted : List α} (all : ∀ y ∈ items, p y)
    (found : sortShort? less items = some sorted) : ∀ y ∈ sorted, p y :=
  mergeFromBothEnds?_members
    (sortHalf_members _ fun y member => all y (List.mem_of_mem_take member))
    (sortHalf_members _ fun y member => all y (List.mem_of_mem_drop member)) found

/-- A way to sort that keeps what holds of all elements. -/
def Keeps (p : α → Prop) (sortItems? : List α → Option (List α)) : Prop :=
  ∀ {items sorted}, (∀ y ∈ items, p y) → sortItems? items = some sorted → ∀ y ∈ sorted, p y

theorem firstRun?_members {enough : Nat} {eager : Bool} {items : List α} {run : Run α}
    (all : ∀ y ∈ items, p y) (found : firstRun? less enough eager items = some run) :
    ∀ y ∈ run.items, p y := by
  have taken (n : Nat) : ∀ y ∈ items.take n, p y := fun y member =>
    all y (List.mem_of_mem_take member)
  simp only [firstRun?] at found
  split at found
  · obtain rfl := Option.some.inj found
    dsimp only
    split
    · simpa using taken _
    · exact taken _
  · split at found
    · obtain ⟨sorted, short, rfl⟩ := Option.map_eq_some_iff.mp found
      exact sortShort?_members (taken _) short
    · obtain rfl := Option.some.inj found
      exact taken _

theorem runs?_members {enough : Nat} {eager : Bool} {items : List α} {runs : List (Run α)}
    (all : ∀ y ∈ items, p y) (found : runs? less enough eager items = some runs) :
    ∀ run ∈ runs, ∀ y ∈ run.items, p y := by
  fun_induction runs? less enough eager items generalizing runs with
  | case1 =>
    obtain rfl := Option.some.inj found
    simp
  | case2 x rest ih =>
    obtain ⟨run, first, found⟩ := Option.bind_eq_some_iff.mp found
    obtain ⟨later, others, found⟩ := Option.bind_eq_some_iff.mp found
    obtain rfl := Option.some.inj found
    refine List.forall_mem_cons.mpr ⟨firstRun?_members all first, ih run ?_ others⟩
    intro y member
    exact all y (List.mem_cons_of_mem _ (List.mem_of_mem_drop member))

section Joining

variable {sortItems? : List α → Option (List α)} (keeps : Keeps p sortItems?)
include keeps

theorem Run.settled?_members {run : Run α} {sorted : List α} (all : ∀ y ∈ run.items, p y)
    (found : run.settled? sortItems? = some sorted) : ∀ y ∈ sorted, p y := by
  unfold Run.settled? at found
  split at found
  · obtain rfl := Option.some.inj found
    exact all
  · exact keeps all found

theorem Run.join?_members {left right joined : Run α} (first : ∀ y ∈ left.items, p y)
    (second : ∀ y ∈ right.items, p y) (found : left.join? less sortItems? right = some joined) :
    ∀ y ∈ joined.items, p y := by
  unfold Run.join? at found
  split at found
  · obtain ⟨a, settled, found⟩ := Option.bind_eq_some_iff.mp found
    obtain ⟨b, settled', found⟩ := Option.bind_eq_some_iff.mp found
    obtain rfl := Option.some.inj found
    have one := Run.settled?_members keeps first settled
    have two := Run.settled?_members keeps second settled'
    dsimp only
    split
    · exact mergeFromFront_members one two
    · exact mergeFromBack_members one two
  · obtain rfl := Option.some.inj found
    exact List.forall_mem_append.mpr ⟨first, second⟩

theorem joinBack?_members {depth : Nat} {earlier : List (Run α × Nat)} {run : Run α}
    {rest : List (Run α × Nat)} {joined : Run α}
    (before : ∀ entry ∈ earlier, ∀ y ∈ entry.1.items, p y) (last : ∀ y ∈ run.items, p y)
    (found : joinBack? less sortItems? depth earlier run = some (rest, joined)) :
    (∀ entry ∈ rest, ∀ y ∈ entry.1.items, p y) ∧ ∀ y ∈ joined.items, p y := by
  induction earlier generalizing run with
  | nil =>
    obtain ⟨rfl, rfl⟩ := Prod.mk.inj (Option.some.inj found)
    exact ⟨before, last⟩
  | cons entry earlier ih =>
    obtain ⟨here, others⟩ := List.forall_mem_cons.mp before
    rw [joinBack?] at found
    split at found
    · obtain ⟨both, joining, found⟩ := Option.bind_eq_some_iff.mp found
      exact ih others (Run.join?_members keeps here last joining) found
    · obtain ⟨rfl, rfl⟩ := Prod.mk.inj (Option.some.inj found)
      exact ⟨before, last⟩

theorem joinRuns?_members {size start : Nat} {earlier : List (Run α × Nat)} {run joined : Run α}
    {rest : List (Run α)} (before : ∀ entry ∈ earlier, ∀ y ∈ entry.1.items, p y)
    (last : ∀ y ∈ run.items, p y) (ahead : ∀ next ∈ rest, ∀ y ∈ next.items, p y)
    (found : joinRuns? less sortItems? size earlier start run rest = some joined) :
    ∀ y ∈ joined.items, p y := by
  induction rest generalizing earlier start run with
  | nil =>
    obtain ⟨⟨left, joined⟩, joining, rfl⟩ := Option.map_eq_some_iff.mp found
    exact (joinBack?_members keeps before last joining).2
  | cons next rest ih =>
    obtain ⟨here, others⟩ := List.forall_mem_cons.mp ahead
    rw [joinRuns?] at found
    obtain ⟨⟨left, middle⟩, joining, found⟩ := Option.bind_eq_some_iff.mp found
    obtain ⟨kept, both⟩ := joinBack?_members keeps before last joining
    exact ih (List.forall_mem_cons.mpr ⟨both, kept⟩) here others found

theorem sortByRuns?_members {eager : Bool} : Keeps p (sortByRuns? less eager sortItems?) := by
  intro items sorted all found
  obtain ⟨runs, cut, found⟩ := Option.bind_eq_some_iff.mp found
  have within := runs?_members all cut
  cases runs with
  | nil =>
    obtain rfl := Option.some.inj found
    simp
  | cons run rest =>
    obtain ⟨here, others⟩ := List.forall_mem_cons.mp within
    obtain ⟨joined, joining, settled⟩ := Option.bind_eq_some_iff.mp found
    exact Run.settled?_members keeps (joinRuns?_members keeps (by simp) here others joining) settled

end Joining

theorem Split.of?_members {items : List α} {s : Split α} (all : ∀ y ∈ items, p y)
    (found : Split.of? less items = some s) :
    (∀ y ∈ s.before, p y) ∧ p s.pivot ∧ ∀ y ∈ s.after, p y := by
  simp only [Split.of?] at found
  split at found
  · simp at found
  · rename_i pivot after dropped
    obtain rfl := Option.some.inj found
    have rest : ∀ y ∈ pivot :: after, p y := fun y member =>
      all y (List.mem_of_mem_drop (dropped ▸ member))
    exact ⟨fun y member => all y (List.mem_of_mem_take member), List.forall_mem_cons.mp rest⟩

theorem Split.select_members {s : Split α} (before : ∀ y ∈ s.before, p y) (pivot : p s.pivot)
    (after : ∀ y ∈ s.after, p y) (withPivot : Bool) (condition : α → Bool) :
    ∀ y ∈ s.select withPivot condition, p y := by
  have right : ∀ y ∈ s.after.filter condition, p y := fun y member =>
    after y ((List.mem_filter.mp member).1)
  unfold Split.select
  refine List.forall_mem_append.mpr ⟨fun y member => before y ((List.mem_filter.mp member).1), ?_⟩
  split
  · exact List.forall_mem_cons.mpr ⟨pivot, right⟩
  · exact right

theorem sortByPivots?_members (limit : Nat) (floor : Option α) :
    Keeps p (sortByPivots? less limit floor) := by
  have short : Keeps p (sortShort? less) := fun all found => sortShort?_members all found
  induction limit generalizing floor with
  | zero =>
    intro items sorted all found
    unfold sortByPivots? at found
    split at found
    · exact short all found
    · exact sortByRuns?_members short all found
  | succ limit ih =>
    intro items sorted all found
    unfold sortByPivots? at found
    split at found
    · exact short all found
    · split at found
      · obtain rfl := Option.some.inj found
        exact all
      · rename_i s cut
        obtain ⟨before, pivot, after⟩ := Split.of?_members all cut
        have part := Split.select_members before pivot after
        dsimp only at found
        split at found
        · obtain ⟨higher, sorting, found⟩ := Option.bind_eq_some_iff.mp found
          obtain rfl := Option.some.inj found
          exact List.forall_mem_append.mpr ⟨part _ _, ih none (part _ _) sorting⟩
        · obtain ⟨higher, sorting, found⟩ := Option.bind_eq_some_iff.mp found
          obtain ⟨lower, sorting', found⟩ := Option.bind_eq_some_iff.mp found
          obtain rfl := Option.some.inj found
          exact List.forall_mem_append.mpr
            ⟨ih floor (part _ _) sorting', ih (some s.pivot) (part _ _) sorting⟩

theorem sort?_members : Keeps p (sort? less) := by
  intro items sorted all found
  unfold sort? at found
  split at found
  · obtain rfl := Option.some.inj found
    exact sortByInsertion_members all
  · exact sortByRuns?_members (fun all found => sortByPivots?_members _ none all found) all found

end Deliberation.Sorting

/-- Every element of a sorted sequence is one of the sequence. -/
theorem Deliberation.Library.sort?_mem {items sorted : List Term}
    (found : sort? items = some sorted) : ∀ t ∈ sorted, t ∈ items := by
  unfold sort? at found
  split at found
  · obtain rfl := Option.some.inj found
    exact fun t member => List.mem_mergeSort.mp member
  · exact Sorting.sort?_members (fun _ member => member) found
