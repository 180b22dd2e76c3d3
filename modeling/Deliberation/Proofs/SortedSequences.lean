import Deliberation.Library
import Deliberation.Proofs.HeldSolutions
import Deliberation.Proofs.StandardActions
import Deliberation.Proofs.StandardOrder

/-! Sorting a sequence and taking its extremes. Terms whose numbers are of one kind are totally
preordered, and such terms have just one ascending arrangement in which ties keep their order. Sorting
finds it, the first least element stands at its beginning and the last greatest at its end. -/
namespace Deliberation

namespace Sorting

variable {α : Type} {le : α → α → Bool} {items : List α}

/-- A total preorder of the elements of a list, which need not be one of anything else. -/
structure TotalAmong (le : α → α → Bool) (items : List α) : Prop where
  trans : ∀ a ∈ items, ∀ b ∈ items, ∀ c ∈ items, le a b → le b c → le a c
  total : ∀ a ∈ items, ∀ b ∈ items, le a b || le b a

namespace TotalAmong

/-- The relation on the elements alone. The laws of merge sort ask for a preorder of everything, which
it is. -/
def restrict (le : α → α → Bool) (items : List α) (a b : {a // a ∈ items}) : Bool := le a b

theorem map_mergeSort_restrict (le : α → α → Bool) (items : List α) :
    (items.attach.mergeSort (restrict le items)).map Subtype.val = items.mergeSort le := by
  have same : ∀ a ∈ items.attach, ∀ b ∈ items.attach, restrict le items a b = le a b :=
    fun _ _ _ _ => rfl
  rw [List.map_mergeSort same, List.attach_map_subtype_val]

theorem pairwise_mergeSort (among : TotalAmong le items) :
    (items.mergeSort le).Pairwise fun a b => le a b := by
  rw [← map_mergeSort_restrict, List.pairwise_map]
  exact @List.pairwise_mergeSort _ (restrict le items)
    (fun a b c => among.trans a a.2 b b.2 c c.2) (fun a b => among.total a a.2 b b.2) _

/-- A part that is in order keeps its order. -/
theorem sublist_mergeSort (among : TotalAmong le items) {part : List α} (inside : part.Sublist items)
    (ordered : part.Pairwise fun a b => le a b) : part.Sublist (items.mergeSort le) := by
  rw [← List.attach_map_subtype_val items] at inside
  obtain ⟨chosen, within, rfl⟩ := List.sublist_map_iff.mp inside
  have kept := @List.sublist_mergeSort _ (restrict le items) items.attach
    (fun a b c => among.trans a a.2 b b.2 c c.2) (fun a b => among.total a a.2 b b.2)
    chosen (List.pairwise_map.mp ordered) within
  rw [← map_mergeSort_restrict]
  exact kept.map Subtype.val

/-- Elements that all tie with each other keep their order. -/
theorem filter_mergeSort (among : TotalAmong le items) {p : α → Bool}
    (tied : ∀ a ∈ items, ∀ b ∈ items, p a → p b → le a b) :
    (items.mergeSort le).filter p = items.filter p := by
  have ordered : (items.filter p).Pairwise fun a b => le a b :=
    List.pairwise_of_forall_mem_list fun a first b second => by
      rw [List.mem_filter] at first second
      exact tied a first.1 b second.1 first.2 second.2
  have within := (among.sublist_mergeSort List.filter_sublist ordered).filter p
  rw [List.filter_filter] at within
  simp only [Bool.and_self] at within
  exact (within.eq_of_length ((List.mergeSort_perm items le).filter p).length_eq.symm).symm

end TotalAmong

/-- A relation that is transitive among the elements of a list, and so is its failure. -/
structure RanksAmong (keep : α → α → Bool) (items : List α) : Prop where
  trans : ∀ a ∈ items, ∀ b ∈ items, ∀ c ∈ items, keep a b → keep b c → keep a c
  trans_not : ∀ a ∈ items, ∀ b ∈ items, ∀ c ∈ items,
    keep a b = false → keep b c = false → keep a c = false

theorem TotalAmong.ranks (among : TotalAmong le items) : RanksAmong le items where
  trans := among.trans
  trans_not a first b second c third above above' := by
    have down : le c b := by simpa [above'] using among.total b second c third
    refine Bool.eq_false_iff.mpr fun below => ?_
    have up := among.trans a first c third b second below down
    simp [above] at up

theorem RanksAmong.not {keep : α → α → Bool} (ranks : RanksAmong keep items) :
    RanksAmong (fun a b => !keep a b) items where
  trans := by simpa using ranks.trans_not
  trans_not := by simpa using ranks.trans

/-- What a scan keeps: nothing in front of it is kept against it, and it is kept against everything
behind it. -/
def Kept (keep : α → α → Bool) (items : List α) (m : α) : Prop :=
  ∃ before after, items = before ++ m :: after ∧ (∀ v ∈ before, keep v m = false) ∧
    ∀ v ∈ after, keep m v = true

namespace Kept

variable {keep : α → α → Bool} {seen rest : List α} {m u : α}

theorem mem (kept : Kept keep items m) : m ∈ items := by
  obtain ⟨before, after, rfl, -, -⟩ := kept
  simp

theorem alone (keep : α → α → Bool) (m : α) : Kept keep [m] m := ⟨[], [], rfl, by simp, by simp⟩

/-- One more element is behind the one kept, or takes its place. -/
theorem next (ranks : RanksAmong keep items) (inside : seen ⊆ items) (more : u ∈ items)
    (kept : Kept keep seen m) : Kept keep (seen ++ [u]) (if keep m u then m else u) := by
  have here := inside kept.mem
  obtain ⟨before, after, rfl, front, back⟩ := kept
  cases beats : keep m u with
  | true =>
    refine ⟨before, after ++ [u], by simp, front, ?_⟩
    simpa [or_imp, forall_and] using ⟨back, beats⟩
  | false =>
    refine ⟨before ++ m :: after, [], by simp, fun v member => ?_, by simp⟩
    rcases List.mem_append.mp member with early | late
    · exact ranks.trans_not v (inside member) m here u more (front v early) beats
    · rcases List.mem_cons.mp late with rfl | behind
      · exact beats
      · refine Bool.eq_false_iff.mpr fun beaten => ?_
        have further := ranks.trans m here v (inside member) u more (back v behind) beaten
        simp [beats] at further

/-- A scan keeps one element to its end. -/
theorem foldl (ranks : RanksAmong keep items) (inside : seen ++ rest ⊆ items)
    (kept : Kept keep seen m) :
    Kept keep (seen ++ rest) (rest.foldl (fun m u => if keep m u then m else u) m) := by
  induction rest generalizing seen m with
  | nil => simpa using kept
  | cons u rest ih =>
    have before : seen ⊆ items := fun v member => inside (List.mem_append_left _ member)
    have more : u ∈ items := inside (by simp)
    rw [List.append_cons] at inside ⊢
    exact ih inside (next ranks before more kept)

end Kept

end Sorting

namespace Number

/-- Only integers and floats together are blurred. -/
theorem Blurred.mixed {m n k : Number} (blurred : Blurred m n k) :
    ¬ (m.isInt = n.isInt ∧ n.isInt = k.isInt) := by
  rcases blurred with together | together | together <;> cases m <;> cases n <;> cases k <;>
    simp_all [RoundTogether, isInt]

end Number

namespace Term

variable {items : List Term}

/-- The numbers in some terms, annotations apart, are all integers or all floats. -/
def OneKindOfNumber (items : List Term) : Prop :=
  (∀ n ∈ numbersIn items, n.isInt = true) ∨ (∀ n ∈ numbersIn items, n.isInt = false)

theorem mem_numbersIn {n : Number} : n ∈ numbersIn items ↔ ∃ t ∈ items, n ∈ t.numbers := by
  induction items with
  | nil => simp [numbersIn]
  | cons t rest ih => simp [numbersIn, ih]

theorem numbersAllIn_eq {p : Number → Bool}
    (each : ∀ t ∈ items, t.numbersAll p = t.numbers.all p) :
    numbersAllIn p items = (numbersIn items).all p := by
  induction items with
  | nil => rfl
  | cons t rest ih =>
    obtain ⟨first, others⟩ := List.forall_mem_cons.mp each
    rw [numbersAllIn, numbersIn, List.all_append, first, ih others]

theorem numbersAll_eq (p : Number → Bool) (t : Term) : t.numbersAll p = t.numbers.all p := by
  induction t using partsInduction with
  | var v => rfl
  | num n => simp [numbersAll, numbers]
  | str s => rfl
  | seq items ih => exact numbersAllIn_eq ih
  | lit functor args annots ih => exact numbersAllIn_eq ih

theorem haveOneKindOfNumber_iff :
    Library.haveOneKindOfNumber items = true ↔ OneKindOfNumber items := by
  simp [Library.haveOneKindOfNumber, numbersAllIn_eq fun t _ => numbersAll_eq _ t, OneKindOfNumber]

namespace OneKindOfNumber

theorem mono {fewer : List Term} (kind : OneKindOfNumber items) (inside : fewer ⊆ items) :
    OneKindOfNumber fewer := by
  have among : ∀ n ∈ numbersIn fewer, n ∈ numbersIn items := by
    intro n found
    obtain ⟨t, member, here⟩ := mem_numbersIn.mp found
    exact mem_numbersIn.mpr ⟨t, inside member, here⟩
  exact kind.imp (fun ints n found => ints n (among n found))
    fun floats n found => floats n (among n found)

theorem isInt_eq (kind : OneKindOfNumber items) {m n : Number} (first : m ∈ numbersIn items)
    (second : n ∈ numbersIn items) : m.isInt = n.isInt := by
  rcases kind with ints | floats
  · rw [ints m first, ints n second]
  · rw [floats m first, floats n second]

theorem chained (kind : OneKindOfNumber items) {a b c : Term} (first : a ∈ items)
    (second : b ∈ items) (third : c ∈ items) :
    Chained (a.order b) (b.order c) (a.order c) := by
  refine order_chained fun ⟨m, inFirst, n, inSecond, k, inThird, blurred⟩ => blurred.mixed ?_
  have left := mem_numbersIn.mpr ⟨a, first, inFirst⟩
  have middle := mem_numbersIn.mpr ⟨b, second, inSecond⟩
  have right := mem_numbersIn.mpr ⟨c, third, inThird⟩
  exact ⟨kind.isInt_eq left middle, kind.isInt_eq middle right⟩

theorem totalAmong (kind : OneKindOfNumber items) :
    Sorting.TotalAmong (fun a b => a.order b != .gt) items where
  trans a first b second c third below above := by
    rw [bne_iff_ne] at below above ⊢
    exact (kind.chained first second third).ne_gt below above
  total a _ b _ := by
    rw [order_swap a b]
    cases a.order b <;> rfl

end OneKindOfNumber

theorem order_self (t : Term) : t.order t = .eq := by
  have swapped := order_swap t t
  cases same : t.order t <;> simp_all

theorem tied_of_not_above {a b : Term} (up : a.order b ≠ .gt) (down : b.order a ≠ .gt) :
    a.order b = .eq := by
  rw [order_swap a b] at down
  cases found : a.order b <;> simp_all

/-- The elements that tie with a term. -/
def tiesOf (t : Term) (items : List Term) : List Term := items.filter fun u => t.order u == .eq

/-- A list with the elements of another one in ascending order, where ties stand as they stood. -/
structure StablySorted (items arranged : List Term) : Prop where
  perm : arranged.Perm items
  ascending : arranged.Pairwise fun a b => a.order b ≠ .gt
  stable : ∀ t ∈ items, t.tiesOf arranged = t.tiesOf items

theorem head_not_above {a : Term} {rest : List Term}
    (ascending : (a :: rest).Pairwise fun a b => a.order b ≠ .gt) :
    ∀ t ∈ a :: rest, a.order t ≠ .gt := by
  intro t member
  rcases List.mem_cons.mp member with rfl | behind
  · simp [order_self]
  · exact List.rel_of_pairwise_cons ascending behind

theorem last_not_below {a : Term} {others : List Term}
    (ascending : (others ++ [a]).Pairwise fun a b => a.order b ≠ .gt) :
    ∀ t ∈ others ++ [a], t.order a ≠ .gt := by
  intro t member
  rcases List.mem_append.mp member with before | last
  · exact (List.pairwise_append.mp ascending).2.2 t before a List.mem_cons_self
  · simp [List.mem_singleton.mp last, order_self]

theorem tiesOf_cons_tied {t a : Term} (tied : t.order a = .eq) (rest : List Term) :
    t.tiesOf (a :: rest) = a :: t.tiesOf rest := by
  simp [tiesOf, tied]

/-- Two ascending lists of the same elements, with ties in the same order, begin alike and so on. -/
theorem eq_of_ascending {xs ys : List Term} (perm : xs.Perm ys)
    (ascending : xs.Pairwise fun a b => a.order b ≠ .gt)
    (ascending' : ys.Pairwise fun a b => a.order b ≠ .gt)
    (ties : ∀ t ∈ xs, t.tiesOf xs = t.tiesOf ys) : xs = ys := by
  induction xs generalizing ys with
  | nil => exact perm.nil_eq
  | cons a xs ih =>
    cases ys with
    | nil => exact perm.eq_nil
    | cons b ys =>
      have tied : a.order b = .eq :=
        tied_of_not_above (head_not_above ascending b (perm.mem_iff.mpr List.mem_cons_self))
          (head_not_above ascending' a (perm.mem_iff.mp List.mem_cons_self))
      -- Each head is the first of the ties of `a` in its list.
      obtain rfl : a = b := by
        have here := ties a List.mem_cons_self
        rw [tiesOf_cons_tied (order_self a), tiesOf_cons_tied tied] at here
        exact (List.cons.inj here).1
      refine congrArg (a :: ·) (ih perm.cons_inv ascending.tail ascending'.tail fun t member => ?_)
      have here := ties t (List.mem_cons_of_mem _ member)
      simp only [tiesOf, List.filter_cons] at here ⊢
      split at here
      · exact (List.cons.inj here).2
      · exact here

theorem StablySorted.unique {arranged other : List Term} (sorted : StablySorted items arranged)
    (sorted' : StablySorted items other) : other = arranged := by
  refine eq_of_ascending (sorted'.perm.trans sorted.perm.symm) sorted'.ascending sorted.ascending
    fun t member => ?_
  have inside := sorted'.perm.mem_iff.mp member
  rw [sorted.stable t inside, sorted'.stable t inside]

/-- What is sorted already is its own stable arrangement. -/
theorem StablySorted.again {arranged : List Term} (sorted : StablySorted items arranged) :
    StablySorted arranged arranged :=
  ⟨.refl _, sorted.ascending, fun _ _ => rfl⟩

theorem sort?_stablySorted (kind : OneKindOfNumber items) :
    ∃ arranged, Library.sort? items = some arranged ∧ StablySorted items arranged := by
  refine ⟨_, if_pos (haveOneKindOfNumber_iff.mpr kind), List.mergeSort_perm _ _, ?_, ?_⟩
  · simpa using kind.totalAmong.pairwise_mergeSort
  · intro t member
    refine kind.totalAmong.filter_mergeSort fun a first b second tied tied' => ?_
    rw [beq_iff_eq] at tied tied'
    have chained := (kind.chained first member second).left_tie
    rw [order_swap t a, tied] at chained
    simp [chained rfl, tied']

/-- Kept by a scan for the first least element. -/
def FirstLeast (items : List Term) (m : Term) : Prop :=
  Sorting.Kept (fun a b => a.order b != .gt) items m

/-- Kept by a scan for the last greatest element. -/
def LastGreatest (items : List Term) (m : Term) : Prop :=
  Sorting.Kept (fun a b => a.order b == .gt) items m

variable {m : Term}

theorem least_firstLeast (kind : OneKindOfNumber items) (found : Library.least items = some m) :
    FirstLeast items m := by
  cases items with
  | nil => simp [Library.least] at found
  | cons t rest =>
    obtain rfl := Option.some.inj found
    have kept := Sorting.Kept.foldl kind.totalAmong.ranks (List.Subset.refl (t :: rest))
      (Sorting.Kept.alone _ t)
    have scan : (fun best u : Term => if best.order u = .gt then u else best) =
        fun best u => if (best.order u != .gt) = true then best else u := by
      funext best u
      cases best.order u <;> rfl
    rw [scan]
    exact kept

theorem greatest_lastGreatest (kind : OneKindOfNumber items)
    (found : Library.greatest items = some m) : LastGreatest items m := by
  cases items with
  | nil => simp [Library.greatest] at found
  | cons t rest =>
    obtain rfl := Option.some.inj found
    have ranks : Sorting.RanksAmong (fun a b : Term => a.order b == .gt) (t :: rest) := by
      simpa [bne] using kind.totalAmong.ranks.not
    have kept := Sorting.Kept.foldl ranks (List.Subset.refl (t :: rest)) (Sorting.Kept.alone _ t)
    simp only [beq_iff_eq] at kept
    exact kept

theorem FirstLeast.lowest (kept : FirstLeast items m) : ∀ v ∈ items, m.order v ≠ .gt := by
  obtain ⟨before, after, rfl, front, back⟩ := kept
  simp only [bne_eq_false_iff_eq, bne_iff_ne] at front back
  simp only [List.mem_append, List.mem_cons]
  rintro v (early | rfl | late)
  · simp [order_swap v m, front v early]
  · simp [order_self]
  · exact back v late

theorem FirstLeast.ties (kept : FirstLeast items m) : (m.tiesOf items).head? = some m := by
  obtain ⟨before, after, rfl, front, -⟩ := kept
  have above : before.filter (fun v => m.order v == .eq) = [] := by
    refine List.filter_eq_nil_iff.mpr fun v member => ?_
    simp [order_swap v m, show v.order m = .gt by simpa using front v member]
  simp [tiesOf, above, order_self]

theorem LastGreatest.highest (kept : LastGreatest items m) : ∀ v ∈ items, v.order m ≠ .gt := by
  obtain ⟨before, after, rfl, front, back⟩ := kept
  simp only [beq_eq_false_iff_ne, beq_iff_eq] at front back
  simp only [List.mem_append, List.mem_cons]
  rintro v (early | rfl | late)
  · exact front v early
  · simp [order_self]
  · simp [order_swap m v, back v late]

theorem LastGreatest.ties (kept : LastGreatest items m) : (m.tiesOf items).getLast? = some m := by
  obtain ⟨before, after, rfl, -, back⟩ := kept
  have below : after.filter (fun v => m.order v == .eq) = [] := by
    refine List.filter_eq_nil_iff.mpr fun v member => ?_
    simp [show m.order v = .gt by simpa using back v member]
  simp [tiesOf, below, order_self]

theorem StablySorted.head?_eq {arranged : List Term} (sorted : StablySorted items arranged)
    (kept : FirstLeast items m) : arranged.head? = some m := by
  have inside := sorted.perm.mem_iff.mpr kept.mem
  cases arranged with
  | nil => exact absurd inside List.not_mem_nil
  | cons a rest =>
    have tied : m.order a = .eq :=
      tied_of_not_above (kept.lowest a (sorted.perm.mem_iff.mp List.mem_cons_self))
        (head_not_above sorted.ascending m inside)
    have first := kept.ties
    rwa [← sorted.stable m kept.mem, tiesOf_cons_tied tied] at first

theorem StablySorted.getLast?_eq {arranged : List Term} (sorted : StablySorted items arranged)
    (kept : LastGreatest items m) : arranged.getLast? = some m := by
  have inside := sorted.perm.mem_iff.mpr kept.mem
  rcases List.eq_nil_or_concat arranged with rfl | ⟨others, a, rfl⟩
  · exact absurd inside List.not_mem_nil
  · rw [List.concat_eq_append] at sorted inside ⊢
    have tied : m.order a = .eq :=
      tied_of_not_above (last_not_below sorted.ascending m inside)
        (kept.highest a (sorted.perm.mem_iff.mp (List.mem_append_right _ List.mem_cons_self)))
    have last := kept.ties
    rw [← sorted.stable m kept.mem] at last
    simpa [tiesOf, tied] using last

theorem least_eq_head? {arranged : List Term} (kind : OneKindOfNumber items)
    (sorted : StablySorted items arranged) : Library.least items = arranged.head? := by
  cases found : Library.least items with
  | some m => exact (sorted.head?_eq (least_firstLeast kind found)).symm
  | none =>
    cases items with
    | nil => simp [sorted.perm.eq_nil]
    | cons t rest => simp [Library.least] at found

theorem greatest_eq_getLast? {arranged : List Term} (kind : OneKindOfNumber items)
    (sorted : StablySorted items arranged) : Library.greatest items = arranged.getLast? := by
  cases found : Library.greatest items with
  | some m => exact (sorted.getLast?_eq (greatest_lastGreatest kind found)).symm
  | none =>
    cases items with
    | nil => simp [sorted.perm.eq_nil]
    | cons t rest => simp [Library.greatest] at found

end Term

namespace Query

variable {ctx : Context}

/-- Sorting a sequence of terms with one kind of number has the one arrangement of it for a result
that is ascending and keeps the order of ties. Sorting it again changes nothing, and the extremes of
the sequence are its ends. An empty sequence has none. -/
theorem sort_agrees_with_extremes (known : ∀ name ∈ [".sort", ".min", ".max"],
      ctx.actions.lookup name 2 = Library.standard.lookup name 2) {items : List Term}
    (kind : Term.OneKindOfNumber items) :
    ∃ arranged, Term.StablySorted items arranged ∧
      (∀ other, Term.StablySorted items other → other = arranged) ∧
      Computes ctx ".sort" (.seq items) (.ok (.seq arranged)) ∧
      Computes ctx ".sort" (.seq arranged) (.ok (.seq arranged)) ∧
      Computes ctx ".min" (.seq items)
        (arranged.head?.elim (.error (.raised (.precondition ".min" "empty sequence"))) .ok) ∧
      Computes ctx ".max" (.seq items)
        (arranged.getLast?.elim (.error (.raised (.precondition ".max" "empty sequence"))) .ok) := by
  obtain ⟨arranged, found, sorted⟩ := Term.sort?_stablySorted kind
  have again : Library.sort? arranged = some arranged := by
    obtain ⟨same, found, sorted'⟩ :=
      Term.sort?_stablySorted (kind.mono fun t member => sorted.perm.mem_iff.mp member)
    rw [found, sorted.again.unique sorted']
  have sorts {given result : List Term} (found : Library.sort? given = some result) :
      Computes ctx ".sort" (.seq given) (.ok (.seq result)) := by
    refine function_computes (by decide) (known ".sort" (by simp)) rfl fun _ => ?_
    simp only [Library.sorted, Library.sequenceOf, found]
  refine ⟨arranged, sorted, fun _ => sorted.unique, sorts found, sorts again, ?_, ?_⟩
  · refine function_computes (by decide) (known ".min" (by simp)) rfl fun _ => ?_
    rw [← Term.least_eq_head? kind sorted]
    simp only [Library.extremum, Library.sequenceOf]
    cases Library.least items <;> rfl
  · refine function_computes (by decide) (known ".max" (by simp)) rfl fun _ => ?_
    rw [← Term.greatest_eq_getLast? kind sorted]
    simp only [Library.extremum, Library.sequenceOf]
    cases Library.greatest items <;> rfl

/-- Two ties around what lies below them, with a float where the order does not look. -/
def tiedItems : List Term :=
  [.lit "p" [.int 2] [.num (.float ⟨0x4340000000000000⟩)], .lit "p" [.int 1] [],
    .lit "p" [.int 2] []]

/-- The same in order. -/
def tiedInOrder : List Term :=
  [.lit "p" [.int 1] [], .lit "p" [.int 2] [.num (.float ⟨0x4340000000000000⟩)],
    .lit "p" [.int 2] []]

theorem sort_agrees_with_extremes_ties :
    Term.OneKindOfNumber tiedItems ∧
      (∃ first, (Query.new (.lit ".sort" [.seq tiedItems, .var ⟨4⟩] [])).Resumes .sample .sample
        first ∧ UnifiesOnce .sample .sample (.var ⟨4⟩) (.seq tiedInOrder) first) ∧
      Computes .sample ".min" (.seq tiedItems) (.ok (.lit "p" [.int 1] [])) ∧
      Computes .sample ".max" (.seq tiedItems) (.ok (.lit "p" [.int 2] [])) := by
  have kind : Term.OneKindOfNumber tiedItems := .inl (by decide)
  have inOrder : Term.StablySorted tiedItems tiedInOrder := by
    refine ⟨.swap _ _ _, by decide, ?_⟩
    simp only [tiedItems, List.forall_mem_cons]
    exact ⟨rfl, rfl, rfl, by simp⟩
  obtain ⟨arranged, -, unique, sorts, -, least, greatest⟩ :=
    @sort_agrees_with_extremes .sample (fun _ _ => rfl) tiedItems kind
  obtain rfl := unique tiedInOrder inOrder
  exact ⟨kind, sorts .sample _ (.seq tiedItems) (.var ⟨4⟩) [] rfl rfl, least, greatest⟩

end Query

end Deliberation
