import Deliberation.Belief
import Mathlib.Data.List.Nodup
import Mathlib.Data.List.Perm.Basic

/-! An index against the list of its members. Every member is filed under its group, where the order
of the list is kept, and a group goes with its last member. The groups of a base are listed in
increasing order. -/
namespace Deliberation

namespace Group

instance : Std.TransCmp order :=
  inferInstanceAs (Std.TransCmp (compareLex (compareOn functor) (compareOn arity)))

theorem eq_of_order {g h : Group} (same : g.order h = .eq) : g = h := by
  obtain ⟨functors, arities⟩ := Ordering.then_eq_eq.mp same
  cases g
  cases h
  obtain rfl := Std.LawfulEqCmp.eq_of_compare functors
  obtain rfl := Std.LawfulEqCmp.eq_of_compare arities
  rfl

/-- Each group comes before all that follow it. -/
abbrev Increasing (groups : List Group) : Prop := groups.Pairwise fun g h => g.order h = .lt

theorem mem_insertSorted {g h : Group} {sorted : List Group} :
    h ∈ g.insertSorted sorted ↔ h = g ∨ h ∈ sorted := by
  induction sorted with
  | nil => simp [insertSorted]
  | cons first rest ih =>
    cases order : g.order first with
    | lt => simp [insertSorted, order]
    | eq =>
      obtain rfl := eq_of_order order
      simp [insertSorted, order]
    | gt =>
      simp only [insertSorted, order, List.mem_cons, ih]
      exact or_left_comm

theorem insertSorted_increasing (g : Group) {sorted : List Group} (increasing : Increasing sorted) :
    Increasing (g.insertSorted sorted) := by
  induction sorted with
  | nil => simp [insertSorted]
  | cons first rest ih =>
    obtain ⟨least, others⟩ := List.pairwise_cons.mp increasing
    cases order : g.order first with
    | lt =>
      simp only [insertSorted, order]
      apply List.pairwise_cons.mpr ⟨?_, increasing⟩
      intro h member
      rcases List.mem_cons.mp member with rfl | later
      · exact order
      · exact Std.TransCmp.lt_trans order (least h later)
    | eq => simpa only [insertSorted, order] using increasing
    | gt =>
      simp only [insertSorted, order]
      apply List.pairwise_cons.mpr ⟨?_, ih others⟩
      intro h member
      rcases mem_insertSorted.mp member with rfl | later
      · exact Std.OrientedCmp.gt_iff_lt.mp order
      · exact least h later

/-- Inserting groups one by one gives those groups, each once and in order. -/
theorem foldl_insertSorted (groups sorted : List Group) (increasing : Increasing sorted) :
    Increasing (groups.foldl (fun sorted g => g.insertSorted sorted) sorted) ∧
      ∀ h, h ∈ groups.foldl (fun sorted g => g.insertSorted sorted) sorted ↔
        h ∈ groups ∨ h ∈ sorted := by
  induction groups generalizing sorted with
  | nil => simpa using increasing
  | cons g rest ih =>
    obtain ⟨ordered, members⟩ := ih _ (insertSorted_increasing g increasing)
    refine ⟨ordered, fun h => ?_⟩
    rw [List.foldl_cons, members, mem_insertSorted, List.mem_cons]
    constructor
    · rintro (later | rfl | old)
      · exact .inl (.inr later)
      · exact .inl (.inl rfl)
      · exact .inr old
    · rintro ((rfl | later) | old)
      · exact .inr (.inl rfl)
      · exact .inl later
      · exact .inr (.inr old)

theorem Increasing.nodup {groups : List Group} (increasing : Increasing groups) :
    groups.Nodup := by
  apply increasing.imp
  rintro g _ before rfl
  have same : g.order g = .eq := Std.ReflCmp.compare_self
  simp [same] at before

end Group

namespace Index

variable {α : Type}

theorem members_cons (h g : Group) (as : List α) (rest : Index α) :
    members ((h, as) :: rest) g = if h = g then as else members rest g := by
  by_cases same : h = g
  · subst same
    simp [members]
  · have unequal : (g == h) = false := beq_eq_false_iff_ne.mpr (Ne.symm same)
    simp [members, same, List.lookup_cons, unequal]

theorem members_of_absent {index : Index α} {g : Group} (absent : g ∉ index.groups) :
    index.members g = [] := by
  induction index with
  | nil => rfl
  | cons entry rest ih =>
    obtain ⟨h, as⟩ := entry
    simp only [groups, List.map_cons, List.mem_cons, not_or] at absent
    rw [members_cons, if_neg (Ne.symm absent.1)]
    exact ih absent.2

theorem mem_groups_insert {index : Index α} {g h : Group} {a : α} :
    h ∈ (index.insert g a).groups ↔ h = g ∨ h ∈ index.groups := by
  induction index with
  | nil => simp [insert, groups]
  | cons entry rest ih =>
    obtain ⟨k, as⟩ := entry
    by_cases same : k = g
    · subst same
      simp [insert, groups]
    · simp only [groups, List.mem_map] at ih
      simp only [insert, same, if_false, groups, List.map_cons, List.mem_cons, List.mem_map, ih]
      exact or_left_comm

theorem groups_insert_nodup {index : Index α} (g : Group) (a : α) (distinct : index.groups.Nodup) :
    (index.insert g a).groups.Nodup := by
  induction index with
  | nil => simp [insert, groups]
  | cons entry rest ih =>
    obtain ⟨h, as⟩ := entry
    obtain ⟨fresh, others⟩ := List.nodup_cons.mp distinct
    by_cases same : h = g
    · simpa [insert, same, groups] using distinct
    · simp only [insert, same, if_false]
      apply List.nodup_cons.mpr ⟨?_, ih others⟩
      intro member
      rcases mem_groups_insert.mp member with here | old
      · exact same here
      · exact fresh old

theorem inhabited_insert {index : Index α} (g : Group) (a : α)
    (inhabited : ∀ entry ∈ index, entry.2 ≠ []) : ∀ entry ∈ index.insert g a, entry.2 ≠ [] := by
  induction index with
  | nil => simp [insert]
  | cons first rest ih =>
    obtain ⟨h, as⟩ := first
    obtain ⟨here, others⟩ := List.forall_mem_cons.mp inhabited
    unfold insert
    split
    · exact List.forall_mem_cons.mpr ⟨by simp, others⟩
    · exact List.forall_mem_cons.mpr ⟨here, ih others⟩

theorem inhabited_replace {index : Index α} (g : Group) (left : List α)
    (inhabited : ∀ entry ∈ index, entry.2 ≠ []) : ∀ entry ∈ index.replace g left, entry.2 ≠ [] := by
  induction index with
  | nil => simp [replace]
  | cons first rest ih =>
    obtain ⟨h, as⟩ := first
    obtain ⟨here, others⟩ := List.forall_mem_cons.mp inhabited
    unfold replace
    split
    · split
      · exact others
      · rename_i some
        exact List.forall_mem_cons.mpr ⟨by simpa using some, others⟩
    · exact List.forall_mem_cons.mpr ⟨here, ih others⟩

theorem members_of_present {index : Index α} {g : Group} (present : g ∈ index.groups)
    (inhabited : ∀ entry ∈ index, entry.2 ≠ []) : index.members g ≠ [] := by
  induction index with
  | nil => simp [groups] at present
  | cons first rest ih =>
    obtain ⟨h, as⟩ := first
    obtain ⟨here, others⟩ := List.forall_mem_cons.mp inhabited
    rw [members_cons]
    by_cases same : h = g
    · rwa [if_pos same]
    · rw [if_neg same]
      rcases List.mem_cons.mp present with first | later
      · exact absurd first.symm same
      · exact ih later others

theorem groups_replace_sublist (index : Index α) (g : Group) (left : List α) :
    (index.replace g left).groups.Sublist index.groups := by
  induction index with
  | nil => exact List.Sublist.refl _
  | cons entry rest ih =>
    obtain ⟨h, as⟩ := entry
    unfold replace
    split
    · split
      · exact List.sublist_cons_self _ _
      · exact List.Sublist.refl _
    · exact ih.cons_cons _

theorem members_replace {index : Index α} {g : Group} (present : g ∈ index.groups)
    (distinct : index.groups.Nodup) (left : List α) (h : Group) :
    (index.replace g left).members h = if h = g then left else index.members h := by
  induction index with
  | nil => simp [groups] at present
  | cons entry rest ih =>
    obtain ⟨k, as⟩ := entry
    obtain ⟨fresh, others⟩ := List.nodup_cons.mp distinct
    by_cases here : k = g
    · subst here
      have missing : members rest k = [] := members_of_absent fresh
      by_cases none : left = []
      · simp only [replace, none, List.isEmpty_nil, if_true, members_cons]
        by_cases same : h = k
        · simp [same, missing]
        · simp [same, Ne.symm same]
      · have some : left.isEmpty = false := by simpa using none
        simp only [replace, some, if_true, Bool.false_eq_true, if_false, members_cons]
        by_cases same : h = k
        · simp [same]
        · simp [same, Ne.symm same]
    · have later : g ∈ Index.groups rest := by
        rcases List.mem_cons.mp present with same | later
        · exact absurd same.symm here
        · exact later
      simp only [replace, here, if_false, members_cons, ih later others]
      by_cases same : k = h
      · subst same
        simp [here]
      · simp [same]

theorem count_replace {index : Index α} {g : Group} (present : g ∈ index.groups) (left : List α) :
    (index.replace g left).count + (index.members g).length = index.count + left.length := by
  induction index with
  | nil => simp [groups] at present
  | cons entry rest ih =>
    obtain ⟨h, as⟩ := entry
    by_cases here : h = g
    · by_cases none : left = []
      · simp only [replace, here, none, List.isEmpty_nil, if_true, members_cons, count,
          List.foldr_cons, List.length_nil]
        omega
      · have some : left.isEmpty = false := by simpa using none
        simp only [replace, here, some, if_true, Bool.false_eq_true, if_false, members_cons, count,
          List.foldr_cons]
        omega
    · have later : g ∈ Index.groups rest := by
        rcases List.mem_cons.mp present with same | later
        · exact absurd same.symm here
        · exact later
      have counted := ih later
      simp only [count] at counted
      simp only [replace, here, if_false, members_cons, count, List.foldr_cons]
      omega

/-- The index holds the members of a list under their groups, in the order of the list, and no group
without members. -/
structure Files (key : α → Option Group) (index : Index α) (flat : List α) : Prop where
  members : ∀ g, index.members g = flat.filter fun a => key a = some g
  distinct : index.groups.Nodup
  inhabited : ∀ entry ∈ index, entry.2 ≠ []
  keyed : ∀ a ∈ flat, (key a).isSome
  size : index.count = flat.length

namespace Files

variable {key : α → Option Group} {index : Index α} {flat : List α}

theorem nothing : Files key [] ([] : List α) :=
  ⟨fun _ => rfl, by simp [Index.groups], by simp, by simp, rfl⟩

theorem mem_groups_iff (files : Files key index flat) {g : Group} :
    g ∈ index.groups ↔ ∃ a ∈ flat, key a = some g := by
  constructor
  · intro present
    obtain ⟨a, member⟩ := List.exists_mem_of_ne_nil _ (members_of_present present files.inhabited)
    rw [files.members] at member
    obtain ⟨inside, grouped⟩ := List.mem_filter.mp member
    exact ⟨a, inside, by simpa using grouped⟩
  · rintro ⟨a, inside, grouped⟩
    by_contra absent
    have here : a ∈ index.members g := by
      rw [files.members]
      exact List.mem_filter.mpr ⟨inside, by simpa using grouped⟩
    simp [members_of_absent absent] at here

theorem isEmpty_iff (files : Files key index flat) : index.isEmpty = true ↔ flat = [] := by
  rw [List.isEmpty_iff]
  constructor
  · rintro rfl
    simpa [Index.count] using files.size.symm
  · rintro rfl
    have none (g : Group) : g ∉ index.groups := by simp [files.mem_groups_iff]
    exact List.map_eq_nil_iff.mp (List.eq_nil_iff_forall_not_mem.mpr none)

theorem insert (files : Files key index flat) {g : Group} {a : α} (grouped : key a = some g) :
    Files key (index.insert g a) (flat ++ [a]) := by
  refine ⟨?_, groups_insert_nodup g a files.distinct, inhabited_insert g a files.inhabited, ?_, ?_⟩
  · intro h
    rw [List.filter_append, ← files.members]
    by_cases same : h = g
    · subst same
      simp [grouped]
    · have other : ¬ key a = some h := by
        rw [grouped]
        exact fun wrong => same (Option.some.inj wrong).symm
      simp [members_insert_of_ne index a same, other]
  · intro b member
    rcases List.mem_append.mp member with old | new
    · exact files.keyed b old
    · obtain rfl := List.mem_singleton.mp new
      simp [grouped]
  · simp [files.size]

/-- Erasing the first member of some kind, all of whose members share a group, touches that group
only. -/
theorem erase (files : Files key index flat) {g : Group} {p : α → Bool}
    (kind : ∀ a, p a = true → key a = some g) (found : (index.members g).any p = true) :
    Files key (index.replace g ((index.members g).eraseP p)) (flat.eraseP p) := by
  have present : g ∈ index.groups := by
    by_contra absent
    simp [members_of_absent absent] at found
  obtain ⟨a, here, hit⟩ := List.any_eq_true.mp found
  have inside : a ∈ flat := by
    rw [files.members] at here
    exact List.mem_of_mem_filter here
  have filtered (h : Group) : (flat.eraseP p).filter (fun a => key a = some h) =
      if h = g then (index.members g).eraseP p else index.members h := by
    by_cases same : h = g
    · subst same
      have narrow : (fun a => p a && decide (key a = some h)) = p := by
        funext b
        cases matched : p b with
        | false => rfl
        | true => simp [kind b matched]
      rw [if_pos rfl, files.members, List.eraseP_filter, narrow]
    · rw [if_neg same, files.members]
      obtain ⟨b, front, back, missed, struck, split, erased⟩ := List.exists_of_eraseP inside hit
      have other : ¬ key b = some h := by
        rw [kind b struck]
        exact fun wrong => same (Option.some.inj wrong).symm
      rw [erased, split]
      simp [other]
  refine ⟨?_, files.distinct.sublist (groups_replace_sublist ..),
    inhabited_replace g _ files.inhabited, ?_, ?_⟩
  · intro h
    rw [members_replace present files.distinct, filtered]
  · intro b member
    exact files.keyed b (List.eraseP_subset member)
  · have counted := count_replace present ((index.members g).eraseP p)
    rw [List.length_eraseP, if_pos found] at counted
    rw [List.length_eraseP, if_pos (List.any_eq_true.mpr ⟨a, inside, hit⟩), ← files.size]
    have := List.length_pos_of_mem here
    omega

/-- The members of all groups, one group after the other, are those of the list. -/
theorem perm_flatMap (files : Files key index flat) {order : List Group} (once : order.Nodup)
    (covers : ∀ g ∈ index.groups, g ∈ order) : (order.flatMap index.members).Perm flat := by
  have keyed : ∀ a ∈ flat, ∃ g ∈ order, key a = some g := by
    intro a member
    obtain ⟨g, grouped⟩ := Option.isSome_iff_exists.mp (files.keyed a member)
    exact ⟨g, covers g (files.mem_groups_iff.mpr ⟨a, member, grouped⟩), grouped⟩
  have same : index.members = fun g => flat.filter fun a => key a = some g := funext files.members
  rw [same]
  clear files same covers
  induction order generalizing flat with
  | nil =>
    have none : flat = [] := List.eq_nil_iff_forall_not_mem.mpr fun a member => by
      simpa using keyed a member
    simp [none]
  | cons g rest ih =>
    obtain ⟨fresh, others⟩ := List.nodup_cons.mp once
    let off := flat.filter fun a => !decide (key a = some g)
    have remaining : ∀ a ∈ off, ∃ h ∈ rest, key a = some h := by
      intro a member
      obtain ⟨inside, elsewhere⟩ := List.mem_filter.mp member
      obtain ⟨h, known, grouped⟩ := keyed a inside
      rcases List.mem_cons.mp known with rfl | later
      · simp [grouped] at elsewhere
      · exact ⟨h, later, grouped⟩
    -- What is filed under the other groups is found outside of the first one.
    have elsewhere : (rest.flatMap fun h => flat.filter fun a => key a = some h) =
        rest.flatMap fun h => off.filter fun a => key a = some h := by
      apply List.flatMap_congr
      intro h later
      rw [List.filter_filter]
      apply List.filter_congr
      intro a _
      by_cases grouped : key a = some h
      · have different : h ≠ g := fun same => fresh (same ▸ later)
        simp [grouped, different]
      · simp [grouped]
    rw [List.flatMap_cons, elsewhere]
    exact ((ih others remaining).append_left _).trans (List.filter_append_perm _ flat)

end Files

end Index

end Deliberation
