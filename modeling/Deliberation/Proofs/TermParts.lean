import Deliberation.Term.Basic

/-! Terms by their parts: the elements of a sequence, and the arguments and annotations of a
literal. Variables and replacements are read off the parts, and an induction over terms goes over
them. -/
namespace Deliberation.Term

/-- The terms directly inside a term, arguments before annotations. -/
def parts : Term → List Term
  | seq items => items
  | lit _ args annots => args ++ annots
  | _ => []

/-- What holds of a term when it holds of its parts holds of every term. -/
@[elab_as_elim]
theorem partsInduction {motive : Term → Prop} (var : ∀ v, motive (.var v))
    (num : ∀ n, motive (.num n)) (str : ∀ s, motive (.str s))
    (seq : ∀ items, (∀ t ∈ items, motive t) → motive (.seq items))
    (lit : ∀ functor args annots, (∀ t ∈ args, motive t) → (∀ t ∈ annots, motive t) →
      motive (.lit functor args annots)) (t : Term) : motive t := by
  refine @Term.rec motive (fun items => ∀ t ∈ items, motive t) var num str seq lit ?_ ?_ t
  · intro t member
    simp at member
  · intro first rest here later t member
    rcases List.mem_cons.mp member with rfl | behind
    · exact here
    · exact later t behind

theorem varsOfAll_eq (items : List Term) : varsOfAll items = items.flatMap vars := by
  induction items with
  | nil => rfl
  | cons t rest ih => simp [varsOfAll, ih]

theorem substAll_eq (f : Var → Term) (items : List Term) : substAll f items = items.map (subst f) :=
  by
  induction items with
  | nil => rfl
  | cons t rest ih => simp [substAll, ih]

@[simp] theorem vars_var (v : Var) : (var v).vars = [v] := rfl

@[simp] theorem vars_seq (items : List Term) : (seq items).vars = items.flatMap vars :=
  varsOfAll_eq items

@[simp] theorem vars_lit (functor : String) (args annots : List Term) :
    (lit functor args annots).vars = args.flatMap vars ++ annots.flatMap vars := by
  simp only [vars, varsOfAll_eq]

@[simp] theorem subst_seq (f : Var → Term) (items : List Term) :
    (seq items).subst f = seq (items.map (subst f)) := by
  simp only [subst, substAll_eq]

@[simp] theorem subst_lit (f : Var → Term) (functor : String) (args annots : List Term) :
    (lit functor args annots).subst f = lit functor (args.map (subst f)) (annots.map (subst f)) :=
  by simp only [subst, substAll_eq]

theorem vars_eq_parts {t : Term} (compound : ∀ v, t ≠ var v) :
    t.vars = t.parts.flatMap vars := by
  cases t with
  | var v => exact absurd rfl (compound v)
  | _ => simp [parts, vars, varsOfAll_eq]

theorem vars_of_part {t part : Term} (inside : part ∈ t.parts) {v : Var} (member : v ∈ part.vars) :
    v ∈ t.vars := by
  have compound : ∀ v, t ≠ var v := by
    rintro v rfl
    simp [parts] at inside
  rw [vars_eq_parts compound]
  exact List.mem_flatMap.mpr ⟨part, inside, member⟩

theorem size_le_sizeOfAll {t : Term} {items : List Term} (member : t ∈ items) :
    t.size ≤ sizeOfAll items := by
  induction items with
  | nil => simp at member
  | cons first rest ih =>
    simp only [sizeOfAll]
    rcases List.mem_cons.mp member with rfl | later
    · omega
    · have := ih later
      omega

theorem size_of_part {t part : Term} (inside : part ∈ t.parts) : part.size < t.size := by
  cases t with
  | seq items =>
    have within : part.size ≤ sizeOfAll items := size_le_sizeOfAll inside
    simp only [size]
    omega
  | lit functor args annots =>
    simp only [size]
    rcases List.mem_append.mp inside with argument | annotation
    · have := size_le_sizeOfAll argument
      omega
    · have := size_le_sizeOfAll annotation
      omega
  | _ => simp [parts] at inside

/-- Replacing looks at the variables of the term only. -/
theorem subst_congr {f g : Var → Term} (t : Term) (same : ∀ v ∈ t.vars, f v = g v) :
    t.subst f = t.subst g := by
  induction t using partsInduction with
  | var v => exact same v (by simp)
  | num n => rfl
  | str s => rfl
  | seq items ih =>
    rw [subst_seq, subst_seq]
    refine congrArg seq (List.map_congr_left fun t member => ih t member ?_)
    intro v inside
    exact same v (by simpa using ⟨t, member, inside⟩)
  | lit functor args annots ihArgs ihAnnots =>
    rw [subst_lit, subst_lit]
    have first : args.map (subst f) = args.map (subst g) := by
      refine List.map_congr_left fun t member => ihArgs t member fun v inside => same v ?_
      simpa using .inl ⟨t, member, inside⟩
    have second : annots.map (subst f) = annots.map (subst g) := by
      refine List.map_congr_left fun t member => ihAnnots t member fun v inside => same v ?_
      simpa using .inr ⟨t, member, inside⟩
    rw [first, second]

theorem subst_var (t : Term) : t.subst var = t := by
  have parts {items : List Term} (same : ∀ t ∈ items, t.subst var = t) :
      items.map (subst var) = items := (List.map_congr_left same).trans (List.map_id items)
  induction t using partsInduction with
  | seq items ih => rw [subst_seq, parts ih]
  | lit functor args annots ihArgs ihAnnots => rw [subst_lit, parts ihArgs, parts ihAnnots]
  | _ => rfl

end Deliberation.Term
