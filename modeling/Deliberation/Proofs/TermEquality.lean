import Deliberation.Proofs.TermParts

/-! Equality of terms. It compares numbers by their value, so it is neither identity nor reflexive,
but it does not matter which of two terms is compared with the other. -/
namespace Deliberation

theorem Double.equals_comm (x y : Double) : x.equals y = y.equals x := by
  have bits : (x.bits == y.bits) = (y.bits == x.bits) := BEq.comm
  simp only [equals, bits, Bool.and_comm]

theorem Number.equals_comm (m n : Number) : m.equals n = n.equals m := by
  cases m with
  | int a =>
    cases n with
    | int b => exact BEq.comm
    | float y => exact Double.equals_comm _ _
  | float x => cases n <;> exact Double.equals_comm _ _

namespace Term

theorem equalsAll_comm {xs : List Term} (swap : ∀ x ∈ xs, ∀ y, x.equals y = y.equals x)
    (ys : List Term) : equalsAll xs ys = equalsAll ys xs := by
  induction xs generalizing ys with
  | nil => cases ys <;> rfl
  | cons x xs ih =>
    cases ys with
    | nil => rfl
    | cons y ys =>
      have rest := ih (fun x member => swap x (List.mem_cons_of_mem _ member)) ys
      simp only [equalsAll, swap x List.mem_cons_self y, rest]

theorem equals_comm (a b : Term) : a.equals b = b.equals a := by
  induction a using partsInduction generalizing b with
  | var v => cases b <;> first | rfl | exact BEq.comm
  | num n => cases b <;> first | rfl | exact Number.equals_comm _ _
  | str s => cases b <;> first | rfl | exact BEq.comm
  | seq items ih => cases b <;> first | rfl | exact equalsAll_comm ih _
  | lit f args annots ihArgs ihAnnots =>
    cases b with
    | lit g args' annots' =>
      have functors : (f == g) = (g == f) := BEq.comm
      simp only [equals, functors, equalsAll_comm ihArgs, equalsAll_comm ihAnnots]
    | _ => rfl

theorem length_of_equalsAll {xs ys : List Term} (same : equalsAll xs ys = true) :
    xs.length = ys.length := by
  induction xs generalizing ys with
  | nil => cases ys <;> simp_all [equalsAll]
  | cons x xs ih =>
    cases ys with
    | nil => simp [equalsAll] at same
    | cons y ys =>
      simp only [equalsAll, Bool.and_eq_true] at same
      simp [ih same.2]

/-- Equal terms are looked for under the same group. -/
theorem group?_of_equals {a b : Term} (same : a.equals b = true) : a.group? = b.group? := by
  cases a <;> cases b <;> simp only [equals, Bool.and_eq_true, Bool.false_eq_true] at same
  case lit.lit f xs as g ys bs =>
    obtain ⟨⟨functors, args⟩, -⟩ := same
    obtain rfl := beq_iff_eq.mp functors
    simp only [group?, length_of_equalsAll args]
  all_goals rfl

end Term

end Deliberation
