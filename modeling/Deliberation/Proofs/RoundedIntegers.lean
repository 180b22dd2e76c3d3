import Deliberation.Number

/-! Integers as doubles. Rounding never turns two numbers around: where two quotients share a step of
the grid their counts of steps are in order, and a longer step starts where the shorter one ends. A
rounded integer is never a NaN and never a negative zero, and the rank of a double tells its bits. -/
namespace Deliberation.Double

theorem roundDiv_le {num num' : Nat} (den : Nat) (le : num ≤ num') :
    roundDiv num den ≤ roundDiv num' den := by
  rcases Nat.eq_zero_or_pos den with rfl | positive
  · simp only [roundDiv, Nat.div_zero, Nat.mod_zero]
    split <;> split <;> omega
  have quotient : num / den ≤ num' / den := Nat.div_le_div_right le
  have parts := Nat.div_add_mod num den
  have parts' := Nat.div_add_mod num' den
  have below := Nat.mod_lt num positive
  have below' := Nat.mod_lt num' positive
  rcases Nat.lt_or_eq_of_le quotient with lower | same
  · simp only [roundDiv]
    split <;> split <;> omega
  · simp only [roundDiv, same] at parts ⊢
    split <;> split <;> omega

theorem div_le_roundDiv (num den : Nat) : num / den ≤ roundDiv num den := by
  simp only [roundDiv]
  split <;> omega

theorem roundDiv_le_of_lt_mul {num den bound : Nat} (lt : num < den * bound) :
    roundDiv num den ≤ bound := by
  have quotient : num / den < bound := Nat.div_lt_of_lt_mul lt
  simp only [roundDiv]
  split <;> omega

/-- The step of the grid around a number of units, as a power of two. -/
def gridStep (whole : Nat) : Nat := if whole < 2 * exponentUnit then 0 else whole.log2 - 52

/-- Exponent and fraction of a rounded quotient, read as one number and before the clamp. -/
def gridPoint (scaled den : Nat) : Nat :=
  gridStep (scaled / den) * exponentUnit + roundDiv scaled (den <<< gridStep (scaled / den))

theorem ofRatio_eq (negative : Bool) (num den : Nat) :
    ofRatio negative num den =
      withSign negative (min (2047 * exponentUnit) (gridPoint (num * unitsPerOne) den)) := by
  change (if 2047 * exponentUnit ≤ gridPoint (num * unitsPerOne) den then infinity negative
    else withSign negative (gridPoint (num * unitsPerOne) den)) = _
  by_cases clamped : 2047 * exponentUnit ≤ gridPoint (num * unitsPerOne) den
  · rw [if_pos clamped, Nat.min_eq_left clamped, infinity]
  · rw [if_neg clamped, Nat.min_eq_right (Nat.le_of_not_le clamped)]

theorem gridStep_le {whole whole' : Nat} (le : whole ≤ whole') :
    gridStep whole ≤ gridStep whole' := by
  unfold gridStep
  split
  · exact Nat.zero_le _
  · rename_i large
    have large' : ¬ whole' < 2 * exponentUnit := by omega
    have nonzero : whole ≠ 0 := by simp only [exponentUnit] at large; omega
    have log : whole.log2 ≤ whole'.log2 := by
      rw [Nat.le_log2 (by omega)]
      exact Nat.le_trans (Nat.log2_self_le nonzero) le
    rw [if_neg large']
    exact Nat.sub_le_sub_right log 52

/-- No more than two exponents' worth of steps are counted before the next step takes over. -/
theorem gridPoint_le (scaled : Nat) {den : Nat} (positive : 0 < den) :
    gridPoint scaled den ≤ (gridStep (scaled / den) + 2) * exponentUnit := by
  have whole : scaled / den < 2 ^ gridStep (scaled / den) * (2 * exponentUnit) := by
    unfold gridStep
    split
    · omega
    · rename_i large
      have log : 53 ≤ (scaled / den).log2 := by
        rw [Nat.le_log2 (by simp only [exponentUnit] at large; omega)]
        simpa [exponentUnit] using large
      have split : 2 ^ ((scaled / den).log2 + 1) =
          2 ^ ((scaled / den).log2 - 52) * (2 * exponentUnit) := by
        rw [show (scaled / den).log2 + 1 = ((scaled / den).log2 - 52) + 53 by omega, Nat.pow_add]
        rfl
      exact split ▸ Nat.lt_log2_self
  have count : roundDiv scaled (den <<< gridStep (scaled / den)) ≤ 2 * exponentUnit := by
    refine roundDiv_le_of_lt_mul ?_
    rw [Nat.shiftLeft_eq, Nat.mul_assoc]
    rwa [Nat.div_lt_iff_lt_mul positive, Nat.mul_comm] at whole
  rw [gridPoint, Nat.add_mul]
  exact Nat.add_le_add_left count _

/-- Past the first step, one exponent's worth of steps is always counted. -/
theorem le_gridPoint {scaled den : Nat} (large : 0 < gridStep (scaled / den)) :
    (gridStep (scaled / den) + 1) * exponentUnit ≤ gridPoint scaled den := by
  have log : gridStep (scaled / den) + 52 = (scaled / den).log2 := by
    unfold gridStep at large ⊢
    split at large
    · omega
    · rename_i far
      rw [if_neg far]
      omega
  have nonzero : scaled / den ≠ 0 := by
    intro zero
    simp [zero] at log
  have whole : 2 ^ gridStep (scaled / den) * exponentUnit ≤ scaled / den := by
    have power : 2 ^ (gridStep (scaled / den) + 52) ≤ scaled / den := by
      rw [log]
      exact Nat.log2_self_le nonzero
    rwa [Nat.pow_add] at power
  have count : exponentUnit ≤ scaled / den / 2 ^ gridStep (scaled / den) := by
    rw [Nat.le_div_iff_mul_le (Nat.two_pow_pos _), Nat.mul_comm]
    exact whole
  have rounded := div_le_roundDiv scaled (den <<< gridStep (scaled / den))
  rw [Nat.shiftLeft_eq, ← Nat.div_div_eq_div_mul] at rounded
  rw [gridPoint, Nat.add_mul, Nat.one_mul, Nat.shiftLeft_eq]
  exact Nat.add_le_add_left (Nat.le_trans count rounded) _

theorem gridPoint_mono {scaled scaled' den : Nat} (positive : 0 < den) (le : scaled ≤ scaled') :
    gridPoint scaled den ≤ gridPoint scaled' den := by
  have steps := gridStep_le (Nat.div_le_div_right (c := den) le)
  rcases Nat.lt_or_eq_of_le steps with shorter | same
  · calc gridPoint scaled den
        ≤ (gridStep (scaled / den) + 2) * exponentUnit := gridPoint_le scaled positive
      _ ≤ (gridStep (scaled' / den) + 1) * exponentUnit := Nat.mul_le_mul_right _ (by omega)
      _ ≤ gridPoint scaled' den := le_gridPoint (by omega)
  · rw [gridPoint, gridPoint, same]
    exact Nat.add_le_add_left (roundDiv_le _ le) _

/-- The bits below the sign of a rounded number. -/
theorem withSign_toNat {low : Nat} (negative : Bool) (le : low ≤ 2047 * exponentUnit) :
    (withSign negative low).bits.toNat = if negative then signUnit + low else low := by
  simp only [withSign, UInt64.toNat_ofNat']
  simp only [exponentUnit] at le
  cases negative <;> simp only [signUnit] <;> exact Nat.mod_eq_of_lt (by grind)

theorem withSign_rank {low : Nat} (negative : Bool) (le : low ≤ 2047 * exponentUnit) :
    (withSign negative low).rank = if negative then -(low : Int) - 1 else low := by
  have bits := withSign_toNat negative le
  simp only [exponentUnit] at le
  simp only [rank, isNegative, bits, signUnit]
  cases negative <;> simp only [Bool.false_eq_true, if_false, if_true, decide_eq_true_eq] <;>
    split <;> omega

theorem toNat_bits_inj {x y : Double} : x.bits.toNat = y.bits.toNat ↔ x = y := by
  cases x
  cases y
  rw [UInt64.toNat_inj, mk.injEq]

/-- The total order tells apart all doubles with different bits. -/
theorem rank_inj {x y : Double} : x.rank = y.rank ↔ x = y := by
  refine ⟨fun same => toNat_bits_inj.mp ?_, congrArg rank⟩
  have bounds := x.bits.toNat_lt
  have bounds' := y.bits.toNat_lt
  unfold rank isNegative signUnit at same
  simp only [decide_eq_true_eq] at same
  split at same <;> split at same <;> omega

/-- The clamped exponent and fraction of a rounded integer. -/
def integerPoint (i : Int) : Nat :=
  min (2047 * exponentUnit) (gridPoint (i.natAbs * unitsPerOne) 1)

theorem ofInt_eq (i : Int) : ofInt i = withSign (i < 0) (integerPoint i) := ofRatio_eq _ _ _

theorem integerPoint_le (i : Int) : integerPoint i ≤ 2047 * exponentUnit := Nat.min_le_left _ _

theorem integerPoint_mono {i j : Int} (le : i.natAbs ≤ j.natAbs) :
    integerPoint i ≤ integerPoint j := by
  have scaled := gridPoint_mono Nat.one_pos (Nat.mul_le_mul_right unitsPerOne le)
  simp only [integerPoint]
  omega

theorem ofInt_rank (i : Int) :
    (ofInt i).rank = if i < 0 then -(integerPoint i : Int) - 1 else integerPoint i := by
  rw [ofInt_eq, withSign_rank _ (integerPoint_le i)]
  simp only [decide_eq_true_eq]

/-- Rounding keeps the order of integers, though it need not keep them apart. -/
theorem ofInt_rank_mono {i j : Int} (le : i ≤ j) : (ofInt i).rank ≤ (ofInt j).rank := by
  rw [ofInt_rank, ofInt_rank]
  split <;> split
  · have points : integerPoint j ≤ integerPoint i := integerPoint_mono (by omega)
    omega
  · omega
  · omega
  · have points : integerPoint i ≤ integerPoint j := integerPoint_mono (by omega)
    omega

theorem eq_zero_iff {x : Double} {negative : Bool} :
    x = zero negative ↔ x.bits.toNat = if negative then signUnit else 0 := by
  rw [← toNat_bits_inj, zero, withSign_toNat negative (Nat.zero_le _)]
  simp

theorem magnitude_eq_zero_iff {x : Double} :
    x.magnitude = 0 ↔ x = zero false ∨ x = zero true := by
  have bound := x.bits.toNat_lt
  have positive (n : Nat) : (exponentUnit + n) <<< (x.exponentField - 1) ≠ 0 := by
    rw [Nat.shiftLeft_eq]
    exact Nat.mul_ne_zero (by simp [exponentUnit]) (Nat.pos_iff_ne_zero.mp (Nat.two_pow_pos _))
  rw [eq_zero_iff, eq_zero_iff, if_neg Bool.false_ne_true, if_pos rfl]
  unfold magnitude
  split
  · rename_i field
    simp only [exponentField, fraction, exponentUnit, signUnit] at field ⊢
    omega
  · rename_i field
    simp only [positive, false_iff]
    simp only [exponentField, exponentUnit, signUnit] at field ⊢
    omega

theorem ofInt_toNat (i : Int) :
    (ofInt i).bits.toNat = if i < 0 then signUnit + integerPoint i else integerPoint i := by
  rw [ofInt_eq, withSign_toNat _ (integerPoint_le i)]
  simp only [decide_eq_true_eq]

theorem ofInt_not_nan (i : Int) : (ofInt i).isNaN = false := by
  have le := integerPoint_le i
  have bits := ofInt_toNat i
  have clear (field : (ofInt i).exponentField = 2047) : (ofInt i).fraction = 0 := by
    simp only [exponentField, fraction, exponentUnit, signUnit] at *
    split at bits <;> omega
  simpa [isNaN] using clear

/-- Only zero is rounded to a zero, and to the positive one. -/
theorem ofInt_ne_negative_zero (i : Int) : ofInt i ≠ zero true := by
  rw [Ne, eq_zero_iff, ofInt_toNat, if_pos rfl]
  split
  · rename_i negative
    have least : 0 < integerPoint 1 := by decide +kernel
    have point : integerPoint 1 ≤ integerPoint i := integerPoint_mono (by omega)
    omega
  · have le := integerPoint_le i
    simp only [exponentUnit, signUnit] at *
    omega

end Deliberation.Double
