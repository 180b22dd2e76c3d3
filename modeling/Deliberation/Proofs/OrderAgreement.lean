import Deliberation.Unify
import Deliberation.Proofs.StandardOrder
import Deliberation.Proofs.TermEquality

/-! Three ways to say that two terms are the same. On terms without variables, annotations and NaNs,
unification decides equality and binds nothing; the standard order ties just the equal terms in which
the same numbers are the negative zero, since it tells the two zeros apart. -/
namespace Deliberation

theorem Double.order_eq_iff {x y : Double} (value : x.isNaN = false) (value' : y.isNaN = false) :
    x.order y = .eq ↔ x.equals y = true ∧ (x = zero true ↔ y = zero true) := by
  rw [Double.order, Std.LawfulEqOrd.compare_eq_iff_eq, rank_inj]
  constructor
  · rintro rfl
    simp [equals, value]
  · rintro ⟨same, zeros⟩
    simp only [equals, value, value', Bool.not_false, Bool.true_and, Bool.or_eq_true, beq_iff_eq,
      Bool.and_eq_true, magnitude_eq_zero_iff] at same
    rcases same with bits | ⟨zero, zero'⟩
    · exact toNat_bits_inj.mp (congrArg UInt64.toNat bits)
    · rcases zero with rfl | rfl
      · exact (zero'.resolve_right fun turned => absurd (zeros.mpr turned) (by decide)).symm
      · exact (zeros.mp rfl).symm

namespace Number

def isNaN (n : Number) : Bool := n.toDouble.isNaN

theorem isNaN_int (i : Int64) : (int i).isNaN = false := Double.ofInt_not_nan i.toInt

def isNegativeZero (n : Number) : Bool := n == float (Double.zero true)

theorem isNegativeZero_iff {n : Number} :
    n.isNegativeZero = true ↔ n.toDouble = Double.zero true := by
  cases n with
  | int i => simpa [isNegativeZero, toDouble] using Double.ofInt_ne_negative_zero i.toInt
  | float x => simp [isNegativeZero, toDouble]

/-- Numbers that tie are equal, and equal numbers tie unless they are the two zeros. -/
theorem order_eq_iff {m n : Number} (value : m.isNaN = false) (value' : n.isNaN = false) :
    m.order n = .eq ↔ m.equals n = true ∧ m.isNegativeZero = n.isNegativeZero := by
  have doubles : m.toDouble.order n.toDouble = .eq ↔
      m.toDouble.equals n.toDouble = true ∧ m.isNegativeZero = n.isNegativeZero := by
    rw [Double.order_eq_iff value value', Bool.eq_iff_iff (a := m.isNegativeZero),
      isNegativeZero_iff, isNegativeZero_iff]
  cases m with
  | int i =>
    cases n with
    | int j =>
      have zeros (i : Int64) : (int i).isNegativeZero = false := rfl
      simp only [order, equals, zeros, and_true, Std.LawfulEqOrd.compare_eq_iff_eq, beq_iff_eq,
        Int64.toInt_inj]
    | float y => exact doubles
  | float x => cases n <;> exact doubles

end Number

namespace Term

/-- A term without variables, annotations and NaNs. -/
inductive Plain : Term → Prop
  | num {n : Number} (value : n.isNaN = false) : Plain (num n)
  | str (text : String) : Plain (str text)
  | seq {items : List Term} (plain : ∀ t ∈ items, Plain t) : Plain (seq items)
  | lit (functor : String) {args : List Term} (plain : ∀ t ∈ args, Plain t) :
    Plain (lit functor args [])

/-- Of each number that the order can look at, whether it is the negative zero. -/
def zeroSigns (t : Term) : List Bool := t.numbers.map Number.isNegativeZero

def zeroSignsIn (items : List Term) : List Bool := (numbersIn items).map Number.isNegativeZero

theorem length_numbersIn_of_equalsAll {xs ys : List Term}
    (each : ∀ x ∈ xs, ∀ {y}, x.equals y = true → x.numbers.length = y.numbers.length)
    (same : equalsAll xs ys = true) : (numbersIn xs).length = (numbersIn ys).length := by
  induction xs generalizing ys with
  | nil => cases ys <;> simp_all [equalsAll]
  | cons x xs ih =>
    obtain ⟨first, others⟩ := List.forall_mem_cons.mp each
    cases ys with
    | nil => simp [equalsAll] at same
    | cons y ys =>
      simp only [equalsAll, Bool.and_eq_true] at same
      simp only [numbersIn, List.length_append, first same.1, ih others same.2]

/-- Equal terms have their numbers at the same places. -/
theorem length_numbers_of_equals {a b : Term} (same : a.equals b = true) :
    a.numbers.length = b.numbers.length := by
  induction a using partsInduction generalizing b with
  | lit f xs as ihArgs ihAnnots =>
    cases b <;> simp only [equals, Bool.and_eq_true, Bool.false_eq_true] at same
    exact length_numbersIn_of_equalsAll ihArgs same.1.2
  | seq xs ih =>
    cases b <;> simp only [equals, Bool.false_eq_true] at same
    exact length_numbersIn_of_equalsAll ih same
  | _ => cases b <;> first | rfl | simp [equals] at same

theorem orderAll_eq_iff {xs ys : List Term}
    (each : ∀ x ∈ xs, ∀ y ∈ ys, order x y = .eq ↔ x.equals y = true ∧ x.zeroSigns = y.zeroSigns) :
    orderAll xs ys = .eq ↔ equalsAll xs ys = true ∧ zeroSignsIn xs = zeroSignsIn ys := by
  induction xs generalizing ys with
  | nil => cases ys <;> simp [orderAll, equalsAll]
  | cons x xs ih =>
    cases ys with
    | nil => simp [orderAll, equalsAll]
    | cons y ys =>
      have here := each x List.mem_cons_self y List.mem_cons_self
      have behind := ih fun x inside y inside' =>
        each x (List.mem_cons_of_mem _ inside) y (List.mem_cons_of_mem _ inside')
      have split (same : x.equals y = true) : zeroSignsIn (x :: xs) = zeroSignsIn (y :: ys) ↔
          x.zeroSigns = y.zeroSigns ∧ zeroSignsIn xs = zeroSignsIn ys := by
        have lengths : x.zeroSigns.length = y.zeroSigns.length := by
          simpa only [zeroSigns, List.length_map] using length_numbers_of_equals same
        simp only [zeroSignsIn, numbersIn, List.map_append]
        refine ⟨fun signs => List.append_inj signs lengths, ?_⟩
        rintro ⟨first, others⟩
        exact congr (congrArg _ first) others
      simp only [orderAll, Ordering.then_eq_eq, here, behind, equalsAll, Bool.and_eq_true]
      constructor
      · rintro ⟨⟨same, signs⟩, rest, others⟩
        exact ⟨⟨same, rest⟩, (split same).mpr ⟨signs, others⟩⟩
      · rintro ⟨⟨same, rest⟩, signs⟩
        obtain ⟨first, others⟩ := (split same).mp signs
        exact ⟨⟨same, first⟩, rest, others⟩

theorem ofOneKind_of_equals {a b : Term} (same : a.equals b = true) : OfOneKind a b := by
  cases a <;> cases b <;> simp only [equals, Bool.false_eq_true] at same <;> constructor

theorem ofOneKind_of_tie {a b : Term} (tie : order a b = .eq) : OfOneKind a b := by
  rw [order_eq_rank_then, Ordering.then_eq_eq] at tie
  exact .of_rank (Nat.compare_eq_eq.mp tie.1)

/-- Terms of different kinds neither tie nor are equal. -/
theorem order_eq_iff_of_kind {a b : Term}
    (alike : OfOneKind a b → (order a b = .eq ↔ a.equals b = true ∧ a.zeroSigns = b.zeroSigns)) :
    order a b = .eq ↔ a.equals b = true ∧ a.zeroSigns = b.zeroSigns :=
  ⟨fun tie => (alike (ofOneKind_of_tie tie)).mp tie,
    fun same => (alike (ofOneKind_of_equals same.1)).mpr same⟩

/-- The standard order ties equal terms, but for the signs of their zeros. -/
theorem order_eq_iff {a b : Term} (plain : a.Plain) (plain' : b.Plain) :
    order a b = .eq ↔ a.equals b = true ∧ a.zeroSigns = b.zeroSigns := by
  induction plain generalizing b with
  | num value =>
    refine order_eq_iff_of_kind fun kind => ?_
    cases kind
    cases plain' with | num value' =>
    simpa [order, equals, zeroSigns, numbers] using Number.order_eq_iff value value'
  | str text =>
    refine order_eq_iff_of_kind fun kind => ?_
    cases kind
    simp [order, equals, zeroSigns, numbers]
  | seq plain ih =>
    refine order_eq_iff_of_kind fun kind => ?_
    cases kind
    cases plain' with | seq plain' =>
    exact orderAll_eq_iff fun x inside y inside' => ih x inside (plain' y inside')
  | @lit functor args plain ih =>
    refine order_eq_iff_of_kind fun kind => ?_
    cases kind with | lits _ _ _ functor' args' _ =>
    cases plain' with | lit _ plain' =>
    have parts : orderAll args args' = .eq ↔
        equalsAll args args' = true ∧ zeroSignsIn args = zeroSignsIn args' :=
      orderAll_eq_iff fun x inside y inside' => ih x inside (plain' y inside')
    have ranks (lengths : args.length = args'.length) :
        rank (lit functor args []) = rank (lit functor' args' []) := by
      cases args <;> cases args' <;> first | rfl | simp at lengths
    change _ ↔ _ ∧ zeroSignsIn args = zeroSignsIn args'
    simp only [order, Ordering.then_eq_eq, Std.LawfulEqOrd.compare_eq_iff_eq, parts, equals,
      Bool.and_eq_true, beq_iff_eq, equalsAll, and_true]
    constructor
    · rintro ⟨-, -, names, same, signs⟩
      exact ⟨⟨names, same⟩, signs⟩
    · rintro ⟨⟨names, same⟩, signs⟩
      have lengths := length_of_equalsAll same
      exact ⟨ranks lengths, lengths, names, same, signs⟩

end Term

namespace Bindings

theorem unifyPairs_plain {depth : Nat} {xs ys : List Term} (b : Bindings)
    (each : ∀ x ∈ xs, ∀ y ∈ ys, unifyWithin depth x y b = some (x.equals y, b) ∨
      unifyWithin depth x y b = none ∧ depth < x.size) (lengths : xs.length = ys.length) :
    unifyPairs (unifyWithin depth) xs ys b = some (Term.equalsAll xs ys, b) ∨
      unifyPairs (unifyWithin depth) xs ys b = none ∧ depth < Term.sizeOfAll xs := by
  induction xs generalizing ys with
  | nil =>
    cases ys with
    | nil => exact .inl rfl
    | cons y ys => simp at lengths
  | cons x xs ih =>
    cases ys with
    | nil => simp at lengths
    | cons y ys =>
      have here := each x List.mem_cons_self y List.mem_cons_self
      have behind := ih (fun x inside y inside' =>
        each x (List.mem_cons_of_mem _ inside) y (List.mem_cons_of_mem _ inside'))
        (Nat.succ.inj lengths)
      simp only [unifyPairs, Term.equalsAll, Term.sizeOfAll]
      rcases here with answered | ⟨silent, deep⟩
      · rw [answered]
        cases x.equals y with
        | false => exact .inl rfl
        | true =>
          rcases behind with rest | ⟨rest, deep⟩
          · exact .inl rest
          · exact .inr ⟨rest, by omega⟩
      · rw [silent]
        exact .inr ⟨rfl, by omega⟩

/-- On plain terms a depth answers with their equality, or it is less than their size. -/
theorem unifyWithin_plain (depth : Nat) {left right : Term} (plain : left.Plain)
    (plain' : right.Plain) (b : Bindings) :
    unifyWithin depth left right b = some (left.equals right, b) ∨
      unifyWithin depth left right b = none ∧ depth < left.size := by
  induction depth generalizing left right with
  | zero => exact .inr ⟨rfl, by cases left <;> simp only [Term.size] <;> omega⟩
  | succ depth ih =>
    have one : b.scope.walk left = left := by cases plain <;> rfl
    have other : b.scope.walk right = right := by cases plain' <;> rfl
    rw [unifyWithin, one, other]
    cases plain <;> cases plain'
    case seq.seq xs plain ys plain' =>
      dsimp only
      split
      · rename_i lengths
        have pairs := unifyPairs_plain b
          (fun x inside y inside' => ih (plain x inside) (plain' y inside')) lengths
        simpa only [Term.equals, Term.size, Nat.add_comm 1, Nat.succ_lt_succ_iff] using pairs
      · rename_i lengths
        have apart := mt Term.length_of_equalsAll lengths
        simp only [Bool.not_eq_true] at apart
        simp [Term.equals, apart]
    case lit.lit f xs plain g ys plain' =>
      dsimp only
      split
      · rename_i fits
        obtain ⟨rfl, lengths⟩ := fits
        have pairs := unifyPairs_plain b
          (fun x inside y inside' => ih (plain x inside) (plain' y inside')) lengths
        have equal : (Term.lit f xs []).equals (.lit f ys []) = Term.equalsAll xs ys := by
          simp [Term.equals, Term.equalsAll]
        have size : (Term.lit f xs []).size = Term.sizeOfAll xs + 1 := by
          simp [Term.size, Term.sizeOfAll, Nat.add_comm]
        rwa [equal, size, Nat.succ_lt_succ_iff]
      · rename_i apart
        have different : (Term.lit f xs []).equals (.lit g ys []) = false := by
          rw [Bool.eq_false_iff]
          intro same
          simp only [Term.equals, Bool.and_eq_true, beq_iff_eq] at same
          exact apart ⟨same.1.1, Term.length_of_equalsAll same.1.2⟩
        exact .inl (by rw [different])
    all_goals exact .inl rfl

theorem unify_plain {left right : Term} (plain : left.Plain) (plain' : right.Plain)
    (b : Bindings) : b.unify left right = (left.equals right, b) := by
  unfold unify
  rcases unifyWithin_plain usualDepth plain plain' b with answered | ⟨silent, -⟩
  · rw [answered]
  · rw [silent]
    rcases unifyWithin_plain (unifyDepth left right b) plain plain' b with answered | ⟨-, deep⟩
    · rw [answered, Option.getD_some]
    · have square := Nat.le_mul_self (left.size + right.size + b.scope.weight + 1)
      simp only [unifyDepth] at deep
      omega

end Bindings

namespace Term

/-- On terms without variables, annotations and NaNs, unification succeeds in any scope just when the
terms are equal, and binds nothing; the standard order ties them just when they are equal and the
negative zeros in them stand at the same places. -/
theorem order_equality_unification (a b : Term) (plain : a.Plain) (plain' : b.Plain) :
    (∀ bindings : Bindings, bindings.unify a b = (a.equals b, bindings)) ∧
      (order a b = .eq ↔ a.equals b = true ∧ a.zeroSigns = b.zeroSigns) :=
  ⟨Bindings.unify_plain plain plain', order_eq_iff plain plain'⟩

theorem order_equality_unification_mixed :
    Plain (lit "p" [seq [.int 1], .num (.float ⟨0⟩)] []) ∧
      Plain (lit "p" [seq [.num (.float ⟨0x3ff0000000000000⟩)], .int 0] []) ∧
      (∀ bindings : Bindings, bindings.unify (lit "p" [seq [.int 1], .num (.float ⟨0⟩)] [])
        (lit "p" [seq [.num (.float ⟨0x3ff0000000000000⟩)], .int 0] []) = (true, bindings)) ∧
      order (lit "p" [seq [.int 1], .num (.float ⟨0⟩)] [])
        (lit "p" [seq [.num (.float ⟨0x3ff0000000000000⟩)], .int 0] []) = .eq := by
  have plain : Plain (lit "p" [seq [.int 1], .num (.float ⟨0⟩)] []) := by
    have nested : Plain (seq [.int 1]) := .seq (by simpa using .num (Number.isNaN_int 1))
    exact .lit "p" (by simpa using ⟨nested, .num (by decide +kernel)⟩)
  have plain' : Plain (lit "p" [seq [.num (.float ⟨0x3ff0000000000000⟩)], .int 0] []) := by
    have nested : Plain (seq [.num (.float ⟨0x3ff0000000000000⟩)]) :=
      .seq (by simpa using .num (by decide +kernel))
    exact .lit "p" (by simpa using ⟨nested, .num (Number.isNaN_int 0)⟩)
  have equal : (lit "p" [seq [.int 1], .num (.float ⟨0⟩)] []).equals
      (lit "p" [seq [.num (.float ⟨0x3ff0000000000000⟩)], .int 0] []) = true := by decide +kernel
  obtain ⟨unified, tied⟩ := order_equality_unification _ _ plain plain'
  exact ⟨plain, plain', fun bindings => by rw [unified, equal], tied.mpr ⟨equal, by decide +kernel⟩⟩

/-- Without the signs of zeros the three do not agree: the two zeros are equal and do not tie. -/
theorem equal_zeros_do_not_tie :
    ¬ ∀ a b : Term, a.Plain → b.Plain →
      (order a b = .eq ↔ a.equals b = true) ∧
        (a.equals b = true ↔ ∀ bindings : Bindings, (bindings.unify a b).1 = true) := by
  intro claim
  have plain : Plain (.num (.float ⟨0⟩)) := .num (by decide +kernel)
  have plain' : Plain (.num (.float ⟨0x8000000000000000⟩)) := .num (by decide +kernel)
  have tie := (claim _ _ plain plain').1.mpr (by decide +kernel)
  exact absurd tie (by decide +kernel)

end Term

end Deliberation
