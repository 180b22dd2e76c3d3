import Deliberation.Term.Order
import Deliberation.Proofs.RoundedIntegers
import Deliberation.Proofs.TermParts

/-! The standard order as a comparison of three terms. Turned around it gives the reverse answer, and
it chains: kinds, arities, functors, strings and variables do, numbers do but for two integers next
to a float that both are rounded to, and answers compared in turn chain when their parts do. -/
namespace Deliberation

/-- Three answers on points `a`, `b`, `c` (`a` to `b`, `b` to `c`, `a` to `c`) that fit points on a
line: a tie may be put in place of its other end, and two steps one way go that way. -/
structure Chained (first second outer : Ordering) : Prop where
  left_tie : first = .eq → outer = second
  right_tie : second = .eq → outer = first
  onward : first = second → outer = first

namespace Chained

variable {p q r p' q' r' : Ordering}

theorem ne_gt (chained : Chained p q r) (first : p ≠ .gt) (second : q ≠ .gt) : r ≠ .gt := by
  cases p with
  | eq => exact chained.left_tie rfl ▸ second
  | gt => exact absurd rfl first
  | lt =>
    cases q with
    | eq => exact chained.right_tie rfl ▸ first
    | gt => exact absurd rfl second
    | lt => exact chained.onward rfl ▸ first

/-- The same three points, from the second on. -/
theorem rotate (chained : Chained p q r) : Chained q r.swap p.swap := by
  obtain ⟨left, right, onward⟩ := chained
  constructor <;> cases p <;> cases q <;> cases r <;> simp_all

/-- Comparing twice in turn chains; the second comparison only counts between ties. -/
theorem andThen (outer : Chained p q r) (inner : p = .eq → q = .eq → Chained p' q' r') :
    Chained (p.then p') (q.then q') (r.then r') := by
  obtain ⟨left, right, onward⟩ := outer
  cases first : p <;> cases second : q
  case eq.eq =>
    obtain rfl : r = .eq := (left first).trans second
    exact inner first second
  all_goals constructor <;> cases q' <;> simp_all

/-- A lawful comparison chains. -/
theorem of_compare {α : Type} [Ord α] [Std.TransOrd α] (a b c : α) :
    Chained (compare a b) (compare b c) (compare a c) where
  left_tie tie := Std.TransCmp.congr_left tie
  right_tie tie := (Std.TransCmp.congr_right tie).symm
  onward same := by
    cases first : compare a b with
    | lt => exact Std.TransCmp.lt_trans first (same ▸ first)
    | eq => exact Std.TransCmp.eq_trans first (same ▸ first)
    | gt => exact Std.TransCmp.gt_trans first (same ▸ first)

end Chained

namespace Number

/-- Two integers that differ and are both rounded to the float. -/
def RoundTogether : Number → Number → Number → Prop
  | int i, int j, float x => i ≠ j ∧ Double.ofInt i.toInt = x ∧ Double.ofInt j.toInt = x
  | _, _, _ => False

/-- Three numbers among which a float is what the other two are rounded to. -/
def Blurred (m n k : Number) : Prop :=
  RoundTogether m n k ∨ RoundTogether n k m ∨ RoundTogether m k n

instance : ∀ m n k, Decidable (RoundTogether m n k)
  | int _, int _, float _ => inferInstanceAs (Decidable (_ ∧ _ ∧ _))
  | int _, int _, int _ => .isFalse id
  | int _, float _, _ => .isFalse id
  | float _, _, _ => .isFalse id

instance (m n k : Number) : Decidable (Blurred m n k) := inferInstanceAs (Decidable (_ ∨ _ ∨ _))

theorem order_swap (m n : Number) : n.order m = (m.order n).swap := by
  cases m <;> cases n <;> exact Std.OrientedOrd.eq_swap

theorem order_int_chained (i j : Int64) (x : Double)
    (apart : ¬ RoundTogether (int i) (int j) (float x)) :
    Chained ((int i).order (int j)) ((int j).order (float x)) ((int i).order (float x)) := by
  have up := @Double.ofInt_rank_mono i.toInt j.toInt
  have down := @Double.ofInt_rank_mono j.toInt i.toInt
  have split : i.toInt ≠ j.toInt → (Double.ofInt i.toInt).rank = x.rank →
      (Double.ofInt j.toInt).rank ≠ x.rank := by
    intro different first second
    exact apart ⟨fun same => different (congrArg _ same), Double.rank_inj.mp first,
      Double.rank_inj.mp second⟩
  simp only [order, Double.order, toDouble]
  generalize (Double.ofInt i.toInt).rank = a at *
  generalize (Double.ofInt j.toInt).rank = b at *
  generalize x.rank = c at *
  simp only [compare, compareOfLessAndEq]
  constructor <;> grind

theorem order_chained {m n k : Number} (clear : ¬ Blurred m n k) :
    Chained (m.order n) (n.order k) (m.order k) := by
  simp only [Blurred, not_or] at clear
  obtain ⟨last, first, middle⟩ := clear
  have swapped {i j : Int64} {x : Double} (apart : ¬ RoundTogether (int i) (int j) (float x)) :
      ¬ RoundTogether (int j) (int i) (float x) := by
    rintro ⟨different, left, right⟩
    exact apart ⟨different.symm, right, left⟩
  cases m with
  | int i =>
    cases n with
    | int j =>
      cases k with
      | int l => exact Chained.of_compare i.toInt j.toInt l.toInt
      | float z => exact order_int_chained i j z last
    | float y =>
      cases k with
      | int l =>
        have turned := (order_int_chained l i y (swapped middle)).rotate
        rwa [← order_swap, ← order_swap] at turned
      | float z => exact Chained.of_compare _ y.rank z.rank
  | float x =>
    cases n with
    | int j =>
      cases k with
      | int l =>
        have turned := (order_int_chained j l x first).rotate.rotate
        rwa [← order_swap, ← order_swap, ← order_swap, ← order_swap] at turned
      | float z => exact Chained.of_compare x.rank _ z.rank
    | float y => cases k <;> exact Chained.of_compare x.rank y.rank _

/-- Nothing but rounding breaks the chain. -/
theorem order_chained_iff {m n k : Number} :
    Chained (m.order n) (n.order k) (m.order k) ↔ ¬ Blurred m n k := by
  refine ⟨fun chained blurred => ?_, order_chained⟩
  have split {i j : Int64} (different : i ≠ j) : (int i).order (int j) ≠ .eq := by
    intro tie
    exact different (Int64.toInt_inj.mp (Std.LawfulEqOrd.eq_of_compare tie))
  have tie (x : Double) : compare x.rank x.rank = .eq := Std.ReflCmp.compare_self
  rcases blurred with together | together | together <;> cases m <;> cases n <;> cases k <;>
    try exact together.elim
  · obtain ⟨different, rfl, same⟩ := together
    have second := chained.right_tie (same ▸ tie _)
    exact split different (second.symm.trans (tie _))
  · obtain ⟨different, rfl, same⟩ := together
    have first := chained.left_tie (tie _)
    exact split different (first.symm.trans (same ▸ tie _))
  · obtain ⟨different, rfl, same⟩ := together
    exact split different ((chained.left_tie (tie _)).trans (same ▸ tie _))

end Number

namespace Term

mutual
/-- The numbers that the order can look at: all but those in annotations. -/
def numbers : Term → List Number
  | var _ => []
  | num n => [n]
  | str _ => []
  | seq items => numbersIn items
  | lit _ args _ => numbersIn args

def numbersIn : List Term → List Number
  | [] => []
  | t :: rest => numbers t ++ numbersIn rest
end

/-- Three terms with a float in one that different integers in the others are rounded to. -/
def Blurred (a b c : Term) : Prop :=
  ∃ m ∈ a.numbers, ∃ n ∈ b.numbers, ∃ k ∈ c.numbers, Number.Blurred m n k

instance (a b c : Term) : Decidable (Blurred a b c) :=
  inferInstanceAs (Decidable (∃ m ∈ a.numbers, ∃ n ∈ b.numbers, ∃ k ∈ c.numbers, _))

def BlurredIn (xs ys zs : List Term) : Prop :=
  ∃ m ∈ numbersIn xs, ∃ n ∈ numbersIn ys, ∃ k ∈ numbersIn zs, Number.Blurred m n k

theorem BlurredIn.head {x y z : Term} {xs ys zs : List Term} (blurred : Blurred x y z) :
    BlurredIn (x :: xs) (y :: ys) (z :: zs) := by
  obtain ⟨m, first, n, second, k, third, found⟩ := blurred
  exact ⟨m, List.mem_append_left _ first, n, List.mem_append_left _ second, k,
    List.mem_append_left _ third, found⟩

theorem BlurredIn.tail {x y z : Term} {xs ys zs : List Term} (blurred : BlurredIn xs ys zs) :
    BlurredIn (x :: xs) (y :: ys) (z :: zs) := by
  obtain ⟨m, first, n, second, k, third, found⟩ := blurred
  exact ⟨m, List.mem_append_right _ first, n, List.mem_append_right _ second, k,
    List.mem_append_right _ third, found⟩

/-- Terms that the order compares by what is in them. -/
inductive OfOneKind : Term → Term → Prop
  | vars (v w : Var) : OfOneKind (var v) (var w)
  | nums (m n : Number) : OfOneKind (num m) (num n)
  | strs (s t : String) : OfOneKind (str s) (str t)
  | seqs (xs ys : List Term) : OfOneKind (seq xs) (seq ys)
  | lits (f : String) (xs as : List Term) (g : String) (ys bs : List Term) :
    OfOneKind (lit f xs as) (lit g ys bs)

theorem rank_lit (functor : String) (args annots : List Term) :
    rank (lit functor args annots) = 2 ∨ rank (lit functor args annots) = 5 := by
  cases args <;> cases annots <;> simp [rank]

theorem OfOneKind.of_rank {a b : Term} (same : a.rank = b.rank) : OfOneKind a b := by
  cases a <;> cases b
  case var.var => constructor
  case num.num => constructor
  case str.str => constructor
  case seq.seq => constructor
  case lit.lit => constructor
  all_goals grind [rank, rank_lit]

/-- Kinds are compared before anything else. -/
theorem order_eq_rank_then (a b : Term) : order a b = (compare a.rank b.rank).then (order a b) := by
  cases a <;> cases b
  case lit.lit f xs as g ys bs => simp [order, ← Ordering.then_assoc]
  all_goals simp [order, rank]

theorem orderAll_swap {xs : List Term} (swap : ∀ x ∈ xs, ∀ y, order y x = (order x y).swap)
    (ys : List Term) : orderAll ys xs = (orderAll xs ys).swap := by
  induction xs generalizing ys with
  | nil => cases ys <;> rfl
  | cons x xs ih =>
    obtain ⟨first, others⟩ := List.forall_mem_cons.mp swap
    cases ys with
    | nil => rfl
    | cons y ys => rw [orderAll, orderAll, Ordering.swap_then, first, ih others]

theorem order_swap (a b : Term) : order b a = (order a b).swap := by
  induction a using partsInduction generalizing b with
  | lit f xs as ihArgs ihAnnots =>
    cases b
    case lit g ys bs =>
      simp only [order, Ordering.swap_then, ← Std.OrientedOrd.eq_swap, orderAll_swap ihArgs ys]
    all_goals exact Std.OrientedOrd.eq_swap
  | seq xs ih =>
    cases b
    case seq ys => exact orderAll_swap ih ys
    all_goals exact Std.OrientedOrd.eq_swap
  | num n =>
    cases b
    case num m => exact Number.order_swap n m
    all_goals exact Std.OrientedOrd.eq_swap
  | _ => cases b <;> exact Std.OrientedOrd.eq_swap

theorem orderAll_chained {xs : List Term}
    (heads : ∀ x ∈ xs, ∀ {y z}, ¬ Blurred x y z → Chained (order x y) (order y z) (order x z))
    {ys zs : List Term} (clear : ¬ BlurredIn xs ys zs) :
    Chained (orderAll xs ys) (orderAll ys zs) (orderAll xs zs) := by
  induction xs generalizing ys zs with
  | nil => cases ys <;> cases zs <;> constructor <;> simp [orderAll]
  | cons x xs ih =>
    obtain ⟨first, others⟩ := List.forall_mem_cons.mp heads
    cases ys with
    | nil => cases zs <;> constructor <;> simp [orderAll]
    | cons y ys =>
      cases zs with
      | nil => constructor <;> simp [orderAll, eq_comm]
      | cons z zs =>
        have here : ¬ Blurred x y z := fun blurred => clear (.head blurred)
        have behind : ¬ BlurredIn xs ys zs := fun blurred => clear (.tail blurred)
        exact (first here).andThen fun _ _ => ih others behind

/-- Terms chain when those of one kind do. -/
theorem order_chained_of_kind {a b c : Term}
    (alike : OfOneKind a b → OfOneKind b c → Chained (order a b) (order b c) (order a c)) :
    Chained (order a b) (order b c) (order a c) := by
  rw [order_eq_rank_then a b, order_eq_rank_then b c, order_eq_rank_then a c]
  refine (Chained.of_compare a.rank b.rank c.rank).andThen fun first second => ?_
  exact alike (.of_rank (Nat.compare_eq_eq.mp first)) (.of_rank (Nat.compare_eq_eq.mp second))

theorem order_chained {a b c : Term} (clear : ¬ Blurred a b c) :
    Chained (order a b) (order b c) (order a c) := by
  induction a using partsInduction generalizing b c with
  | var v =>
    refine order_chained_of_kind fun first second => ?_
    obtain @⟨_, w⟩ := first
    obtain @⟨_, u⟩ := second
    exact Chained.of_compare v.id w.id u.id
  | num m =>
    refine order_chained_of_kind fun first second => ?_
    cases first with | nums _ n =>
    cases second with | nums _ k =>
    refine Number.order_chained fun blurred => clear ?_
    exact ⟨m, .head _, n, .head _, k, .head _, blurred⟩
  | str s =>
    refine order_chained_of_kind fun first second => ?_
    cases first with | strs _ t =>
    cases second with | strs _ u =>
    exact Chained.of_compare s t u
  | seq xs ih =>
    refine order_chained_of_kind fun first second => ?_
    cases first with | seqs _ ys =>
    cases second with | seqs _ zs =>
    exact orderAll_chained ih clear
  | lit f xs as ihArgs ihAnnots =>
    refine order_chained_of_kind fun first second => ?_
    cases first with | lits _ _ _ g ys bs =>
    cases second with | lits _ _ _ h zs cs =>
    have args := orderAll_chained ihArgs clear
    have named := (Chained.of_compare f g h).andThen fun _ _ => args
    have sized := (Chained.of_compare xs.length ys.length zs.length).andThen fun _ _ => named
    exact (Chained.of_compare _ _ _).andThen fun _ _ => sized

/-- The standard order is a total preorder of terms up to rounding: turned around it gives the
reverse answer, and it is transitive where no float of one term is what different integers of the
other two are rounded to. -/
theorem order_total_preorder (a b c : Term) :
    order b a = (order a b).swap ∧
      (¬ Blurred a b c → order a b ≠ .gt → order b c ≠ .gt → order a c ≠ .gt) :=
  ⟨order_swap a b, fun clear first second => (order_chained clear).ne_gt first second⟩

theorem order_total_preorder_near_rounding :
    ¬ Blurred (seq [.int 9007199254740993]) (seq [.num (.float ⟨0x4340000000000001⟩)])
        (seq [.int 9007199254740994]) ∧
      order (seq [.int 9007199254740993]) (seq [.num (.float ⟨0x4340000000000001⟩)]) ≠ .gt ∧
      order (seq [.num (.float ⟨0x4340000000000001⟩)]) (seq [.int 9007199254740994]) ≠ .gt ∧
      order (seq [.int 9007199254740993]) (seq [.int 9007199254740994]) ≠ .gt := by
  have clear : ¬ Blurred (seq [.int 9007199254740993]) (seq [.num (.float ⟨0x4340000000000001⟩)])
      (seq [.int 9007199254740994]) := by decide +kernel
  have first : order (seq [.int 9007199254740993])
      (seq [.num (.float ⟨0x4340000000000001⟩)]) ≠ .gt := by decide +kernel
  have second : order (seq [.num (.float ⟨0x4340000000000001⟩)])
      (seq [.int 9007199254740994]) ≠ .gt := by decide +kernel
  exact ⟨clear, first, second, (order_total_preorder _ _ _).2 clear first second⟩

/-- Without the exception the order is not transitive: an integer may lie above another one and
below a float that both are rounded to. -/
theorem order_not_transitive :
    ¬ ∀ a b c : Term, order b a = (order a b).swap ∧
      (order a b ≠ .gt → order b c ≠ .gt → order a c ≠ .gt) := by
  intro claim
  exact (claim (.int 9007199254740993) (.num (.float ⟨0x4340000000000000⟩))
    (.int 9007199254740992)).2 (by decide +kernel) (by decide +kernel) (by decide +kernel)

end Term

end Deliberation
