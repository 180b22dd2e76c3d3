import Deliberation.Freeze
import Deliberation.Proofs.AcyclicScope
import Deliberation.Proofs.TermParts

/-! Reading terms through an acyclic scope ends. A walk hops from a variable to its value, and a
reader at some term goes on to the parts of what the term stands for: neither can be done forever.
The readers count the levels of bindings that they go through and stop at a bound, and in an acyclic
scope the bound is never felt: each of them satisfies the plain recursion through the bindings. -/
namespace Deliberation.Scope

variable {s : Scope} {rank : Var → Nat}

/-- One step of a walk. -/
def Hops (s : Scope) (t value : Term) : Prop := ∃ v, t = .var v ∧ s.get? v = some value

/-- A reader of the term goes on to this part of what the term stands for. -/
def Descends (s : Scope) (t part : Term) : Prop := part ∈ (s.walk t).parts

theorem rank_lt_of_chain (ranks : s.Ranks rank) {v w : Var}
    (chain : Relation.TransGen s.Points v w) : rank w < rank v := by
  induction chain with
  | single points =>
    obtain ⟨value, found, member⟩ := points
    exact ranks _ value found _ member
  | tail _ points ih =>
    obtain ⟨value, found, member⟩ := points
    exact Nat.lt_trans (ranks _ value found _ member) ih

theorem Acyclic.no_cycle (acyclic : s.Acyclic) (v : Var) : ¬Relation.TransGen s.Points v v := by
  obtain ⟨rank, ranks⟩ := acyclic
  intro cycle
  exact Nat.lt_irrefl _ (rank_lt_of_chain ranks cycle)

/-- A scope can be ranked where no chain of bindings leads from a variable back to it: a bound
variable stands above the bound variables that it leads to. -/
theorem acyclic_iff : s.Acyclic ↔ ∀ v, ¬Relation.TransGen s.Points v v := by
  constructor
  · exact fun acyclic => acyclic.no_cycle
  classical
  intro straight
  let below (v : Var) : Nat := s.bindings.countP fun entry => Relation.TransGen s.Points v entry.1
  refine ⟨fun v => if (s.get? v).isSome then below v + 1 else 0, ?_⟩
  intro v value found w member
  have points : s.Points v w := ⟨value, found, member⟩
  cases inside : s.get? w with
  | none => simp [found, inside]
  | some other =>
    have fewer : below w < below v := by
      apply countP_lt_of_mem (a := (w, other)) _ (find?_mem inside)
      · simpa using Relation.TransGen.single points
      · simpa using straight w
      · intro entry chain
        simpa using Relation.TransGen.head points (by simpa using chain)
    simpa [found, inside] using fewer

/-- A step for each binding below is enough, and more make no difference. -/
theorem walkWithin_stable (ranks : s.Ranks (s.height rank)) (n m : Nat) (v : Var)
    (enough : s.height rank v ≤ n) (enough' : s.height rank v ≤ m) :
    s.walkWithin n (.var v) = s.walkWithin m (.var v) := by
  induction n generalizing m v with
  | zero =>
    cases found : s.get? v with
    | none => cases m <;> simp [walkWithin, found]
    | some value => exact absurd (height_pos rank found) (by omega)
  | succ n ih =>
    cases found : s.get? v with
    | none => cases m <;> simp [walkWithin, found]
    | some value =>
      obtain ⟨m, rfl⟩ := Nat.exists_eq_succ_of_ne_zero
        (Nat.ne_of_gt (Nat.lt_of_lt_of_le (height_pos rank found) enough'))
      simp only [walkWithin, found]
      cases value with
      | var w =>
        have lower := ranks v _ found w (by simp)
        exact ih m w (by omega) (by omega)
      | _ => simp

theorem walk_of_unbound {v : Var} (free : s.get? v = none) : s.walk (.var v) = .var v := by
  simp only [walk, free]

theorem walk_of_bound (acyclic : s.Acyclic) {v : Var} {value : Term}
    (found : s.get? v = some value) : s.walk (.var v) = s.walk value := by
  obtain ⟨rank, ranks⟩ := acyclic
  have heights := height_ranks ranks
  rw [walk_eq_walkWithin, walk_eq_walkWithin]
  obtain ⟨n, steps⟩ := Nat.exists_eq_succ_of_ne_zero (Nat.ne_of_gt (size_pos_of_get? found))
  simp only [steps, walkWithin, found]
  cases value with
  | var w =>
    have lower := heights v _ found w (by simp)
    have top := height_le_size s rank v
    exact walkWithin_stable heights n (n + 1) w (by omega) (by omega)
  | _ => simp

theorem walk_of_not_var {t : Term} (compound : ∀ v, t ≠ .var v) : s.walk t = t := by
  cases t with
  | var v => exact absurd rfl (compound v)
  | _ => rfl

theorem walk_walk (acyclic : s.Acyclic) (t : Term) : s.walk (s.walk t) = s.walk t := by
  cases ended : s.walk t with
  | var u => exact walk_of_unbound (walk_unbound acyclic ended)
  | _ => rfl

/-- The variables of the value at the end of a walk stand below its start. -/
theorem walkWithin_lowers (ranks : s.Ranks rank) (steps : Nat) (v : Var)
    (compound : ∀ u, s.walkWithin steps (.var v) ≠ .var u) :
    ∀ w ∈ (s.walkWithin steps (.var v)).vars, rank w < rank v := by
  induction steps generalizing v with
  | zero => exact absurd rfl (compound v)
  | succ steps ih =>
    cases found : s.get? v with
    | none => exact absurd (by simp only [walkWithin, found]) (compound v)
    | some value =>
      have lower := ranks v value found
      simp only [walkWithin, found] at compound ⊢
      cases value with
      | var u =>
        intro w member
        exact Nat.lt_trans (ih u compound w member) (lower u (by simp))
      | _ => simpa using lower

theorem walk_lowers (ranks : s.Ranks rank) {v : Var} (compound : ∀ u, s.walk (.var v) ≠ .var u) :
    ∀ w ∈ (s.walk (.var v)).vars, rank w < rank v := by
  rw [walk_eq_walkWithin] at compound ⊢
  exact walkWithin_lowers ranks s.size v compound

theorem bound_of_walk {v : Var} (compound : ∀ u, s.walk (.var v) ≠ .var u) :
    ∃ value, s.get? v = some value := by
  cases found : s.get? v with
  | none => exact absurd (walk_of_unbound found) (compound v)
  | some value => exact ⟨value, rfl⟩

/-- The greatest height of a variable in the term. -/
def level (s : Scope) (rank : Var → Nat) (t : Term) : Nat :=
  t.vars.foldr (fun v n => max (s.height rank v) n) 0

theorem height_le_level {t : Term} {v : Var} (member : v ∈ t.vars) :
    s.height rank v ≤ s.level rank t := by
  unfold level
  generalize t.vars = vars at member
  induction vars with
  | nil => simp at member
  | cons w rest ih =>
    rcases List.mem_cons.mp member with rfl | later
    · exact Nat.le_max_left _ _
    · exact Nat.le_trans (ih later) (Nat.le_max_right _ _)

theorem level_le {t : Term} {n : Nat} (below : ∀ v ∈ t.vars, s.height rank v ≤ n) :
    s.level rank t ≤ n := by
  unfold level
  generalize t.vars = vars at below
  induction vars with
  | nil => exact Nat.zero_le n
  | cons w rest ih =>
    rw [List.foldr_cons]
    exact Nat.max_le.mpr ⟨below w List.mem_cons_self,
      ih fun v member => below v (List.mem_cons_of_mem w member)⟩

/-- A walk cannot go on forever. -/
theorem hops_end (acyclic : s.Acyclic) : WellFounded fun value t => s.Hops t value := by
  obtain ⟨rank, ranks⟩ := acyclic
  refine Subrelation.wf ?_ (measure (s.level rank)).wf
  rintro value _ ⟨v, rfl, found⟩
  have top : s.height rank v ≤ s.level rank (.var v) := height_le_level (by simp)
  have bound := height_pos rank found
  have lower : s.level rank value ≤ s.height rank v - 1 := by
    refine level_le fun w member => ?_
    have := height_ranks ranks v value found w member
    omega
  show s.level rank value < s.level rank (.var v)
  omega

/-- A reader that goes on to the parts of what a term stands for comes to an end: a binding leads to
a lower level, and a part of a term is smaller and on no higher level. -/
theorem descents_end (acyclic : s.Acyclic) : WellFounded fun part t => s.Descends t part := by
  obtain ⟨rank, ranks⟩ := acyclic
  let measured (t : Term) : Nat × Nat := (s.level rank t, t.size)
  refine Subrelation.wf ?_ (InvImage.wf measured (Prod.lex Nat.lt_wfRel Nat.lt_wfRel).wf)
  intro part t inside
  show Prod.Lex _ _ (measured part) (measured t)
  by_cases variable_ : ∃ v, t = .var v
  · obtain ⟨v, rfl⟩ := variable_
    have compound : ∀ u, s.walk (.var v) ≠ .var u := by
      intro u ended
      simp [Descends, ended, Term.parts] at inside
    obtain ⟨value, found⟩ := bound_of_walk compound
    have bound := height_pos rank found
    have top : s.height rank v ≤ s.level rank (.var v) := height_le_level (by simp)
    have lower : s.level rank part ≤ s.height rank v - 1 := by
      refine level_le fun w member => ?_
      have := walk_lowers (height_ranks ranks) compound w (Term.vars_of_part inside member)
      omega
    exact .left _ _ (show s.level rank part < s.level rank (.var v) by omega)
  · have compound : ∀ v, t ≠ .var v := fun v same => variable_ ⟨v, same⟩
    have component : part ∈ t.parts := by
      simpa [Descends, walk_of_not_var compound] using inside
    have level : s.level rank part ≤ s.level rank t :=
      level_le fun w member => height_le_level (Term.vars_of_part component member)
    rcases Nat.lt_or_eq_of_le level with less | same
    · exact .left _ _ less
    · simp only [measured, same]
      exact .right _ (Term.size_of_part component)

section Readers

variable {β : Type}

/-- What a reader finds at a variable, which reads on at the value that the variable stands for. -/
def atVar (s : Scope) (leaf : Var → Var → β) (read : Term → β) (v : Var) : β :=
  match s.walk (.var v) with
  | .var u => leaf v u
  | value => read value

theorem atVar_congr {leaf : Var → Var → β} {read read' : Term → β} {v : Var}
    (same : (∀ u, s.walk (.var v) ≠ .var u) → read (s.walk (.var v)) = read' (s.walk (.var v))) :
    s.atVar leaf read v = s.atVar leaf read' v := by
  unfold atVar
  split
  · rfl
  · rename_i compound
    exact same fun u ended => compound u ended

/-- A family of readers, one for each depth of bindings, that look at the variables of a term and at
what these stand for. -/
structure Reader (s : Scope) (read : Nat → Term → β) where
  leaf : Var → Var → β
  combine : Term → (Var → β) → β
  unfolds : ∀ depth t, read (depth + 1) t = combine t (s.atVar leaf (read depth))
  pointwise : ∀ t f g, (∀ v ∈ t.vars, f v = g v) → combine t f = combine t g
  single : ∀ v f, combine (.var v) f = f v

variable {read : Nat → Term → β}

/-- A depth that covers the heights of all variables is enough, and more makes no difference. -/
theorem Reader.stable (reader : s.Reader read) (ranks : s.Ranks (s.height rank)) (n m : Nat)
    (t : Term) (enough : ∀ v ∈ t.vars, s.height rank v ≤ n)
    (enough' : ∀ v ∈ t.vars, s.height rank v ≤ m) : read (n + 1) t = read (m + 1) t := by
  induction n generalizing m t with
  | zero =>
    rw [reader.unfolds, reader.unfolds]
    refine reader.pointwise t _ _ fun v member => atVar_congr fun compound => ?_
    obtain ⟨value, found⟩ := bound_of_walk compound
    have := enough v member
    exact absurd (height_pos rank found) (by omega)
  | succ n ih =>
    rw [reader.unfolds, reader.unfolds]
    refine reader.pointwise t _ _ fun v member => atVar_congr fun compound => ?_
    obtain ⟨value, found⟩ := bound_of_walk compound
    obtain ⟨m, rfl⟩ := Nat.exists_eq_succ_of_ne_zero
      (Nat.ne_of_gt (Nat.lt_of_lt_of_le (height_pos rank found) (enough' v member)))
    have lower := walk_lowers ranks compound
    refine ih m _ (fun w inside => ?_) (fun w inside => ?_)
    · have := lower w inside
      have := enough v member
      omega
    · have := lower w inside
      have := enough' v member
      omega

/-- At a variable a reader finds what it finds at the value that the variable stands for. -/
theorem Reader.at_var (reader : s.Reader read) (acyclic : s.Acyclic) (v : Var) :
    read (s.size + 1) (.var v) = s.atVar reader.leaf (read (s.size + 1)) v := by
  obtain ⟨rank, ranks⟩ := acyclic
  have heights := height_ranks ranks
  rw [reader.unfolds, reader.single]
  refine atVar_congr fun compound => ?_
  obtain ⟨value, found⟩ := bound_of_walk compound
  obtain ⟨n, size⟩ := Nat.exists_eq_succ_of_ne_zero (Nat.ne_of_gt (size_pos_of_get? found))
  have lower (w : Var) (member : w ∈ (s.walk (.var v)).vars) : s.height rank w ≤ n := by
    have := walk_lowers heights compound w member
    have := height_le_size s rank v
    omega
  rw [size]
  exact reader.stable heights n (n + 1) _ lower fun w member => Nat.le_succ_of_le (lower w member)

end Readers

def occursReader (s : Scope) (v : Var) : s.Reader (s.occursWithin v) where
  leaf _ u := u == v
  combine t f := (t.vars.map f).any id
  unfolds depth t := by
    rw [List.any_map]
    rfl
  pointwise t f g same := by rw [List.map_congr_left same]
  single v f := by simp

def resolveReader (s : Scope) : s.Reader s.resolveWithin where
  leaf _ u := .var u
  combine t f := t.subst f
  unfolds _ _ := rfl
  pointwise t _ _ same := Term.subst_congr t same
  single _ _ := rfl

def groundReader (s : Scope) : s.Reader s.isGroundWithin where
  leaf _ _ := false
  combine t f := (t.vars.map f).all id
  unfolds depth t := by
    rw [List.all_map]
    rfl
  pointwise t f g same := by rw [List.map_congr_left same]
  single v f := by simp

def unboundReader (s : Scope) : s.Reader s.firstUnboundWithin where
  leaf v _ := some v
  combine t f := (t.vars.map f).findSome? id
  unfolds depth t := by
    rw [List.findSome?_map]
    rfl
  pointwise t f g same := by rw [List.map_congr_left same]
  single v f := by simp

-- The readers by recursion over what a term stands for.
theorem occurs_eq (acyclic : s.Acyclic) (v : Var) (t : Term) :
    s.occurs v t = match s.walk t with
      | .var u => u == v
      | value => value.parts.any (s.occurs v) := by
  have compound (t : Term) (other : ∀ u, t ≠ .var u) :
      s.occurs v t = t.parts.any (s.occurs v) := by
    simp only [occurs, occursWithin, Term.vars_eq_parts other, List.any_flatMap]
    rfl
  cases t with
  | var w =>
    rw [occurs, (s.occursReader v).at_var acyclic, atVar]
    split
    · rfl
    · rename_i other
      exact compound _ fun u ended => other u ended
  | _ => exact compound _ (by simp)

theorem isGround_eq (acyclic : s.Acyclic) (t : Term) :
    s.isGround t = match s.walk t with
      | .var _ => false
      | value => value.parts.all s.isGround := by
  have compound (t : Term) (other : ∀ u, t ≠ .var u) : s.isGround t = t.parts.all s.isGround := by
    simp only [isGround, isGroundWithin, Term.vars_eq_parts other, List.all_flatMap]
    rfl
  cases t with
  | var w =>
    rw [isGround, s.groundReader.at_var acyclic, atVar]
    split
    · rfl
    · rename_i other
      exact compound _ fun u ended => other u ended
  | _ => exact compound _ (by simp)

theorem resolve_seq (s : Scope) (items : List Term) :
    s.resolve (.seq items) = .seq (items.map s.resolve) :=
  Term.subst_seq _ items

theorem resolve_lit (s : Scope) (functor : String) (args annots : List Term) :
    s.resolve (.lit functor args annots) =
      .lit functor (args.map s.resolve) (annots.map s.resolve) :=
  Term.subst_lit _ functor args annots

theorem resolve_var (acyclic : s.Acyclic) (v : Var) :
    s.resolve (.var v) = s.atVar (fun _ u => .var u) s.resolve v :=
  s.resolveReader.at_var acyclic v

theorem resolve_eq (acyclic : s.Acyclic) (t : Term) :
    s.resolve t = match s.walk t with
      | .seq items => .seq (items.map s.resolve)
      | .lit functor args annots => .lit functor (args.map s.resolve) (annots.map s.resolve)
      | value => value := by
  cases t with
  | var w =>
    rw [resolve_var acyclic, atVar]
    cases s.walk (.var w) with
    | seq items => exact resolve_seq s items
    | lit functor args annots => exact resolve_lit s functor args annots
    | _ => rfl
  | seq items => exact resolve_seq s items
  | lit functor args annots => exact resolve_lit s functor args annots
  | _ => rfl

theorem findSome?_flatMap {α β γ : Type} (f : β → Option γ) (g : α → List β) (items : List α) :
    (items.flatMap g).findSome? f = items.findSome? fun a => (g a).findSome? f := by
  induction items with
  | nil => rfl
  | cons a rest ih =>
    rw [List.flatMap_cons, List.findSome?_append, ih, List.findSome?_cons]
    cases (g a).findSome? f <;> rfl

theorem firstUnbound?_parts (s : Scope) {t : Term} (compound : ∀ u, t ≠ .var u) :
    s.firstUnbound? t = t.parts.findSome? s.firstUnbound? := by
  simp only [firstUnbound?, firstUnboundWithin, Term.vars_eq_parts compound, findSome?_flatMap]
  rfl

/-- Several terms are ground, or the first of their unbound variables is the error. -/
theorem mapM_grounded (s : Scope) (items : List Term) :
    items.mapM s.grounded = match items.findSome? s.firstUnbound? with
      | some v => .error (.raised (.instantiation (.var v)))
      | none => .ok (items.map s.resolve) := by
  induction items with
  | nil => rfl
  | cons t rest ih =>
    rw [List.mapM_cons, ih, List.findSome?_cons, grounded]
    cases s.firstUnbound? t with
    | some v => rfl
    | none => cases rest.findSome? s.firstUnbound? <;> rfl

theorem grounded_seq (s : Scope) (items : List Term) :
    s.grounded (.seq items) = (items.mapM s.grounded).map .seq := by
  rw [grounded, firstUnbound?_parts s (by simp), mapM_grounded, resolve_seq, Term.parts]
  cases items.findSome? s.firstUnbound? <;> rfl

theorem grounded_lit (s : Scope) (functor : String) (args annots : List Term) :
    s.grounded (.lit functor args annots) = do
      let args ← args.mapM s.grounded
      let annots ← annots.mapM s.grounded
      return .lit functor args annots := by
  rw [grounded, firstUnbound?_parts s (by simp), mapM_grounded, mapM_grounded, resolve_lit,
    Term.parts, List.findSome?_append]
  cases args.findSome? s.firstUnbound? <;> cases annots.findSome? s.firstUnbound? <;> rfl

theorem grounded_var (acyclic : s.Acyclic) (v : Var) :
    s.grounded (.var v) = s.atVar (fun v _ => .error (.raised (.instantiation (.var v)))) s.grounded v := by
  have unbound : s.firstUnbound? (.var v) = s.atVar (fun v _ => some v) s.firstUnbound? v :=
    s.unboundReader.at_var acyclic v
  rw [grounded, unbound, resolve_var acyclic]
  unfold atVar
  cases s.walk (.var v) <;> rfl

theorem grounded_eq (acyclic : s.Acyclic) (t : Term) :
    s.grounded t = match s.walk t with
      | .var _ => .error (.raised (.instantiation t))
      | .seq items => (items.mapM s.grounded).map .seq
      | .lit functor args annots => do
        let args ← args.mapM s.grounded
        let annots ← annots.mapM s.grounded
        return .lit functor args annots
      | value => .ok value := by
  cases t with
  | var w =>
    rw [grounded_var acyclic, atVar]
    cases s.walk (.var w) with
    | seq items => exact grounded_seq s items
    | lit functor args annots => exact grounded_lit s functor args annots
    | _ => rfl
  | seq items => exact grounded_seq s items
  | lit functor args annots => exact grounded_lit s functor args annots
  | _ => rfl

end Deliberation.Scope

namespace Deliberation

namespace Renaming

/-- Covering variables keeps the pairs there are and adds new ones behind them. -/
theorem covers_extends (vars : List Var) (names : Renaming) (supply : Supply) :
    ∃ added, (vars.foldl cover (names, supply)).1 = names ++ added := by
  induction vars generalizing names supply with
  | nil => exact ⟨[], (List.append_nil names).symm⟩
  | cons v rest ih =>
    rw [List.foldl_cons]
    cases known : names.lookup v with
    | some w =>
      simp only [cover, known]
      exact ih names supply
    | none =>
      simp only [cover, known]
      obtain ⟨added, extended⟩ := ih (names ++ [(v, supply.freshVar.1)]) supply.freshVar.2
      exact ⟨(v, supply.freshVar.1) :: added, by simpa using extended⟩

theorem lookup_of_extends {names added : Renaming} {v w : Var} (known : names.lookup v = some w) :
    (names ++ added).lookup v = some w := by
  rw [List.lookup_append, known]
  rfl

/-- Every variable that has been covered has a replacement. -/
theorem covers_known (vars : List Var) (names : Renaming) (supply : Supply) :
    ∀ v ∈ vars, ∃ w, (vars.foldl cover (names, supply)).1.lookup v = some w := by
  induction vars generalizing names supply with
  | nil => simp
  | cons u rest ih =>
    intro v member
    rw [List.foldl_cons]
    rcases List.mem_cons.mp member with rfl | later
    · obtain ⟨w, known⟩ : ∃ w, (cover (names, supply) v).1.lookup v = some w := by
        cases known : names.lookup v with
        | some w => exact ⟨w, by simp only [cover, known]⟩
        | none => exact ⟨supply.freshVar.1, by simp [cover, known, List.lookup_append]⟩
      obtain ⟨added, extended⟩ :=
        covers_extends rest (cover (names, supply) v).1 (cover (names, supply) v).2
      exact ⟨w, by rw [extended]; exact lookup_of_extends known⟩
    · exact ih _ _ v later

end Renaming

/-- Later pairs do not change a renaming of variables that have their replacements. -/
theorem Term.renamed_of_extends {names : Renaming} (added : Renaming) (t : Term)
    (known : ∀ v ∈ t.vars, ∃ w, names.lookup v = some w) :
    t.renamed (names ++ added) = t.renamed names := by
  refine Term.subst_congr t fun v member => ?_
  obtain ⟨w, found⟩ := known v member
  rw [Renaming.lookup_of_extends found, found]

namespace Scope

variable {s : Scope}

/-- Snapshots from left to right are one renaming of all values by the pairs known at the end. -/
theorem freezeAll_eq (s : Scope) (items : List Term) (names : Renaming) (supply : Supply) :
    s.freezeAll items names supply =
      let values := items.map s.resolve
      let (names, supply) := (values.flatMap Term.vars).foldl Renaming.cover (names, supply)
      (values.map fun value => value.renamed names, names, supply) := by
  induction items generalizing names supply with
  | nil => rfl
  | cons t rest ih =>
    simp only [freezeAll, freeze, ih, List.map_cons, List.flatMap_cons, List.foldl_append,
      Prod.mk.injEq, List.cons.injEq, and_true]
    obtain ⟨added, extended⟩ := Renaming.covers_extends ((rest.map s.resolve).flatMap Term.vars)
      ((s.resolve t).vars.foldl Renaming.cover (names, supply)).1
      ((s.resolve t).vars.foldl Renaming.cover (names, supply)).2
    rw [extended]
    exact (Term.renamed_of_extends added _ (Renaming.covers_known _ names supply)).symm

theorem freeze_seq (s : Scope) (items : List Term) (names : Renaming) (supply : Supply) :
    s.freeze (.seq items) names supply =
      let (values, names, supply) := s.freezeAll items names supply
      (.seq values, names, supply) := by
  simp only [freeze, freezeAll_eq, resolve_seq, Term.renamed, Term.vars_seq, Term.subst_seq]

theorem freeze_lit (s : Scope) (functor : String) (args annots : List Term) (names : Renaming)
    (supply : Supply) :
    s.freeze (.lit functor args annots) names supply =
      let (args, names, supply) := s.freezeAll args names supply
      let (annots, names, supply) := s.freezeAll annots names supply
      (.lit functor args annots, names, supply) := by
  simp only [freeze, freezeAll_eq, resolve_lit, Term.renamed, Term.vars_lit, Term.subst_lit,
    List.foldl_append, Prod.mk.injEq, Term.lit.injEq, true_and, and_true]
  refine List.map_congr_left fun value member => ?_
  obtain ⟨added, extended⟩ := Renaming.covers_extends ((annots.map s.resolve).flatMap Term.vars)
    (((args.map s.resolve).flatMap Term.vars).foldl Renaming.cover (names, supply)).1
    (((args.map s.resolve).flatMap Term.vars).foldl Renaming.cover (names, supply)).2
  rw [extended]
  refine Term.renamed_of_extends added value fun v inside => ?_
  exact Renaming.covers_known _ names supply v (List.mem_flatMap.mpr ⟨value, member, inside⟩)

theorem freeze_eq (acyclic : s.Acyclic) (t : Term) (names : Renaming) (supply : Supply) :
    s.freeze t names supply = match s.walk t with
      | .var v =>
        let (names, supply) := Renaming.cover (names, supply) v
        (.var ((names.lookup v).getD v), names, supply)
      | .seq items =>
        let (values, names, supply) := s.freezeAll items names supply
        (.seq values, names, supply)
      | .lit functor args annots =>
        let (args, names, supply) := s.freezeAll args names supply
        let (annots, names, supply) := s.freezeAll annots names supply
        (.lit functor args annots, names, supply)
      | value => (value, names, supply) := by
  have same : s.resolve t = s.resolve (s.walk t) := by
    rw [resolve_eq acyclic, resolve_eq acyclic (s.walk t), walk_walk acyclic]
  have frozen : s.freeze t names supply = s.freeze (s.walk t) names supply := by
    simp only [freeze, same]
  rw [frozen]
  cases ended : s.walk t with
  | var v =>
    have value : s.resolve (.var v) = .var v := by
      rw [resolve_var acyclic, atVar, walk_of_unbound (walk_unbound acyclic ended)]
    simp only [freeze, value]
    rfl
  | seq items => exact freeze_seq s items names supply
  | lit functor args annots => exact freeze_lit s functor args annots names supply
  | _ => rfl

end Scope

end Deliberation
