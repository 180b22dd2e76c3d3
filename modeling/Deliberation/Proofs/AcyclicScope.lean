import Deliberation.Dereference
import Mathlib.Logic.Relation

/-! Scopes without cycles. A scope is acyclic when its variables can be ranked so that every bound
variable stands above the variables of its value. In such a scope a walk ends at an unbound variable
or at a term that is no variable, the occurs check finds every variable that a term reaches, and
binding a variable that passed the check keeps the scope acyclic. -/
namespace Deliberation.Scope

/-- Every bound variable stands above the variables of its value. -/
def Ranks (s : Scope) (rank : Var → Nat) : Prop :=
  ∀ v value, s.get? v = some value → ∀ w ∈ value.vars, rank w < rank v

def Acyclic (s : Scope) : Prop := ∃ rank, s.Ranks rank

/-- One binding leads from the first variable to the second. -/
def Points (s : Scope) (v w : Var) : Prop := ∃ value, s.get? v = some value ∧ w ∈ value.vars

/-- A chain of bindings, possibly empty, leads from the first variable to the second. -/
def Reaches (s : Scope) : Var → Var → Prop := Relation.ReflTransGen s.Points

theorem empty_acyclic : empty.Acyclic := ⟨fun _ => 0, by intro v value found; simp at found⟩

theorem find?_mem {v : Var} {value : Term} {entries : List (Var × Term)}
    (found : find? v entries = some value) : (v, value) ∈ entries := by
  induction entries with
  | nil => simp [find?] at found
  | cons entry rest ih =>
    obtain ⟨w, other⟩ := entry
    by_cases same : w = v
    · simp_all [find?]
    · simp only [find?, same, if_false] at found
      exact List.mem_cons_of_mem _ (ih found)

theorem find?_append_eq_none {v : Var} {added rest : List (Var × Term)} :
    find? v (added ++ rest) = none ↔ (¬∃ entry ∈ added, entry.1 = v) ∧ find? v rest = none := by
  induction added with
  | nil => simp
  | cons entry more ih =>
    obtain ⟨w, value⟩ := entry
    by_cases same : w = v
    · simp [find?, same]
    · simpa [find?, same] using ih

theorem find?_append_of_unbound {v : Var} {value : Term} {added rest : List (Var × Term)}
    (outside : ∀ entry ∈ added, entry.1 ≠ v) (found : find? v rest = some value) :
    find? v (added ++ rest) = some value := by
  induction added with
  | nil => exact found
  | cons entry more ih =>
    have different := outside entry List.mem_cons_self
    have later := ih fun other member => outside other (List.mem_cons_of_mem _ member)
    simpa [find?, different] using later

theorem countP_lt_of_mem {α : Type} {p q : α → Bool} {items : List α} {a : α}
    (weaker : ∀ x, p x = true → q x = true) (member : a ∈ items) (here : q a = true)
    (there : p a = false) : items.countP p < items.countP q := by
  induction items with
  | nil => simp at member
  | cons x rest ih =>
    have mono : rest.countP p ≤ rest.countP q := List.countP_mono_left fun y _ => weaker y
    rcases List.mem_cons.mp member with rfl | later
    · simp only [List.countP_cons, here, there, if_true, Bool.false_eq_true, if_false]
      omega
    · have strict := ih later
      by_cases held : p x = true
      · simp only [List.countP_cons, held, weaker x held, if_true]
        omega
      · simp only [List.countP_cons, held, Bool.false_eq_true, if_false]
        split <;> omega

/-- The number of bindings whose variable is ranked no higher. -/
def height (s : Scope) (rank : Var → Nat) (v : Var) : Nat :=
  s.bindings.countP fun entry => rank entry.1 ≤ rank v

theorem height_le_size (s : Scope) (rank : Var → Nat) (v : Var) : s.height rank v ≤ s.size :=
  List.countP_le_length

theorem height_pos {s : Scope} {v : Var} {value : Term} (rank : Var → Nat)
    (found : s.get? v = some value) : 0 < s.height rank v :=
  List.countP_pos_iff.mpr ⟨(v, value), find?_mem found, by simp⟩

/-- Heights rank the variables too, and none exceeds the number of bindings. -/
theorem height_ranks {s : Scope} {rank : Var → Nat} (ranks : s.Ranks rank) :
    s.Ranks (s.height rank) := by
  intro v value found w member
  have lower := ranks v value found w member
  apply countP_lt_of_mem (a := (v, value)) _ (find?_mem found)
  · simp
  · simpa using lower
  · intro entry below
    simp only [decide_eq_true_eq] at below ⊢
    omega

/-- A walk with a step for each binding below ends unbound if it ends at a variable. -/
theorem walkWithin_unbound {s : Scope} {rank : Var → Nat} (ranks : s.Ranks (s.height rank))
    (steps : Nat) (v u : Var) (enough : s.height rank v ≤ steps)
    (ended : s.walkWithin steps (.var v) = .var u) : s.get? u = none := by
  induction steps generalizing v with
  | zero =>
    obtain rfl : v = u := by simpa [walkWithin] using ended
    cases found : s.get? v with
    | none => rfl
    | some value => exact absurd (height_pos rank found) (by omega)
  | succ steps ih =>
    cases found : s.get? v with
    | none =>
      obtain rfl : v = u := by simpa [walkWithin, found] using ended
      exact found
    | some value =>
      simp only [walkWithin, found] at ended
      cases value with
      | var w =>
        have lower := ranks v _ found w (by simp [Term.vars])
        exact ih w (by omega) ended
      | _ => simp at ended

/-- In an acyclic scope a chain of bindings does not end at a bound variable. -/
theorem walk_unbound {s : Scope} (acyclic : s.Acyclic) {t : Term} {u : Var}
    (ended : s.walk t = .var u) : s.get? u = none := by
  obtain ⟨rank, ranks⟩ := acyclic
  cases t with
  | var v =>
    rw [walk_eq_walkWithin] at ended
    exact walkWithin_unbound (height_ranks ranks) s.size v u (height_le_size ..) ended
  | _ => simp [walk] at ended

/-- What a walk loses of the variables that its start reaches: an unbound one is the end of the walk
or is reached from the variables of the term it ends at. -/
theorem walkWithin_reaches {s : Scope} {rank : Var → Nat} (ranks : s.Ranks (s.height rank))
    (steps : Nat) (w v : Var) (enough : s.height rank w ≤ steps) (reached : s.Reaches w v)
    (unbound : s.get? v = none) :
    s.walkWithin steps (.var w) = .var v ∨
      (∀ u, s.walkWithin steps (.var w) ≠ .var u) ∧
      ∃ x ∈ (s.walkWithin steps (.var w)).vars, s.Reaches x v ∧
        s.height rank x < s.height rank w := by
  induction steps generalizing w with
  | zero =>
    rcases Relation.ReflTransGen.cases_head reached with rfl | ⟨x, ⟨value, found, member⟩, rest⟩
    · exact .inl rfl
    · exact absurd (height_pos rank found) (by omega)
  | succ steps ih =>
    rcases Relation.ReflTransGen.cases_head reached with rfl | ⟨x, ⟨value, found, member⟩, rest⟩
    · exact .inl (by simp [walkWithin, unbound])
    · have lower := ranks w value found x member
      cases value with
      | var y =>
        obtain rfl : x = y := by simpa [Term.vars] using member
        simp only [walkWithin, found]
        rcases ih x (by omega) rest with ended | ⟨compound, z, inside, onward, below⟩
        · exact .inl ended
        · exact .inr ⟨compound, z, inside, onward, Nat.lt_trans below lower⟩
      | _ =>
        right
        simp only [walkWithin, found, walkWithin_of_not_var, ne_eq, reduceCtorEq,
          not_false_eq_true, implies_true, true_and]
        exact ⟨x, member, rest, lower⟩

/-- The occurs check finds an unbound variable that some variable of the term reaches. -/
theorem occursWithin_of_reaches {s : Scope} {rank : Var → Nat} (ranks : s.Ranks (s.height rank))
    (depth : Nat) (t : Term) (w v : Var) (member : w ∈ t.vars) (reached : s.Reaches w v)
    (unbound : s.get? v = none) (enough : s.height rank w < depth) :
    s.occursWithin v depth t = true := by
  induction depth generalizing t w with
  | zero => omega
  | succ depth ih =>
    simp only [occursWithin, List.any_eq_true]
    refine ⟨w, member, ?_⟩
    rw [walk_eq_walkWithin]
    rcases walkWithin_reaches ranks s.size w v (height_le_size ..) reached unbound with
      ended | ⟨compound, x, inside, onward, below⟩
    · simp [ended]
    · cases value : s.walkWithin s.size (.var w) with
      | var u => exact absurd value (compound u)
      | _ =>
        rw [value] at inside
        exact ih _ x inside onward (by omega)

theorem not_reaches_of_occurs {s : Scope} (acyclic : s.Acyclic) {v : Var} {t : Term}
    (unbound : s.get? v = none) (apart : s.occurs v t = false) :
    ∀ w ∈ t.vars, ¬s.Reaches w v := by
  intro w member reached
  obtain ⟨rank, ranks⟩ := acyclic
  have found := occursWithin_of_reaches (height_ranks ranks) (s.size + 1) t w v member reached
    unbound (Nat.lt_succ_of_le (height_le_size ..))
  rw [occurs, found] at apart
  simp at apart

theorem exists_rank_bound (rank : Var → Nat) (vars : List Var) :
    ∃ bound, ∀ w ∈ vars, rank w < bound := by
  induction vars with
  | nil => exact ⟨0, by simp⟩
  | cons v rest ih =>
    obtain ⟨bound, below⟩ := ih
    refine ⟨max bound (rank v + 1), ?_⟩
    intro w member
    rcases List.mem_cons.mp member with rfl | later
    · omega
    · have := below w later
      omega

/-- Whoever reaches the new variable is lifted above everything its value reaches. -/
theorem bind_acyclic {s : Scope} (acyclic : s.Acyclic) {v : Var} {value : Term}
    (unbound : s.get? v = none) (apart : ∀ w ∈ value.vars, ¬s.Reaches w v) :
    (s.bind v value).Acyclic := by
  classical
  obtain ⟨rank, ranks⟩ := acyclic
  obtain ⟨lift, below⟩ := exists_rank_bound rank value.vars
  refine ⟨fun x => if s.Reaches x v then rank x + lift else rank x, ?_⟩
  intro x bound found w member
  by_cases same : x = v
  · subst v
    obtain rfl : value = bound := by simpa using found
    have self : s.Reaches x x := Relation.ReflTransGen.refl
    have := below w member
    simp only [apart w member, if_false, self, if_true]
    omega
  · rw [get?_bind_of_ne s value same] at found
    have lower := ranks x bound found w member
    dsimp only
    by_cases reached : s.Reaches w v
    · have above : s.Reaches x v := Relation.ReflTransGen.head ⟨bound, found, member⟩ reached
      simp only [reached, above, if_true]
      omega
    · simp only [reached, if_false]
      split <;> omega

theorem bind_acyclic_of_occurs {s : Scope} (acyclic : s.Acyclic) {v : Var} {value : Term}
    (unbound : s.get? v = none) (apart : s.occurs v value = false) : (s.bind v value).Acyclic :=
  bind_acyclic acyclic unbound (not_reaches_of_occurs acyclic unbound apart)

end Deliberation.Scope
