import Deliberation.Proofs.AcyclicRuns
import Deliberation.Proofs.ResolvedUnification

/-! The readers agree. Each of them goes through the bindings by a recursion of its own: the test
whether a term is ground, the value that must be ground, the value with variables left in place, the
snapshot and the occurs check. In an acyclic scope what they say of a term is what can be read off
its resolved value, in which no bound variable is left. -/
namespace Deliberation

namespace Scope

variable {s : Scope} {t : Term}

theorem vars_resolve_eq_nil_of_walk (acyclic : s.Acyclic) (compound : ∀ u, s.walk t ≠ .var u) :
    (s.resolve t).vars = [] ↔ ∀ part ∈ (s.walk t).parts, (s.resolve part).vars = [] := by
  simp only [List.eq_nil_iff_forall_not_mem, mem_vars_resolve_of_walk acyclic compound, not_exists,
    not_and]
  exact forall_comm.trans (forall_congr' fun _ => forall_comm)

/-- A term is ground when no variable is left in its value. -/
theorem isGround_iff (acyclic : s.Acyclic) : s.isGround t = true ↔ (s.resolve t).vars = [] := by
  induction t using (descents_end acyclic).induction with
  | h t ih =>
    rw [isGround_eq acyclic]
    cases ended : s.walk t with
    | var u =>
      rw [resolve_eq acyclic, ended]
      simp
    | _ =>
      rw [vars_resolve_eq_nil_of_walk acyclic (by simp [ended]), ended]
      simp only [List.all_eq_true]
      refine forall_congr' fun part => forall_congr' fun inside => ih part ?_
      rwa [Descends, ended]

/-- The first unbound variable is the term itself, or the first one in the parts of what the term
stands for. -/
theorem firstUnbound?_cases (acyclic : s.Acyclic) (t : Term) :
    (∃ v u, t = .var v ∧ s.walk t = .var u ∧ s.firstUnbound? t = some v) ∨
      (∀ u, s.walk t ≠ .var u) ∧
        s.firstUnbound? t = (s.walk t).parts.findSome? s.firstUnbound? := by
  by_cases variable_ : ∃ v, t = .var v
  · obtain ⟨v, rfl⟩ := variable_
    have found : s.firstUnbound? (.var v) = s.atVar (fun v _ => some v) s.firstUnbound? v :=
      s.unboundReader.at_var acyclic v
    rw [found, atVar]
    split
    · rename_i u ended
      exact .inl ⟨v, u, rfl, ended, rfl⟩
    · rename_i compound
      have ends (u : Var) : s.walk (.var v) ≠ .var u := fun ended => compound u ended
      exact .inr ⟨ends, firstUnbound?_parts s ends⟩
  · have compound (v : Var) : t ≠ .var v := fun same => variable_ ⟨v, same⟩
    rw [walk_of_not_var compound]
    exact .inr ⟨compound, firstUnbound?_parts s compound⟩

/-- The chain of bindings that it begins ends at a variable that is left in the value. -/
theorem firstUnbound?_ends (acyclic : s.Acyclic) {v : Var} (found : s.firstUnbound? t = some v) :
    ∃ u, s.walk (.var v) = .var u ∧ u ∈ (s.resolve t).vars := by
  induction t using (descents_end acyclic).induction with
  | h t ih =>
    rcases firstUnbound?_cases acyclic t with ⟨w, u, rfl, ended, first⟩ | ⟨compound, parts⟩
    · obtain rfl : w = v := Option.some.inj (first.symm.trans found)
      refine ⟨u, ended, ?_⟩
      rw [resolve_eq acyclic, ended]
      exact List.mem_singleton_self u
    · rw [parts] at found
      obtain ⟨part, inside, first⟩ := List.exists_of_findSome?_eq_some found
      obtain ⟨u, ended, left⟩ := ih part inside first
      exact ⟨u, ended, (mem_vars_resolve_of_walk acyclic compound).mpr ⟨part, inside, left⟩⟩

theorem firstUnbound?_eq_none_iff (acyclic : s.Acyclic) :
    s.firstUnbound? t = none ↔ (s.resolve t).vars = [] := by
  constructor
  · intro missing
    induction t using (descents_end acyclic).induction with
    | h t ih =>
      rcases firstUnbound?_cases acyclic t with ⟨w, u, rfl, ended, first⟩ | ⟨compound, parts⟩
      · simp [missing] at first
      · rw [parts, List.findSome?_eq_none_iff] at missing
        rw [vars_resolve_eq_nil_of_walk acyclic compound]
        exact fun part inside => ih part inside (missing part inside)
  · intro closed
    cases found : s.firstUnbound? t with
    | none => rfl
    | some v =>
      obtain ⟨u, -, left⟩ := firstUnbound?_ends acyclic found
      simp [closed] at left

/-- A ground term stands for its value. -/
theorem grounded_of_ground (acyclic : s.Acyclic) (ground : s.isGround t = true) :
    s.grounded t = .ok (s.resolve t) := by
  have all_bound := (firstUnbound?_eq_none_iff acyclic).mpr ((isGround_iff acyclic).mp ground)
  rw [grounded, all_bound]

/-- The error blames a variable whose chain of bindings ends unbound. -/
theorem grounded_of_not_ground (acyclic : s.Acyclic) (unground : s.isGround t = false) :
    ∃ v u, s.grounded t = .error (.raised (.instantiation (.var v))) ∧ s.walk (.var v) = .var u ∧
      u ∈ (s.resolve t).vars := by
  cases found : s.firstUnbound? t with
  | none =>
    have ground := (isGround_iff acyclic).mpr ((firstUnbound?_eq_none_iff acyclic).mp found)
    simp [ground] at unground
  | some v =>
    obtain ⟨u, ended, left⟩ := firstUnbound?_ends acyclic found
    exact ⟨v, u, by rw [grounded, found], ended, left⟩

/-- A snapshot of a term without unbound variables is its value and names nothing. -/
theorem freeze_of_closed (closed : (s.resolve t).vars = []) (names : Renaming) (supply : Supply) :
    s.freeze t names supply = (s.resolve t, names, supply) := by
  have value : (s.resolve t).renamed names = s.resolve t := by
    refine (Term.subst_congr _ fun v member => ?_).trans (Term.subst_var _)
    simp [closed] at member
  simp only [freeze, closed, List.foldl_nil, value]

/-- What the readers say of a term. -/
structure ReadersAgree (s : Scope) (t : Term) : Prop where
  grounded_iff : s.isGround t = true ↔ ∃ value, s.grounded t = .ok value
  closed_iff : s.isGround t = true ↔ (s.resolve t).vars = []
  /-- A ground term has one value. A snapshot names nothing and takes no variable for it. -/
  value : s.isGround t = true → s.grounded t = .ok (s.resolve t) ∧
    ∀ names supply, s.freeze t names supply = (s.resolve t, names, supply)
  error : s.isGround t = false → ∃ v u, s.grounded t = .error (.raised (.instantiation (.var v))) ∧
    s.walk (.var v) = .var u ∧ u ∈ (s.resolve t).vars
  unbound : ∀ v ∈ (s.resolve t).vars, s.get? v = none
  idempotent : s.resolve (s.resolve t) = s.resolve t
  occurs_iff : ∀ v, s.occurs v t = true ↔ v ∈ (s.resolve t).vars

/-- In an acyclic scope every reader satisfies its plain recursion through the bindings, and the
readers agree on every term. -/
theorem readers_agree (s : Scope) (straight : ∀ v, ¬Relation.TransGen s.Points v v) :
    s.ReadByRecursion ∧ ∀ t, s.ReadersAgree t := by
  have acyclic := acyclic_iff.mpr straight
  refine ⟨acyclic.readByRecursion, fun t => ?_⟩
  have unbound (v : Var) (left : v ∈ (s.resolve t).vars) : s.get? v = none :=
    unbound_of_mem_vars_resolve acyclic left
  refine ⟨⟨fun ground => ?_, fun ⟨value, given⟩ => ?_⟩, isGround_iff acyclic, fun ground => ?_,
    grounded_of_not_ground acyclic, unbound, resolve_of_free unbound, fun v => occurs_iff acyclic⟩
  · exact ⟨_, grounded_of_ground acyclic ground⟩
  · by_contra unground
    obtain ⟨v, u, failed, -⟩ := grounded_of_not_ground acyclic (by simpa using unground)
    simp [given] at failed
  · have closed := (isGround_iff acyclic).mp ground
    exact ⟨grounded_of_ground acyclic ground, freeze_of_closed closed⟩

/-- With `X = f(Y)[Z]`, `Y = W` and `Z = 1`, the term `p(X)` leads to `W` behind a chain of bindings,
and `q(Z)[Z]` to nothing that is unbound. -/
theorem readers_agree_annotated :
    let s := ((empty.bind ⟨3⟩ (.int 1)).bind ⟨2⟩ (.var ⟨4⟩)).bind ⟨1⟩
      (.lit "f" [.var ⟨2⟩] [.var ⟨3⟩])
    let t : Term := .lit "p" [.var ⟨1⟩] []
    let t' : Term := .lit "q" [.var ⟨3⟩] [.var ⟨3⟩]
    (s.isGround t = false ∧ s.grounded t = .error (.raised (.instantiation (.var ⟨2⟩))) ∧
        s.resolve (s.resolve t) = .lit "p" [.lit "f" [.var ⟨4⟩] [.int 1]] [] ∧
        s.occurs ⟨4⟩ t = true) ∧
      s.isGround t' = true ∧ s.grounded t' = .ok (.lit "q" [.int 1] [.int 1]) := by
  intro s t t'
  have acyclic : s.Acyclic := by
    refine bind_acyclic_of_occurs (bind_acyclic_of_occurs (bind_acyclic_of_occurs ?_ ?_ ?_) ?_ ?_)
      ?_ ?_
    · exact empty_acyclic
    all_goals rfl
  obtain ⟨-, agree⟩ := readers_agree s (acyclic_iff.mp acyclic)
  refine ⟨⟨rfl, rfl, (agree t).idempotent, ((agree t).occurs_iff ⟨4⟩).mpr ?_⟩, rfl, ?_⟩
  · exact List.mem_singleton_self _
  · exact ((agree t').value rfl).1

end Scope

end Deliberation
