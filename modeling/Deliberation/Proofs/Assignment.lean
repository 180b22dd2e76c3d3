import Deliberation.Proofs.AcyclicScope
import Deliberation.Unify

/-! What unification does to bindings: it assigns values to the ends of walks, one after the other,
each after an occurs check. Everything about the effect of a unification, successful or not, is
derived from this. Records of the trail are undone with `undo`. -/
namespace Deliberation.Bindings

/-- The end of a walk is bound to a value that it does not occur in. -/
def Assigned (b b' : Bindings) : Prop :=
  ∃ t v value, b.scope.walk t = .var v ∧ b.scope.occurs v value = false ∧ b' = b.assign v value

def Assigns : Bindings → Bindings → Prop := Relation.ReflTransGen Assigned

theorem bindChecked_assigns {b : Bindings} {t : Term} {v : Var} (value : Term)
    (ended : b.scope.walk t = .var v) : Assigns b (b.bindChecked v value).2 := by
  unfold bindChecked
  by_cases inside : b.scope.occurs v value = true
  · simp only [inside, if_true]
    exact Relation.ReflTransGen.refl
  · simp only [inside, Bool.false_eq_true, if_false]
    exact Relation.ReflTransGen.single ⟨t, v, value, ended, by simpa using inside, rfl⟩

theorem unifyPairs_assigns {unify : Term → Term → Bindings → Option (Bool × Bindings)}
    (each : ∀ x y b result, unify x y b = some result → Assigns b result.2)
    (xs ys : List Term) (b : Bindings) (result : Bool × Bindings)
    (unified : unifyPairs unify xs ys b = some result) : Assigns b result.2 := by
  induction xs generalizing ys b with
  | nil =>
    cases ys <;>
      · simp only [unifyPairs, Option.some.injEq] at unified
        subst result
        exact Relation.ReflTransGen.refl
  | cons x xs ih =>
    cases ys with
    | nil =>
      simp only [unifyPairs, Option.some.injEq] at unified
      subst result
      exact Relation.ReflTransGen.refl
    | cons y ys =>
      simp only [unifyPairs] at unified
      split at unified
      · rename_i next first
        exact (each x y b _ first).trans (ih ys next unified)
      · exact each x y b result unified

theorem unifyWithin_assigns (depth : Nat) (left right : Term) (b : Bindings)
    (result : Bool × Bindings) (unified : unifyWithin depth left right b = some result) :
    Assigns b result.2 := by
  induction depth generalizing left right b result with
  | zero => simp [unifyWithin] at unified
  | succ depth ih =>
    have pairs := unifyPairs_assigns (fun x y b result => ih x y b result)
    unfold unifyWithin at unified
    split at unified
    case h_1 x y _ ended =>
      obtain rfl := Option.some.inj unified
      split
      · exact Relation.ReflTransGen.refl
      · exact bindChecked_assigns _ ended
    case h_2 y ended _ =>
      obtain rfl := Option.some.inj unified
      exact bindChecked_assigns _ ended
    case h_3 _ x ended _ =>
      obtain rfl := Option.some.inj unified
      exact bindChecked_assigns _ ended
    case h_6 xs ys _ _ =>
      split at unified
      · exact pairs xs ys b result unified
      · obtain rfl := Option.some.inj unified
        exact Relation.ReflTransGen.refl
    case h_7 f xs _ g ys _ _ _ =>
      split at unified
      · exact pairs xs ys b result unified
      · obtain rfl := Option.some.inj unified
        exact Relation.ReflTransGen.refl
    all_goals
      obtain rfl := Option.some.inj unified
      exact Relation.ReflTransGen.refl

theorem unify_assigns (left right : Term) (b : Bindings) :
    Assigns b (b.unify left right).2 := by
  unfold unify
  split
  · rename_i result unified
    exact unifyWithin_assigns _ left right b result unified
  · cases unified : unifyWithin (unifyDepth left right b) left right b with
    | none => exact Relation.ReflTransGen.refl
    | some result => exact unifyWithin_assigns _ left right b result unified

theorem unifyEach_assigns (pairs : List (Term × Term)) (b : Bindings) :
    Assigns b (b.unifyEach pairs).2 := by
  induction pairs generalizing b with
  | nil => exact Relation.ReflTransGen.refl
  | cons pair rest ih =>
    obtain ⟨left, right⟩ := pair
    have first := unify_assigns left right b
    unfold unifyEach
    split
    · rename_i next unified
      rw [unified] at first
      exact first.trans (ih next)
    · exact first

/-- The scope with new bindings in front, each of them recorded. -/
def extend (b : Bindings) (added : List (Var × Term)) : Bindings :=
  { scope := ⟨added ++ b.scope.bindings⟩, trail := added.map (.binding ·.1) ++ b.trail }

/-- Unification adds bindings, one record for each, and takes none away. In an acyclic scope the
new variables are distinct and were unbound. -/
theorem Assigns.extends {b b' : Bindings} (assigns : Assigns b b') :
    ∃ added, b' = b.extend added ∧
      (b.scope.Acyclic → b'.scope.Acyclic ∧ (added.map (·.1)).Nodup ∧
        ∀ entry ∈ added, b.scope.get? entry.1 = none) := by
  induction assigns with
  | refl => exact ⟨[], rfl, fun acyclic => ⟨acyclic, by simp, by simp⟩⟩
  | tail _ assigned ih =>
    obtain ⟨added, rfl, fresh⟩ := ih
    obtain ⟨t, v, value, ended, apart, rfl⟩ := assigned
    refine ⟨(v, value) :: added, rfl, ?_⟩
    intro acyclic
    obtain ⟨before, distinct, unbound⟩ := fresh acyclic
    have free := Scope.walk_unbound before ended
    have outside := Scope.find?_append_eq_none.mp free
    refine ⟨Scope.bind_acyclic_of_occurs before free apart, ?_, ?_⟩
    · simp only [List.map_cons, List.nodup_cons]
      exact ⟨fun member => outside.1 (List.mem_map.mp member), distinct⟩
    · intro entry member
      rcases List.mem_cons.mp member with rfl | later
      · exact outside.2
      · exact unbound entry later

theorem Assigns.get? {b b' : Bindings} (assigns : Assigns b b') (acyclic : b.scope.Acyclic)
    {v : Var} {value : Term} (found : b.scope.get? v = some value) :
    b'.scope.get? v = some value := by
  obtain ⟨added, rfl, fresh⟩ := assigns.extends
  obtain ⟨-, -, unbound⟩ := fresh acyclic
  refine Scope.find?_append_of_unbound ?_ found
  intro entry member same
  rw [← same, unbound entry member] at found
  simp at found

/-- Unbinds what the records say, the newest first. -/
def undo (scope : Scope) : Trail → Scope
  | [] => scope
  | .binding v :: rest => undo (scope.unbind v) rest
  | .mark _ :: rest => undo scope rest

@[simp] theorem undo_append (scope : Scope) (above below : Trail) :
    undo scope (above ++ below) = undo (undo scope above) below := by
  induction above generalizing scope with
  | nil => rfl
  | cons entry rest ih => cases entry <;> exact ih _

@[simp] theorem undo_empty (records : Trail) : undo .empty records = .empty := by
  induction records with
  | nil => rfl
  | cons entry rest ih => cases entry <;> exact ih

/-- The records of new bindings undo exactly these. -/
@[simp] theorem undo_added (added rest : List (Var × Term)) :
    undo ⟨added ++ rest⟩ (added.map (.binding ·.1)) = ⟨rest⟩ := by
  induction added with
  | nil => rfl
  | cons entry more ih => simpa [undo, Scope.unbind] using ih

/-- Rerolling passes the records above the newest occurrence of its marker. -/
theorem unwind_append {c : Choicepoint} {above : Trail} (absent : .mark c ∉ above) (scope : Scope)
    (below : Trail) : unwind c scope (above ++ below) = unwind c (undo scope above) below := by
  induction above generalizing scope with
  | nil => rfl
  | cons entry rest ih =>
    simp only [List.mem_cons, not_or] at absent
    cases entry with
    | binding v => exact ih absent.2 _
    | mark d =>
      have different : d ≠ c := fun same => absent.1 (by rw [same])
      simpa [unwind, undo, different] using ih absent.2 scope

theorem reroll?_of_split {b : Bindings} {c : Choicepoint} {above below : Trail}
    (split : b.trail = above ++ .mark c :: below) (absent : .mark c ∉ above) :
    b.reroll? c = some ⟨undo b.scope above, below⟩ := by
  rw [reroll?, split, unwind_append absent]
  simp [unwind]

theorem reroll?_of_absent {b : Bindings} {c : Choicepoint} (absent : .mark c ∉ b.trail) :
    b.reroll? c = none := by
  have passed := unwind_append absent b.scope []
  rw [List.append_nil] at passed
  exact passed

end Deliberation.Bindings
