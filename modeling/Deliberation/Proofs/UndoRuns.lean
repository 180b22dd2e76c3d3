import Deliberation.Proofs.Growth

/-! Undoing over whole runs. An operation unifies, lays a choicepoint, rerolls any choicepoint or
drops all bindings; a run is any list of them, begun without bindings and records. The trail holds
only the names of variables, so undoing is right because no variable is recorded twice while it is
bound. -/
namespace Deliberation

/-- What can be done to the bindings of an intention. -/
inductive Operation where
  | unify (left right : Term)
  | push
  | reroll (c : Choicepoint)
  | clear

/-- A choicepoint that cannot be rerolled leaves the state as it is. -/
def Operation.apply (s : State) : Operation → State
  | unify left right => (s.unify left right).2
  | push => s.mark.2
  | reroll c => (s.reroll c).toOption.getD s
  | clear => s.forget

/-- An intention without bindings and records. -/
def State.start (id : IntentionId) (platform : Platform) : State :=
  { intention := { id }, platform }

def State.after (s : State) (operations : List Operation) : State :=
  operations.foldl Operation.apply s

/-- The variables of the binding records, the newest first. -/
def Trail.recorded (trail : Trail) : List Var :=
  trail.filterMap fun
    | .binding v => some v
    | .mark _ => none

theorem Trail.recorded_added (added : List (Var × Term)) :
    recorded (added.map (.binding ·.1)) = added.map (·.1) := by
  rw [recorded, List.filterMap_map]
  exact congrFun List.filterMap_eq_map added

namespace Scope

def keys (s : Scope) : List Var := s.bindings.map (·.1)

theorem find?_isSome {v : Var} {entries : List (Var × Term)} :
    (find? v entries).isSome ↔ v ∈ entries.map (·.1) := by
  induction entries with
  | nil => simp [find?]
  | cons entry rest ih =>
    by_cases same : entry.1 = v
    · simp [find?, same]
    · simp [find?, same, ih, Ne.symm same]

/-- With distinct keys, unbinding takes one variable away and leaves the others. -/
theorem get?_unbind {s : Scope} (distinct : s.keys.Nodup) (v w : Var) :
    (s.unbind v).get? w = if w = v then none else s.get? w := by
  obtain ⟨entries⟩ := s
  simp only [get?, unbind, keys] at distinct ⊢
  induction entries with
  | nil => simp [find?]
  | cons entry rest ih =>
    simp only [List.map_cons, List.nodup_cons] at distinct
    have later := ih distinct.2
    by_cases here : entry.1 = v
    · by_cases same : w = v
      · have absent : find? w rest = none := by
          rw [← Option.not_isSome_iff_eq_none, find?_isSome, same, ← here]
          exact distinct.1
        simp [here, same, ← absent]
      · simp [here, same, find?, Ne.symm same]
    · by_cases first : entry.1 = w
      · have different : w ≠ v := first ▸ here
        simp [find?, first, different]
      · simpa [here, find?, first] using later

theorem unbind_distinct {s : Scope} (distinct : s.keys.Nodup) (v : Var) :
    (s.unbind v).keys.Nodup :=
  distinct.sublist (List.eraseP_sublist.map _)

theorem unbind_acyclic {s : Scope} (acyclic : s.Acyclic) (distinct : s.keys.Nodup) (v : Var) :
    (s.unbind v).Acyclic := by
  obtain ⟨rank, ranks⟩ := acyclic
  refine ⟨rank, ?_⟩
  intro w value found
  rw [get?_unbind distinct] at found
  split at found
  · simp at found
  · exact ranks w value found

end Scope

namespace State

open Bindings

/-- What every run keeps. Choicepoints on the trail were handed out before. -/
structure Consistent (s : State) : Prop where
  acyclic : s.scope.Acyclic
  distinct : s.scope.keys.Nodup
  issued : ∀ c, .mark c ∈ s.trail → c.id < s.nextMark

theorem undo_consistent (records : Trail) {scope : Scope} (acyclic : scope.Acyclic)
    (distinct : scope.keys.Nodup) :
    (undo scope records).Acyclic ∧ (undo scope records).keys.Nodup := by
  induction records generalizing scope with
  | nil => exact ⟨acyclic, distinct⟩
  | cons entry rest ih =>
    cases entry with
    | binding v =>
      exact ih (Scope.unbind_acyclic acyclic distinct v) (Scope.unbind_distinct distinct v)
    | mark c => exact ih acyclic distinct

theorem start_consistent (id : IntentionId) (platform : Platform) :
    (start id platform).Consistent :=
  ⟨Scope.empty_acyclic, List.nodup_nil, by simp [start, trail]⟩

/-- Assigning binds no variable twice. -/
theorem assigns_distinct {b b' : Bindings} (assigns : Assigns b b') (acyclic : b.scope.Acyclic)
    (distinct : b.scope.keys.Nodup) : b'.scope.keys.Nodup := by
  obtain ⟨added, rfl, fresh⟩ := assigns.extends
  obtain ⟨-, new, unbound⟩ := fresh acyclic
  have keys : (b.extend added).scope.keys = added.map (·.1) ++ b.scope.keys := List.map_append
  rw [keys, List.nodup_append]
  refine ⟨new, distinct, ?_⟩
  rintro v taken w old rfl
  obtain ⟨entry, member, rfl⟩ := List.mem_map.mp taken
  have bound := Scope.find?_isSome.mpr old
  have free : Scope.find? entry.1 b.scope.bindings = none := unbound entry member
  simp [free] at bound

/-- The effect of a unification: new bindings of distinct variables that were unbound, and one
record for each, also when it fails. -/
theorem unify_extends {s : State} (acyclic : s.scope.Acyclic) (left right : Term) :
    ∃ added : List (Var × Term), (s.unify left right).2.bindings = s.bindings.extend added ∧
      (added.map (·.1)).Nodup ∧ ∀ entry ∈ added, s.scope.get? entry.1 = none := by
  obtain ⟨added, extended, fresh⟩ := (unify_assigns left right s.bindings).extends
  exact ⟨added, extended, (fresh acyclic).2⟩

theorem reroll_apply_cases (s : State) (c : Choicepoint) :
    (.mark c ∉ s.trail ∧ (Operation.reroll c).apply s = s) ∨
    ∃ above below, s.trail = above ++ .mark c :: below ∧ .mark c ∉ above ∧
      (Operation.reroll c).apply s = s.withBindings ⟨undo s.scope above, below⟩ := by
  cases rerolled : s.reroll c with
  | ok s' =>
    obtain ⟨above, below, split, absent, rfl⟩ := reroll_eq_ok_iff.mp rerolled
    exact .inr ⟨above, below, split, absent, by rw [Operation.apply, rerolled]; rfl⟩
  | error e =>
    refine .inl ⟨?_, by rw [Operation.apply, rerolled]; rfl⟩
    intro present
    obtain ⟨above, below, split, absent⟩ := List.eq_append_cons_of_mem present
    rw [reroll_eq_ok_iff.mpr ⟨above, below, split, absent, rfl⟩] at rerolled
    simp at rerolled

theorem apply_consistent {s : State} (consistent : s.Consistent) (operation : Operation) :
    (operation.apply s).Consistent := by
  cases operation with
  | unify left right =>
    obtain ⟨added, extended, -, -⟩ := unify_extends consistent.acyclic left right
    have trail : (s.unify left right).2.trail = (s.bindings.extend added).trail :=
      congrArg Bindings.trail extended
    refine ⟨(unify_grows s left right).acyclic consistent.acyclic, ?_, ?_⟩
    · exact assigns_distinct (unify_assigns left right s.bindings) consistent.acyclic
        consistent.distinct
    · intro c member
      rw [Operation.apply, trail, extend] at member
      rcases List.mem_append.mp member with new | old
      · simp at new
      · exact consistent.issued c old
  | push =>
    refine ⟨consistent.acyclic, consistent.distinct, ?_⟩
    intro c member
    rcases List.mem_cons.mp member with new | old
    · obtain rfl := TrailEntry.mark.inj new
      exact Nat.lt_succ_self _
    · exact Nat.lt_succ_of_lt (consistent.issued c old)
  | reroll c =>
    rcases reroll_apply_cases s c with ⟨-, same⟩ | ⟨above, below, split, -, same⟩
    · rwa [same]
    · obtain ⟨acyclic, distinct⟩ := undo_consistent above consistent.acyclic consistent.distinct
      rw [same]
      refine ⟨acyclic, distinct, ?_⟩
      intro d member
      have kept : .mark d ∈ below := member
      exact consistent.issued d (by simp [split, kept])
  | clear => exact ⟨Scope.empty_acyclic, List.nodup_nil, consistent.issued⟩

theorem after_consistent {s : State} (consistent : s.Consistent) (operations : List Operation) :
    (s.after operations).Consistent := by
  induction operations generalizing s with
  | nil => exact consistent
  | cons operation rest ih => exact ih (apply_consistent consistent operation)

/-- While nothing is dropped, the records name the bound variables in the order of binding. -/
def Recorded (s : State) : Prop := s.scope.keys = Trail.recorded s.trail

theorem undo_recorded (above below : Trail) {scope : Scope}
    (recorded : scope.keys = Trail.recorded (above ++ below)) :
    (undo scope above).keys = Trail.recorded below := by
  induction above generalizing scope with
  | nil => exact recorded
  | cons entry rest ih =>
    cases entry with
    | mark c => exact ih recorded
    | binding v =>
      obtain ⟨entries⟩ := scope
      cases entries with
      | nil => simp [Scope.keys, Trail.recorded] at recorded
      | cons first others =>
        simp only [Scope.keys, Trail.recorded, List.map_cons, List.cons_append,
          List.filterMap_cons, List.cons.injEq] at recorded
        apply ih
        simpa [Scope.unbind, Scope.keys, Trail.recorded, recorded.1] using recorded.2

theorem apply_recorded {s : State} (recorded : s.Recorded) (operation : Operation)
    (kept : operation ≠ .clear) : (operation.apply s).Recorded := by
  cases operation with
  | unify left right =>
    obtain ⟨added, extended, -⟩ := (unify_assigns left right s.bindings).extends
    show (s.bindings.unify left right).2.scope.keys =
      Trail.recorded (s.bindings.unify left right).2.trail
    rw [extended, extend, Scope.keys, List.map_append, Trail.recorded, List.filterMap_append]
    exact congrArg₂ _ (Trail.recorded_added added).symm recorded
  | push => exact recorded
  | reroll c =>
    rcases reroll_apply_cases s c with ⟨-, same⟩ | ⟨above, below, split, -, same⟩
    · rwa [same]
    · rw [same]
      rw [Recorded, split] at recorded
      exact undo_recorded above (.mark c :: below) recorded
  | clear => exact absurd rfl kept

theorem after_recorded {s : State} (recorded : s.Recorded) (operations : List Operation)
    (kept : .clear ∉ operations) : (s.after operations).Recorded := by
  induction operations generalizing s with
  | nil => exact recorded
  | cons operation rest ih =>
    simp only [List.mem_cons, not_or] at kept
    exact ih (apply_recorded recorded operation (Ne.symm kept.1)) kept.2

/-- A choicepoint still has everything above it stacked on it, or is gone for good. -/
structure Guarded (s : State) (s' : State) : Prop where
  issued : s.nextMark < s'.nextMark
  stacked : Stacks s.mark.2 s' ∨ .mark s.mark.1 ∉ s'.trail

theorem apply_guarded {s s' : State} (consistent : s.Consistent) (guarded : Guarded s s')
    (operation : Operation) : Guarded s (operation.apply s') := by
  have older : .mark s.mark.1 ∉ s.trail := by
    intro member
    exact absurd (consistent.issued _ member) (Nat.lt_irrefl _)
  cases operation with
  | unify left right =>
    refine ⟨guarded.issued, guarded.stacked.imp (·.trans (unify_grows s' left right).toStacks) ?_⟩
    intro absent
    obtain ⟨added, extended, -⟩ := (unify_assigns left right s'.bindings).extends
    show .mark s.mark.1 ∉ (s'.bindings.unify left right).2.trail
    rw [extended, extend, List.mem_append, not_or]
    exact ⟨by simp, absent⟩
  | push =>
    refine ⟨Nat.lt_succ_of_lt guarded.issued,
      guarded.stacked.imp (·.trans (mark_grows s').toStacks) ?_⟩
    intro absent member
    rcases List.mem_cons.mp member with new | old
    · have same : s.nextMark = s'.nextMark := congrArg Choicepoint.id (TrailEntry.mark.inj new)
      exact absurd guarded.issued (by omega)
    · exact absent old
  | clear =>
    exact ⟨guarded.issued, guarded.stacked.imp (·.trans (forget_returns s').grows.toStacks) id⟩
  | reroll d =>
    rcases reroll_apply_cases s' d with ⟨-, same⟩ | ⟨above, below, split, -, same⟩
    · rwa [same]
    rw [same]
    refine ⟨guarded.issued, ?_⟩
    rcases guarded.stacked with stacked | absent
    · obtain ⟨extra, trail, fresh, undone⟩ := stacked.records
      have overlap : extra ++ .mark s.mark.1 :: s.trail = above ++ .mark d :: below :=
        trail.symm.trans split
      rcases List.append_eq_append_iff.mp overlap with ⟨more, -, rest⟩ | ⟨more, inside, rest⟩
      · right
        intro member
        have kept : .mark s.mark.1 ∈ below := member
        cases more with
        | nil =>
          obtain ⟨-, rfl⟩ := List.cons.inj rest
          exact older kept
        | cons entry lower =>
          obtain ⟨-, tail⟩ := List.cons.inj rest
          exact older (by simp [tail, kept])
      · cases more with
        | nil =>
          obtain ⟨-, rfl⟩ := List.cons.inj rest
          exact .inr older
        | cons entry lower =>
          obtain ⟨rfl, rfl⟩ := List.cons.inj rest
          refine .inl ⟨stacked.marks, stacked.resets, lower, rfl, ?_, ?_⟩
          · intro c member
            exact fresh c (by simp [inside, member])
          · rw [inside, undo_append] at undone
            exact undone
    · right
      intro member
      have kept : .mark s.mark.1 ∈ below := member
      exact absent (by simp [split, kept])

theorem after_guarded {s : State} (consistent : s.Consistent) {s' : State}
    (guarded : Guarded s s') (operations : List Operation) :
    Guarded s (s'.after operations) := by
  induction operations generalizing s' with
  | nil => exact guarded
  | cons operation rest ih => exact ih (apply_guarded consistent guarded operation)

theorem apply_resets (s : State) (operation : Operation) :
    (operation.apply s).resets = if operation matches .clear then s.resets + 1 else s.resets := by
  cases operation with
  | reroll c =>
    rcases reroll_apply_cases s c with ⟨-, same⟩ | ⟨above, below, -, -, same⟩ <;> rw [same] <;> rfl
  | _ => rfl

/-- The count of resets tells whether everything was dropped on the way. -/
theorem after_resets (s : State) (operations : List Operation) :
    s.resets ≤ (s.after operations).resets ∧
      ((s.after operations).resets = s.resets ↔ .clear ∉ operations) := by
  induction operations generalizing s with
  | nil => exact ⟨Nat.le_refl _, by simp [after]⟩
  | cons operation rest ih =>
    obtain ⟨grown, same⟩ := ih (operation.apply s)
    have first := apply_resets s operation
    simp only [after, List.foldl_cons] at grown same ⊢
    cases operation with
    | clear =>
      simp only [if_true] at first
      constructor
      · omega
      · simp only [List.mem_cons, true_or, not_true_eq_false, iff_false]
        omega
    | _ =>
      simp only [Bool.false_eq_true, if_false] at first
      simpa [first] using And.intro grown same

/--
Undo is correct over whole runs. Rerolling a choicepoint that is on the trail restores the records
and the scope of the moment it was laid, or an empty scope if all bindings were dropped since; one
that is not on the trail is an error and changes nothing. Unifying only adds bindings, of variables
that were unbound, with one record each. Until all bindings are dropped, the records name every
bound variable once.
-/
theorem undo_over_runs (id : IntentionId) (platform : Platform) (before : List Operation) :
    let s := (start id platform).after before
    (∀ later, .mark s.mark.1 ∈ (s.mark.2.after later).trail →
      ∃ s', (s.mark.2.after later).reroll s.mark.1 = .ok s' ∧ s'.trail = s.trail ∧
        (.clear ∉ later → s'.scope = s.scope) ∧ (.clear ∈ later → s'.scope = .empty)) ∧
    (∀ c, .mark c ∉ s.trail →
      s.reroll c = .error (.raised (.choicepointNotFound c.id)) ∧ (Operation.reroll c).apply s = s) ∧
    (∀ left right, ∃ added : List (Var × Term),
      (s.unify left right).2.scope.bindings = added ++ s.scope.bindings ∧
      (s.unify left right).2.trail = added.map (.binding ·.1) ++ s.trail ∧
      (added.map (·.1)).Nodup ∧ (∀ entry ∈ added, s.scope.get? entry.1 = none) ∧
      ∀ v value, s.scope.get? v = some value → (s.unify left right).2.scope.get? v = some value) ∧
    (.clear ∉ before → (Trail.recorded s.trail).Nodup ∧
      ∀ v, (s.scope.get? v).isSome ↔ v ∈ Trail.recorded s.trail) := by
  intro s
  have consistent : s.Consistent := after_consistent (start_consistent id platform) before
  refine ⟨?_, ?_, ?_, ?_⟩
  · intro later present
    have fresh : Guarded s s.mark.2 := ⟨Nat.lt_succ_self _, .inl (Grows.refl _).toStacks⟩
    rcases (after_guarded consistent fresh later).stacked with stacked | absent
    · obtain ⟨s', rerolled, trail, scope⟩ := stacked.reroll_laid
      have same : (s.mark.2.after later).resets = s.resets ↔ .clear ∉ later :=
        (after_resets s.mark.2 later).2
      refine ⟨s', rerolled, trail, ?_, ?_⟩
      · intro kept
        rw [scope, if_pos (same.mpr kept)]
      · intro dropped
        rw [scope, if_neg]
        intro equal
        exact same.mp equal dropped
    · exact absurd present absent
  · intro c absent
    refine ⟨reroll_of_absent absent, ?_⟩
    rw [Operation.apply, reroll_of_absent absent]
    rfl
  · intro left right
    obtain ⟨added, extended, distinct, unbound⟩ := unify_extends consistent.acyclic left right
    refine ⟨added, congrArg (·.scope.bindings) extended, congrArg Bindings.trail extended, distinct,
      unbound, ?_⟩
    intro v value found
    exact (unify_grows s left right).keeps consistent.acyclic rfl v value found
  · intro kept
    have recorded : s.scope.keys = Trail.recorded s.trail :=
      after_recorded (s := start id platform) rfl before kept
    rw [← recorded]
    exact ⟨consistent.distinct, fun v => Scope.find?_isSome⟩

theorem undo_over_runs_once :
    let s := (start ⟨1⟩ {}).after [.unify (.var ⟨1⟩) (.int 1)]
    ∃ s', (s.mark.2.after [.unify (.var ⟨2⟩) (.int 2)]).reroll s.mark.1 = .ok s' ∧
      s'.trail = s.trail ∧ s'.scope = s.scope := by
  obtain ⟨s', rerolled, trail, kept, -⟩ :=
    (undo_over_runs ⟨1⟩ {} [.unify (.var ⟨1⟩) (.int 1)]).1 [.unify (.var ⟨2⟩) (.int 2)] (by decide)
  exact ⟨s', rerolled, trail, kept (by simp)⟩

end State

end Deliberation
