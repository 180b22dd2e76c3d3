import Deliberation.Goal.Resume
import Deliberation.Proofs.Assignment

/-! How states grow and return. A state grows when records are laid on top of its trail: undoing
these records gives its scope back, unless all bindings were dropped in between, which leaves
nothing. A state returns when nothing is left on top. Rerolling a choicepoint after any growth
returns to the state in which it was laid. -/
namespace Deliberation

-- Freezing takes variables only: it neither reads nor changes the number of choicepoints.
def Supply.withMarks (s : Supply) (n : Nat) : Supply := { s with nextChoicepoint := n }

theorem Renaming.cover_withMarks (state : Renaming × Supply) (n : Nat) (v : Var) :
    cover (state.1, state.2.withMarks n) v =
      ((cover state v).1, (cover state v).2.withMarks n) := by
  cases known : state.1.lookup v with
  | none =>
    simp only [cover, known]
    rfl
  | some w => simp only [cover, known]

theorem Renaming.covers_withMarks (vars : List Var) (state : Renaming × Supply) (n : Nat) :
    vars.foldl cover (state.1, state.2.withMarks n) =
      ((vars.foldl cover state).1, (vars.foldl cover state).2.withMarks n) := by
  induction vars generalizing state with
  | nil => rfl
  | cons v rest ih =>
    rw [List.foldl_cons, cover_withMarks]
    exact ih (cover state v)

theorem Scope.freeze_withMarks (scope : Scope) (t : Term) (names : Renaming) (supply : Supply)
    (n : Nat) :
    scope.freeze t names (supply.withMarks n) =
      ((scope.freeze t names supply).1, (scope.freeze t names supply).2.1,
        (scope.freeze t names supply).2.2.withMarks n) := by
  have covered := Renaming.covers_withMarks (scope.resolve t).vars (names, supply) n
  simp only [freeze, covered]

theorem Scope.freezeAll_withMarks (scope : Scope) (parts : List Term) (names : Renaming)
    (supply : Supply) (n : Nat) :
    scope.freezeAll parts names (supply.withMarks n) =
      ((scope.freezeAll parts names supply).1, (scope.freezeAll parts names supply).2.1,
        (scope.freezeAll parts names supply).2.2.withMarks n) := by
  induction parts generalizing names supply with
  | nil => rfl
  | cons t rest ih => simp only [freezeAll, freeze_withMarks, ih]

theorem Scope.freeze_nextChoicepoint (scope : Scope) (t : Term) (names : Renaming)
    (supply : Supply) :
    (scope.freeze t names supply).2.2.nextChoicepoint = supply.nextChoicepoint := by
  have same := scope.freeze_withMarks t names supply supply.nextChoicepoint
  exact congrArg (fun result => result.2.2.nextChoicepoint) same

theorem Scope.freezeAll_nextChoicepoint (scope : Scope) (parts : List Term) (names : Renaming)
    (supply : Supply) :
    (scope.freezeAll parts names supply).2.2.nextChoicepoint = supply.nextChoicepoint := by
  have same := scope.freezeAll_withMarks parts names supply supply.nextChoicepoint
  exact congrArg (fun result => result.2.2.nextChoicepoint) same

namespace State

open Bindings

/-- The number of the next choicepoint. -/
def nextMark (s : State) : Nat := s.platform.supply.nextChoicepoint

/-- The second state has the bindings of the first again, or none if all were dropped. -/
structure Returns (s s' : State) : Prop where
  marks : s.nextMark ≤ s'.nextMark
  resets : s.resets ≤ s'.resets
  trail : s'.trail = s.trail
  scope : s'.scope = if s'.resets = s.resets then s.scope else .empty

/-- The second state holds the records of the first below its own, whose choicepoints are new. -/
structure Stacks (s s' : State) : Prop where
  marks : s.nextMark ≤ s'.nextMark
  resets : s.resets ≤ s'.resets
  records : ∃ above, s'.trail = above ++ s.trail ∧
    (∀ c, .mark c ∈ above → s.nextMark ≤ c.id) ∧
    undo s'.scope above = if s'.resets = s.resets then s.scope else .empty

/-- On top of an acyclic scope the old bindings are also unchanged until all are dropped. -/
structure Grows (s s' : State) : Prop extends Stacks s s' where
  acyclic : s.scope.Acyclic → s'.scope.Acyclic
  keeps : s.scope.Acyclic → s'.resets = s.resets →
    ∀ v value, s.scope.get? v = some value → s'.scope.get? v = some value

theorem Returns.refl (s : State) : Returns s s := ⟨Nat.le_refl _, Nat.le_refl _, rfl, by simp⟩

/-- Nothing but the bindings counts. -/
theorem Returns.of_unchanged {s s' : State} (bindings : s'.bindings = s.bindings)
    (resets : s'.resets = s.resets) (marks : s.nextMark ≤ s'.nextMark) : Returns s s' := by
  refine ⟨marks, Nat.le_of_eq resets.symm, congrArg Bindings.trail bindings, ?_⟩
  rw [if_pos resets]
  exact congrArg Bindings.scope bindings

theorem Returns.trans {s s' s'' : State} (first : Returns s s') (second : Returns s' s'') :
    Returns s s'' := by
  have mid := first.resets
  have last := second.resets
  refine ⟨Nat.le_trans first.marks second.marks, Nat.le_trans mid last,
    second.trail.trans first.trail, ?_⟩
  rw [second.scope, first.scope]
  by_cases kept : s''.resets = s'.resets
  · rw [if_pos kept, kept]
  · rw [if_neg kept, if_neg (by omega)]

theorem Returns.grows {s s' : State} (returns : Returns s s') : Grows s s' := by
  refine ⟨⟨returns.marks, returns.resets, [], by simp [returns.trail], by simp, returns.scope⟩,
    ?_, ?_⟩
  · intro acyclic
    rw [returns.scope]
    split
    · exact acyclic
    · exact Scope.empty_acyclic
  · intro _ same v value found
    rwa [returns.scope, if_pos same]

theorem Grows.refl (s : State) : Grows s s := (Returns.refl s).grows

theorem Stacks.trans {s s' s'' : State} (first : Stacks s s') (second : Stacks s' s'') :
    Stacks s s'' := by
  have mid := first.resets
  have last := second.resets
  obtain ⟨above, trail, fresh, undone⟩ := first.records
  obtain ⟨higher, trail', fresh', undone'⟩ := second.records
  refine ⟨Nat.le_trans first.marks second.marks, Nat.le_trans mid last, higher ++ above, ?_, ?_, ?_⟩
  · simp [trail', trail]
  · intro c member
    rcases List.mem_append.mp member with new | old
    · exact Nat.le_trans first.marks (fresh' c new)
    · exact fresh c old
  · rw [undo_append, undone']
    by_cases kept : s''.resets = s'.resets
    · rw [if_pos kept, undone, kept]
    · rw [if_neg kept, undo_empty, if_neg (by omega)]

theorem Grows.trans {s s' s'' : State} (first : Grows s s') (second : Grows s' s'') :
    Grows s s'' := by
  have mid := first.resets
  have last := second.resets
  refine ⟨first.toStacks.trans second.toStacks,
    fun acyclic => second.acyclic (first.acyclic acyclic), ?_⟩
  intro acyclic same v value found
  have early := first.keeps acyclic (by omega) v value found
  exact second.keeps (first.acyclic acyclic) (by omega) v value early

/-- Assigning leaves records that undo exactly the new bindings. -/
theorem grows_of_assigns (s : State) {b : Bindings} (assigns : Assigns s.bindings b) :
    Grows s (s.withBindings b) := by
  obtain ⟨added, rfl, fresh⟩ := assigns.extends
  refine ⟨⟨Nat.le_refl _, Nat.le_refl _, added.map (.binding ·.1), rfl, by simp, ?_⟩,
    fun acyclic => (fresh acyclic).1, fun acyclic _ v value found => assigns.get? acyclic found⟩
  exact (undo_added added _).trans (by simp [withBindings, resets, scope, State.bindings])

theorem unify_grows (s : State) (left right : Term) : Grows s (s.unify left right).2 :=
  grows_of_assigns s (unify_assigns left right s.bindings)

theorem grows_of_unify {s s' : State} {left right : Term} {ok : Bool}
    (unified : s.unify left right = (ok, s')) : Grows s s' := by
  have grows := unify_grows s left right
  rwa [unified] at grows

theorem unifyEach_grows (s : State) (pairs : List (Term × Term)) :
    Grows s (s.unifyEach pairs).2 :=
  grows_of_assigns s (unifyEach_assigns pairs s.bindings)

@[simp] theorem unifyEach_pair (s : State) (left right : Term) :
    s.unifyEach [(left, right)] = s.unify left right := by
  simp only [unifyEach, unify, Bindings.unifyEach]
  rcases s.bindings.unify left right with ⟨_ | _, b⟩ <;> rfl

theorem mark_grows (s : State) : Grows s s.mark.2 := by
  refine ⟨⟨Nat.le_succ _, Nat.le_refl _, [.mark s.mark.1], rfl, ?_, ?_⟩, id, fun _ _ _ _ => id⟩
  · intro c member
    obtain rfl : c = s.mark.1 := by simpa using member
    exact Nat.le_refl _
  · exact (if_pos rfl).symm

theorem forget_returns (s : State) : Returns s s.forget := by
  refine ⟨Nat.le_refl _, Nat.le_succ _, rfl, ?_⟩
  rw [if_neg (by simp [forget, resets])]
  rfl

theorem withSupply_returns (s : State) {supply : Supply}
    (marks : supply.nextChoicepoint = s.nextMark) : Returns s (s.withSupply supply) :=
  .of_unchanged rfl rfl (Nat.le_of_eq marks.symm)

theorem print_returns (s : State) (mind : Mind) (parts : List Term) :
    Returns s (s.print mind parts) :=
  .of_unchanged rfl rfl (Nat.le_of_eq (Scope.freezeAll_nextChoicepoint ..).symm)

theorem requestStop_supply (p : Platform) : p.requestStop.supply = p.supply := by
  unfold Platform.requestStop
  split <;> rfl

/-- Whether a delay is possible does not depend on what the clock shows. -/
theorem perform_delay (mind : Mind) (s : State) (duration : Time) (millis : Number) :
    (Deed.delay duration millis).perform mind s =
      if duration < Clock.reach then (.ok true, s.readClock.2.wait (s.readClock.1 + duration))
      else (.error (.raised (.unreachable millis)), s.readClock.2) := by
  by_cases near : duration < Clock.reach <;> simp [Deed.perform, Clock.ahead?, near]

theorem perform_grows (mind : Mind) (s : State) (deed : Deed) :
    Grows s (deed.perform mind s).2 := by
  cases deed with
  | answer holds => exact .refl s
  | unify pairs => exact unifyEach_grows s pairs
  | print parts => exact (print_returns s mind parts).grows
  | stop =>
    refine Returns.grows (.of_unchanged rfl rfl ?_)
    rw [nextMark, ← requestStop_supply]
    exact Nat.le_refl _
  | dump => exact Returns.grows (.of_unchanged rfl rfl (Nat.le_refl _))
  | forget => exact (forget_returns s).grows
  | delay duration millis =>
    rw [perform_delay]
    split <;> exact Returns.grows (.of_unchanged rfl rfl (Nat.le_refl _))

theorem run_grows {α : Type} (script : Script α) (s : State) : Grows s (script.run s).2 := by
  induction script generalizing s with
  | done result => exact .refl s
  | unify left right next ih => exact (unify_grows s left right).trans (ih _ _ _)
  | fresh next ih =>
    have drawn : Returns s (s.withSupply s.platform.supply.freshVar.2) := withSupply_returns s rfl
    exact drawn.grows.trans (ih _ _)

theorem look_returns (ctx : Context) (s : State) : Returns s (Search.look ctx s).2 :=
  .of_unchanged rfl rfl (Nat.le_refl _)

theorem reroll_of_absent {s : State} {c : Choicepoint} (absent : .mark c ∉ s.trail) :
    s.reroll c = .error (.raised (.choicepointNotFound c.id)) := by
  rw [reroll, reroll?_of_absent (b := s.bindings) absent]

/-- Rerolling goes to the newest occurrence of its choicepoint and undoes the records above it. -/
theorem reroll_eq_ok_iff {s s' : State} {c : Choicepoint} :
    s.reroll c = .ok s' ↔ ∃ above below, s.trail = above ++ .mark c :: below ∧
      .mark c ∉ above ∧ s' = s.withBindings ⟨undo s.scope above, below⟩ := by
  constructor
  · intro rerolled
    by_cases present : .mark c ∈ s.trail
    · obtain ⟨above, below, split, absent⟩ := List.eq_append_cons_of_mem present
      rw [reroll, reroll?_of_split (b := s.bindings) split absent] at rerolled
      exact ⟨above, below, split, absent, (Except.ok.inj rerolled).symm⟩
    · rw [reroll_of_absent present] at rerolled
      simp at rerolled
  · rintro ⟨above, below, split, absent, rfl⟩
    rw [reroll, reroll?_of_split (b := s.bindings) split absent]
    rfl

/-- Whatever has been stacked on a choicepoint, rerolling it returns to where it was laid. -/
theorem Stacks.reroll {s s' : State} (stacked : Stacks s.mark.2 s') :
    ∃ s'', s'.reroll s.mark.1 = .ok s'' ∧ s'' = s'.withBindings s''.bindings ∧ Returns s s'' := by
  obtain ⟨above, trail, fresh, undone⟩ := stacked.records
  have absent : .mark s.mark.1 ∉ above := by
    intro member
    exact absurd (fresh _ member) (Nat.not_succ_le_self _)
  refine ⟨_, reroll_eq_ok_iff.mpr ⟨above, s.trail, trail, absent, rfl⟩, rfl, ?_⟩
  exact ⟨Nat.le_trans (Nat.le_succ _) stacked.marks, stacked.resets, rfl, undone⟩

/-- Undoing what is stacked on a choicepoint, with no drop of all bindings in between. -/
theorem Stacks.reroll_kept {s s' : State} (stacked : Stacks s.mark.2 s') (kept : s'.resets = s.resets) :
    ∃ back, s'.reroll s.mark.1 = .ok back ∧ back.bindings = s.bindings ∧
      back.platform = s'.platform := by
  obtain ⟨back, undone, same, returns⟩ := stacked.reroll
  have resets : back.resets = s.resets := by
    rw [same]
    exact kept
  have scope : back.scope = s.scope := by rw [returns.scope, if_pos resets]
  refine ⟨back, undone, ?_, ?_⟩
  · calc
      back.bindings = ⟨back.scope, back.trail⟩ := rfl
      _ = s.bindings := by rw [scope, returns.trail]; rfl
  · rw [same]
    rfl

/-- An attempt to unify under a fresh choicepoint leaves no trace in the bindings once it is
undone. -/
theorem reroll_of_unify {s s' : State} {left right : Term} {ok : Bool}
    (unified : s.mark.2.unify left right = (ok, s')) :
    ∃ back, s'.reroll s.mark.1 = .ok back ∧ back.bindings = s.bindings ∧
      back.platform = s.mark.2.platform := by
  obtain rfl : (s.mark.2.unify left right).2 = s' := congrArg Prod.snd unified
  exact (unify_grows s.mark.2 left right).toStacks.reroll_kept rfl

theorem Stacks.reroll_laid {laid s : State} (stacked : Stacks laid.mark.2 s) :
    ∃ after, s.reroll laid.mark.1 = .ok after ∧ after.trail = laid.trail ∧
      after.scope = if s.resets = laid.resets then laid.scope else .empty := by
  obtain ⟨after, rerolled, same, returns⟩ := stacked.reroll
  have kept : after.resets = s.resets := by
    rw [same]
    rfl
  refine ⟨after, rerolled, returns.trail, ?_⟩
  rw [returns.scope, kept]

/-- A choicepoint from before is still there, and rerolling it gives what it gave before. -/
theorem Stacks.reroll_earlier {s s' before : State} {c : Choicepoint} (stacked : Stacks s s')
    (issued : c.id < s.nextMark) (rerolled : s.reroll c = .ok before) :
    ∃ after, s'.reroll c = .ok after ∧ after.trail = before.trail ∧
      after.scope = if s'.resets = s.resets then before.scope else .empty := by
  obtain ⟨records, below, split, absent, rfl⟩ := reroll_eq_ok_iff.mp rerolled
  obtain ⟨above, trail, fresh, undone⟩ := stacked.records
  have outside : .mark c ∉ above ++ records := by
    intro member
    rcases List.mem_append.mp member with new | old
    · exact absurd (fresh c new) (by omega)
    · exact absent old
  refine ⟨_, reroll_eq_ok_iff.mpr ⟨above ++ records, below, ?_, outside, rfl⟩, rfl, ?_⟩
  · rw [trail, split, List.append_assoc]
  · change undo s'.scope (above ++ records) = _
    rw [undo_append, undone]
    by_cases kept : s'.resets = s.resets
    · rw [if_pos kept, if_pos kept]
      rfl
    · rw [if_neg kept, if_neg kept, undo_empty]

end State

end Deliberation
