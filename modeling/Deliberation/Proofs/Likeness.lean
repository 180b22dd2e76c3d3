import Deliberation.Proofs.Growth

/-! What goals can see of a state. Neither the trail, nor the numbers of choicepoints, nor the clock
and the deadline change what a goal finds: the operations of the evaluator give the same answers in
states that are alike in everything else, and leave states that are alike again. -/
namespace Deliberation

namespace Bindings

/-- What a unification answers and leaves in the scope. -/
def seen (result : Bool × Bindings) : Bool × Scope := (result.1, result.2.scope)

variable {b b' : Bindings}

theorem bindChecked_seen (same : b.scope = b'.scope) (v : Var) (value : Term) :
    seen (b.bindChecked v value) = seen (b'.bindChecked v value) := by
  simp only [bindChecked, same]
  split <;> simp [seen, assign, same]

theorem unifyPairs_seen {unify : Term → Term → Bindings → Option (Bool × Bindings)}
    (each : ∀ x y {b b' : Bindings}, b.scope = b'.scope →
      (unify x y b).map seen = (unify x y b').map seen)
    (xs ys : List Term) (same : b.scope = b'.scope) :
    (unifyPairs unify xs ys b).map seen = (unifyPairs unify xs ys b').map seen := by
  induction xs generalizing ys b b' with
  | nil => cases ys <;> simp [unifyPairs, seen, same]
  | cons x xs ih =>
    cases ys with
    | nil => simp [unifyPairs, seen, same]
    | cons y ys =>
      have first := each x y same
      simp only [unifyPairs]
      rcases one : unify x y b with _ | ⟨_ | _, next⟩ <;>
        rcases other : unify x y b' with _ | ⟨_ | _, next'⟩ <;>
        simp only [one, other, seen, Option.map_some, Option.map_none, Option.some.injEq,
          Prod.mk.injEq, reduceCtorEq, Bool.false_eq_true, Bool.true_eq_false, false_and,
          true_and] at first
      · rfl
      · simp [seen, first]
      · exact ih ys first

theorem unifyWithin_seen (depth : Nat) (left right : Term) {b b' : Bindings}
    (same : b.scope = b'.scope) :
    (unifyWithin depth left right b).map seen = (unifyWithin depth left right b').map seen := by
  induction depth generalizing left right b b' with
  | zero => rfl
  | succ depth ih =>
    have pairs := fun xs ys => unifyPairs_seen ih xs ys same
    simp only [unifyWithin, ← same]
    split
    · split
      · simp [seen, same]
      · simpa using bindChecked_seen same _ _
    · simpa using bindChecked_seen same _ _
    · simpa using bindChecked_seen same _ _
    · simp [seen, same]
    · simp [seen, same]
    · split
      · exact pairs _ _
      · simp [seen, same]
    · split
      · exact pairs _ _
      · simp [seen, same]
    · simp [seen, same]

theorem unify_seen (left right : Term) (same : b.scope = b'.scope) :
    seen (b.unify left right) = seen (b'.unify left right) := by
  have usual := unifyWithin_seen usualDepth left right same
  have sure := unifyWithin_seen (unifyDepth left right b) left right same
  have depth : unifyDepth left right b' = unifyDepth left right b := by
    simp only [unifyDepth, same]
  unfold unify
  rw [depth]
  cases one : unifyWithin usualDepth left right b <;>
    cases other : unifyWithin usualDepth left right b' <;>
    simp only [one, other, Option.map_some, Option.map_none, Option.some.injEq,
      reduceCtorEq] at usual
  · cases deep : unifyWithin (unifyDepth left right b) left right b <;>
      cases deep' : unifyWithin (unifyDepth left right b) left right b' <;>
      simp only [deep, deep', Option.map_some, Option.map_none, Option.some.injEq,
        reduceCtorEq] at sure
    · simp [seen, same]
    · exact sure
  · exact usual

theorem unifyEach_seen (pairs : List (Term × Term)) (same : b.scope = b'.scope) :
    seen (b.unifyEach pairs) = seen (b'.unifyEach pairs) := by
  induction pairs generalizing b b' with
  | nil => simp [unifyEach, seen, same]
  | cons pair rest ih =>
    obtain ⟨left, right⟩ := pair
    have first := unify_seen left right same
    simp only [unifyEach]
    rcases one : b.unify left right with ⟨_ | _, next⟩ <;>
      rcases other : b'.unify left right with ⟨_ | _, next'⟩ <;>
      simp only [one, other, seen, Prod.mk.injEq, Bool.false_eq_true, Bool.true_eq_false,
        false_and, true_and] at first
    · simp [seen, first]
    · exact ih first

end Bindings

/-- The supplies hand out the same numbers, but for choicepoints. -/
def Supply.Alike (s t : Supply) : Prop := s.withMarks 0 = t.withMarks 0

theorem Supply.Alike.freshVars {s t : Supply} (alike : s.Alike t) (count : Nat) :
    (s.freshVars count).1 = (t.freshVars count).1 ∧
      (s.freshVars count).2.Alike (t.freshVars count).2 := by
  have drawn := congrArg (fun supply => (supply.freshVars count).1) alike
  have rest := congrArg (fun supply => (supply.freshVars count).2) alike
  exact ⟨drawn, rest⟩

theorem Supply.Alike.freshVar {s t : Supply} (alike : s.Alike t) :
    s.freshVar.1 = t.freshVar.1 ∧ s.freshVar.2.Alike t.freshVar.2 := by
  have drawn := congrArg (fun supply => supply.freshVar.1) alike
  have rest := congrArg (fun supply => supply.freshVar.2) alike
  exact ⟨drawn, rest⟩

theorem Scope.freeze_alike (scope : Scope) (value : Term) (names : Renaming) {s t : Supply}
    (alike : s.Alike t) :
    (scope.freeze value names s).1 = (scope.freeze value names t).1 ∧
      (scope.freeze value names s).2.1 = (scope.freeze value names t).2.1 ∧
      (scope.freeze value names s).2.2.Alike (scope.freeze value names t).2.2 := by
  have one := scope.freeze_withMarks value names s 0
  have other := scope.freeze_withMarks value names t 0
  rw [alike, other] at one
  obtain ⟨value, names, supply⟩ := Prod.mk.inj one |>.imp id Prod.mk.inj
  exact ⟨value.symm, names.symm, supply.symm⟩

theorem Scope.freezeAll_alike (scope : Scope) (parts : List Term) (names : Renaming)
    {s t : Supply} (alike : s.Alike t) :
    (scope.freezeAll parts names s).1 = (scope.freezeAll parts names t).1 ∧
      (scope.freezeAll parts names s).2.2.Alike (scope.freezeAll parts names t).2.2 := by
  have one := scope.freezeAll_withMarks parts names s 0
  have other := scope.freezeAll_withMarks parts names t 0
  rw [alike, other] at one
  obtain ⟨values, -, supply⟩ := Prod.mk.inj one |>.imp id Prod.mk.inj
  exact ⟨values.symm, supply.symm⟩

namespace State

/-- The states are alike in what goals can see beyond the scope. -/
structure SameRest (s t : State) : Prop where
  id : s.intention.id = t.intention.id
  resets : s.resets = t.resets
  supply : s.platform.supply.Alike t.platform.supply
  printer : s.platform.printer = t.platform.printer
  journal : s.platform.journal = t.platform.journal
  calendar : s.platform.calendar = t.platform.calendar
  chance : s.platform.chance = t.platform.chance
  stopping : s.platform.stopping = t.platform.stopping

/-- The states are alike in all that goals can see. -/
structure Alike (s t : State) : Prop extends SameRest s t where
  scope : s.scope = t.scope

variable {s s' t t' : State}

theorem SameRest.trans (first : SameRest s t) (second : SameRest t t') : SameRest s t' :=
  ⟨first.id.trans second.id, first.resets.trans second.resets, first.supply.trans second.supply,
    first.printer.trans second.printer, first.journal.trans second.journal,
    first.calendar.trans second.calendar, first.chance.trans second.chance,
    first.stopping.trans second.stopping⟩

theorem Alike.refl (s : State) : Alike s s := ⟨⟨rfl, rfl, rfl, rfl, rfl, rfl, rfl, rfl⟩, rfl⟩

theorem Alike.trans (first : Alike s t) (second : Alike t t') : Alike s t' :=
  ⟨first.toSameRest.trans second.toSameRest, first.scope.trans second.scope⟩

theorem SameRest.withBindings (same : SameRest s t) (b b' : Bindings) :
    SameRest (s.withBindings b) (t.withBindings b') :=
  ⟨same.id, same.resets, same.supply, same.printer, same.journal, same.calendar, same.chance,
    same.stopping⟩

theorem Alike.withSupply (alike : Alike s t) {supply supply' : Supply}
    (same : supply.Alike supply') : Alike (s.withSupply supply) (t.withSupply supply') :=
  ⟨⟨alike.id, alike.resets, same, alike.printer, alike.journal, alike.calendar, alike.chance,
    alike.stopping⟩, alike.scope⟩

theorem mark_alike (s : State) : Alike s.mark.2 s :=
  ⟨⟨rfl, rfl, rfl, rfl, rfl, rfl, rfl, rfl⟩, rfl⟩

theorem readClock_alike (s : State) : Alike s.readClock.2 s :=
  ⟨⟨rfl, rfl, rfl, rfl, rfl, rfl, rfl, rfl⟩, rfl⟩

theorem Alike.unify (alike : Alike s t) (left right : Term) :
    (s.unify left right).1 = (t.unify left right).1 ∧
      Alike (s.unify left right).2 (t.unify left right).2 := by
  have same : s.bindings.scope = t.bindings.scope := alike.scope
  obtain ⟨answer, scope⟩ := Prod.mk.inj (Bindings.unify_seen left right same)
  exact ⟨answer, alike.withBindings _ _, scope⟩

theorem Alike.unifyEach (alike : Alike s t) (pairs : List (Term × Term)) :
    (s.unifyEach pairs).1 = (t.unifyEach pairs).1 ∧
      Alike (s.unifyEach pairs).2 (t.unifyEach pairs).2 := by
  have same : s.bindings.scope = t.bindings.scope := alike.scope
  obtain ⟨answer, scope⟩ := Prod.mk.inj (Bindings.unifyEach_seen pairs same)
  exact ⟨answer, alike.withBindings _ _, scope⟩

theorem Alike.print (alike : Alike s t) (mind : Mind) (parts : List Term) :
    Alike (s.print mind parts) (t.print mind parts) := by
  obtain ⟨values, supply⟩ := s.scope.freezeAll_alike parts [] alike.supply
  rw [alike.scope] at values supply
  refine ⟨⟨alike.id, alike.resets, ?_, ?_, alike.journal, alike.calendar, alike.chance,
    alike.stopping⟩, alike.scope⟩
  · simpa only [State.print, freezeAll, State.withSupply, alike.scope] using supply
  · simp only [State.print, freezeAll, State.withSupply, alike.scope, values, alike.printer]

theorem Alike.requestStop (alike : Alike s t) :
    Alike { s with platform := s.platform.requestStop }
      { t with platform := t.platform.requestStop } := by
  unfold Platform.requestStop
  rw [alike.stopping]
  split
  · exact alike
  · exact ⟨⟨alike.id, alike.resets, alike.supply, alike.printer,
      congrArg (Journal.info · "shutdown requested" []) alike.journal, alike.calendar,
      alike.chance, rfl⟩, alike.scope⟩

theorem Alike.perform (alike : Alike s t) (mind : Mind) (deed : Deed) :
    (deed.perform mind s).1 = (deed.perform mind t).1 ∧
      Alike (deed.perform mind s).2 (deed.perform mind t).2 := by
  cases deed with
  | answer holds => exact ⟨rfl, alike⟩
  | unify pairs =>
    obtain ⟨same, after⟩ := alike.unifyEach pairs
    exact ⟨congrArg Except.ok same, after⟩
  | print parts => exact ⟨rfl, alike.print mind parts⟩
  | stop => exact ⟨rfl, alike.requestStop⟩
  | dump =>
    exact ⟨rfl, ⟨alike.id, alike.resets, alike.supply, alike.printer,
      congrArg mind.dump alike.journal, alike.calendar, alike.chance, alike.stopping⟩, alike.scope⟩
  | forget =>
    exact ⟨rfl, ⟨alike.id, congrArg (· + 1) alike.resets, alike.supply, alike.printer,
      alike.journal, alike.calendar, alike.chance, alike.stopping⟩, rfl⟩
  | delay duration millis =>
    rw [perform_delay, perform_delay]
    split <;> exact ⟨rfl, ⟨alike.id, alike.resets, alike.supply, alike.printer, alike.journal,
      alike.calendar, alike.chance, alike.stopping⟩, alike.scope⟩

theorem Alike.run {α : Type} (alike : Alike s t) (script : Script α) :
    (script.run s).1 = (script.run t).1 ∧ Alike (script.run s).2 (script.run t).2 := by
  induction script generalizing s t with
  | done result => exact ⟨rfl, alike⟩
  | unify left right next ih =>
    obtain ⟨answer, after⟩ := alike.unify left right
    simp only [Script.run]
    rw [answer, after.scope]
    exact ih _ _ after
  | fresh next ih =>
    obtain ⟨drawn, supplies⟩ := alike.supply.freshVar
    simp only [Script.run]
    rw [drawn]
    exact ih _ (alike.withSupply supplies)

theorem Alike.look (alike : Alike s t) (ctx : Context) :
    (Search.look ctx s).1 = (Search.look ctx t).1 ∧
      Alike (Search.look ctx s).2 (Search.look ctx t).2 := by
  simp only [Search.look, Platform.readCalendar, Platform.draw, alike.scope, alike.calendar,
    alike.chance, true_and]
  exact ⟨⟨alike.id, alike.resets, alike.supply, alike.printer, alike.journal, rfl, rfl,
    alike.stopping⟩, alike.scope⟩

/-- The bindings of an earlier state in a later one, without any if all were dropped since. -/
def backtrack (start after : State) : State :=
  after.withBindings
    (if after.resets = start.resets then start.bindings else start.bindings.clear)

/-- A state that has returned is one that has backtracked. -/
theorem Returns.alike (returns : Returns s s') (alike : Alike s t) (rest : SameRest s' t') :
    Alike s' (t.backtrack t') := by
  refine ⟨rest.trans ⟨rfl, rfl, rfl, rfl, rfl, rfl, rfl, rfl⟩, ?_⟩
  rw [returns.scope, rest.resets, alike.resets, alike.scope]
  simp only [backtrack, withBindings, State.scope]
  split <;> rfl

end State

end Deliberation
