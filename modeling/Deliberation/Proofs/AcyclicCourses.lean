import Deliberation.Proofs.Courses
import Deliberation.Proofs.ResumptionFrame
import Deliberation.Proofs.UndoRuns
import Deliberation.Proofs.UnificationSteps

/-! Scopes stay acyclic within a resumption, too. Whatever the evaluator does on the way binds
variables with an occurs check or takes bindings away, so from an acyclic scope on it meets acyclic
scopes only, in which every reader and every unification comes to its end. -/
namespace Deliberation

namespace State

open Bindings

/-- No chain of bindings leads back to where it began, and no variable is bound twice. -/
structure Straight (s : State) : Prop where
  acyclic : s.scope.Acyclic
  distinct : s.scope.keys.Nodup

/-- Whatever is read through the bindings or unified in them comes to its end. -/
structure Legible (s : State) : Prop where
  no_cycle : ∀ v, ¬Relation.TransGen s.scope.Points v v
  walks : WellFounded fun value t => s.scope.Hops t value
  readers : WellFounded fun part t => s.scope.Descends t part
  /-- The bound on the depth of unifications is not felt. -/
  unifications : ∀ left right, ∃ depth,
    unifyWithin depth left right s.bindings = some (s.bindings.unify left right)

variable {s s' : State}

theorem Straight.legible (straight : s.Straight) : s.Legible where
  no_cycle := straight.acyclic.no_cycle
  walks := Scope.hops_end straight.acyclic
  readers := Scope.descents_end straight.acyclic
  unifications := unify_within straight.acyclic

theorem Straight.of_scope (straight : s.Straight) (same : s'.scope = s.scope) : s'.Straight :=
  ⟨same ▸ straight.acyclic, same ▸ straight.distinct⟩

theorem Straight.assign (straight : s.Straight) {b : Bindings} (assigns : Assigns s.bindings b) :
    (s.withBindings b).Straight :=
  ⟨(grows_of_assigns s assigns).acyclic straight.acyclic,
    assigns_distinct assigns straight.acyclic straight.distinct⟩

theorem Straight.unify (straight : s.Straight) (left right : Term) :
    (s.unify left right).2.Straight :=
  straight.assign (unify_assigns left right s.bindings)

theorem Straight.of_unify (straight : s.Straight) {left right : Term} {ok : Bool}
    (unified : s.unify left right = (ok, s')) : s'.Straight := by
  have after := straight.unify left right
  rwa [unified] at after

theorem Straight.mark (straight : s.Straight) : s.mark.2.Straight := straight.of_scope rfl

theorem Straight.withSupply (straight : s.Straight) (supply : Supply) :
    (s.withSupply supply).Straight := straight.of_scope rfl

theorem Straight.reroll (straight : s.Straight) {c : Choicepoint} (undone : s.reroll c = .ok s') :
    s'.Straight := by
  obtain ⟨above, below, -, -, rfl⟩ := reroll_eq_ok_iff.mp undone
  obtain ⟨acyclic, distinct⟩ := undo_consistent above straight.acyclic straight.distinct
  exact ⟨acyclic, distinct⟩

theorem Straight.of_run {α : Type} (straight : s.Straight) {script : Script α}
    {result : Except Halt α} (ran : script.run s = (result, s')) : s'.Straight := by
  induction script generalizing s with
  | done outcome => exact (Prod.mk.inj ran).2 ▸ straight
  | unify left right next ih => exact ih _ _ (straight.unify left right) ran
  | fresh next ih => exact ih _ (straight.withSupply _) ran

theorem Straight.perform (straight : s.Straight) (mind : Mind) (deed : Deed) :
    (deed.perform mind s).2.Straight := by
  cases deed with
  | unify pairs => exact straight.assign (unifyEach_assigns pairs s.bindings)
  | forget => exact ⟨Scope.empty_acyclic, List.nodup_nil⟩
  | delay duration millis =>
    rw [perform_delay]
    split <;> exact straight.of_scope rfl
  | _ => exact straight.of_scope rfl

theorem Straight.look (straight : s.Straight) (ctx : Context) :
    (Search.look ctx s).2.Straight :=
  straight.of_scope rfl

theorem Straight.readClock (straight : s.Straight) : s.readClock.2.Straight := straight.of_scope rfl

theorem Straight.afterReroll (straight : s.Straight) (c : Choicepoint) (event : Event)
    (next : Search) : (Search.afterReroll s c event next).state.Straight := by
  unfold Search.afterReroll
  split
  · rename_i undone
    exact straight.reroll undone
  · exact straight

theorem Straight.holdOrUndo {done : Bool × State} (straight : done.2.Straight) (c : Choicepoint) :
    (Search.holdOrUndo c done).state.Straight := by
  obtain ⟨_ | _, t⟩ := done
  · exact straight.afterReroll c .exhausted .spent
  · exact straight

theorem Straight.conclude {done : Except Halt Bool × State} (straight : done.2.Straight)
    (c : Choicepoint) : (Search.conclude c done).state.Straight := by
  obtain ⟨_ | holds, t⟩ := done
  · exact straight
  · exact @Straight.holdOrUndo (holds, t) straight c

theorem Straight.factTry (straight : s.Straight) (fact : Term) :
    (Query.factTry s fact).2.Straight := straight.of_scope rfl

theorem Straight.ruleTry (straight : s.Straight) (rule : Rule) :
    (Query.ruleTry s rule).2.2.Straight := straight.of_scope rfl

end State

open State

/-- The scopes before and after are straight. -/
def Happening.Straight (h : Happening) : Prop := h.before.Straight ∧ h.after.Straight

variable {ctx : Context} {s s' : State} {trace : List Happening}

theorem State.Straight.ofFact (straight : s.Straight) (fact : Term) :
    (Happening.ofFact s fact).Straight := ⟨straight, straight.factTry fact⟩

theorem State.Straight.ofRule (straight : s.Straight) (rule : Rule) :
    (Happening.ofRule s rule).Straight := ⟨straight, straight.ruleTry rule⟩

/-- All that happens is straight, and so is the state at the end. -/
structure KeepsStraight (trace : List Happening) (s : State) : Prop where
  happenings : ∀ h ∈ trace, h.Straight
  state : s.Straight

namespace KeepsStraight

variable {later : List Happening}

theorem nil (straight : s.Straight) : KeepsStraight [] s := ⟨by simp, straight⟩

theorem cons {h : Happening} (first : h.Straight) (rest : KeepsStraight trace s) :
    KeepsStraight (h :: trace) s :=
  ⟨List.forall_mem_cons.mpr ⟨first, rest.happenings⟩, rest.state⟩

theorem append (first : KeepsStraight trace s) (rest : KeepsStraight later s') :
    KeepsStraight (trace ++ later) s' :=
  ⟨List.forall_mem_append.mpr ⟨first.happenings, rest.happenings⟩, rest.state⟩

/-- The evaluator comes to a state. -/
theorem visit (straight : s.Straight) (rest : KeepsStraight trace s') :
    KeepsStraight (.state s :: trace) s' := .cons ⟨straight, straight⟩ rest

/-- A fact or the head of a rule is tried. -/
theorem attempt (straight : s.Straight) {h : Happening} (used : h.Straight)
    (rest : KeepsStraight trace s') : KeepsStraight ([.state s, h] ++ trace) s' :=
  .visit straight (.cons used rest)

end KeepsStraight

namespace Search

theorem Ends.straight {search : Search} {found : Reply Search}
    (ended : search.Ends ctx s trace found) (straight : s.Straight) :
    KeepsStraight trace found.state := by
  cases ended with
  | actFails ran =>
    have after := (straight.mark.look ctx).of_run ran
    exact .visit straight (.visit after (.nil after))
  | act ran =>
    have after := (straight.mark.look ctx).of_run ran
    have performed := after.perform ctx.mind
    have held (deed : Deed) := (performed deed).conclude
    exact .visit straight (.visit after (.visit (performed _)
      (.visit (held _ _) (.nil (held _ _)))))
  | offerFails ran =>
    have after := (straight.look ctx).of_run ran
    exact .visit straight (.visit after (.nil after))
  | choosingFound offered unified =>
    have after := straight.mark.of_unify unified
    exact .visit straight (.visit after (.nil after))
  | held =>
    have after (c : Choicepoint) := straight.afterReroll c .exhausted .spent
    exact .visit straight (.visit (after _) (.nil (after _)))
  | factFound dropped unified =>
    have after := (straight.factTry _).mark.of_unify unified
    exact .attempt straight (straight.ofFact _) (.visit after (.nil after))
  | _ => exact .visit straight (.nil straight)

theorem Turns.straight {search next : Search} (turned : search.Turns ctx s trace next s')
    (straight : s.Straight) : KeepsStraight trace s' := by
  cases turned with
  | offer ran =>
    have after := (straight.look ctx).of_run ran
    exact .visit straight (.visit after (.nil (after.withSupply _)))
  | choosingUndoes undone => exact .visit straight (.nil (straight.reroll undone))
  | choosingMissed offered unified undone =>
    have after := straight.mark.of_unify unified
    exact .visit straight (.visit after (.nil (after.reroll undone)))
  | recallingUndoes undone => exact .visit straight (.nil (straight.reroll undone))
  | factMissed dropped unified undone =>
    have after := (straight.factTry _).mark.of_unify unified
    exact .attempt straight (straight.ofFact _) (.visit after (.nil (after.reroll undone)))
  | ruleMissed dropped unified undone =>
    have after := (straight.ruleTry _).mark.of_unify unified
    exact .attempt straight (straight.ofRule _) (.visit after (.nil (after.reroll undone)))
  | negationEnters => exact .visit straight (.nil straight.mark)
  | _ => exact .visit straight (.nil straight)

end Search

namespace Task

variable {task next : Task} {reply : Reply Query} {last : List Happening} {answer : Answer}
  {t : State}

theorem Passes.straight (passed : task.Passes reply last answer) (straight : reply.state.Straight) :
    KeepsStraight last answer.state := by
  cases passed with
  | conj | disjRight =>
    rw [Answer.state, Query.ofSearch_state]
    exact .nil straight
  | conjWaits waiting =>
    have read := straight.readClock
    exact .cons ⟨read, read⟩ (.nil read)
  | negationRefuted =>
    have undone (c : Choicepoint) := straight.afterReroll c .exhausted .spent
    rw [Answer.state, Query.ofSearch_state]
    exact .visit (undone _) (.nil (undone _))
  | negationHolds =>
    have undone (c : Choicepoint) := straight.afterReroll c .solution .spent
    rw [Answer.state, Query.ofSearch_state]
    exact .visit (undone _) (.nil (undone _))
  | _ => exact .nil straight

theorem GoesOn.straight (goes : task.GoesOn reply last next t) (straight : reply.state.Straight) :
    KeepsStraight last t := by
  cases goes with
  | conj awake =>
    have read := straight.readClock
    exact .cons ⟨read, read⟩ (.nil read)
  | gatherFinds frozen => exact .nil (straight.withSupply _)
  | _ => exact .nil straight

end Task

/-- From a straight state on, a resumption comes to straight states only. -/
theorem Course.straight {task : Task} {answer : Answer} (course : Course ctx task s trace answer)
    (straight : s.Straight) : KeepsStraight trace answer.state := by
  induction course with
  | done => exact .visit straight (.nil straight)
  | stuck failed => exact .visit straight (.nil straight)
  | begins begun rest ih => exact ih straight
  | ends ended =>
    rw [Answer.state, Query.ofSearch_state]
    exact ended.straight straight
  | turns turned rest ih =>
    have first := turned.straight straight
    exact first.append (ih first.state)
  | passes inside inner passed ih =>
    have first := ih straight
    exact first.append (passed.straight first.state)
  | goesOn inside inner goes rest ihInner ihRest =>
    have first := ihInner straight
    have onward := first.append (goes.straight first.state)
    exact onward.append (ihRest onward.state)
  | ruleFails dropped unified inner ih =>
    exact .attempt straight (straight.ofRule _) (ih ((straight.ruleTry _).mark.of_unify unified))
  | rulePasses dropped unified inner unfinished ih =>
    exact .attempt straight (straight.ofRule _) (ih ((straight.ruleTry _).mark.of_unify unified))
  | ruleReturns dropped unified inner rest ihInner ihRest =>
    have body := ihInner ((straight.ruleTry _).mark.of_unify unified)
    exact (KeepsStraight.attempt straight (straight.ofRule _) body).append (ihRest body.state)
  | collectFails inner ih => exact .visit straight (ih straight.mark)
  | collects inner ih =>
    have gathered := ih straight.mark
    have unified (left right : Term) := gathered.state.unify left right
    have held (left right : Term) := (unified left right).holdOrUndo
    rw [Answer.state, Query.ofSearch_state]
    exact (KeepsStraight.visit straight gathered).append
      (.visit (unified _ _) (.visit (held _ _ _) (.nil (held _ _ _))))

end Deliberation
