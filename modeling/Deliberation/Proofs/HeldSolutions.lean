import Deliberation.Proofs.Growth
import Deliberation.Proofs.Likeness
import Deliberation.Proofs.ResumptionRules

/-! Calls with one solution at most. An action that comes to unifying two terms holds its only
solution under a choicepoint: the scope is that of unifying the terms where the call began, and the
next resumption, or the attempt itself if it fails, brings the bindings of the beginning back. A
function is such an action: it unifies its output with the value that it computes of its input. -/
namespace Deliberation

/-- What has been assigned is undone before anything else. -/
theorem Bindings.Assigns.reroll? {b b' : Bindings} (assigns : Assigns b b') (c : Choicepoint) :
    b'.reroll? c = b.reroll? c := by
  induction assigns with
  | refl => rfl
  | tail _ assigned ih =>
    obtain ⟨t, v, value, -, -, rfl⟩ := assigned
    rw [reroll?_assign, ih]

namespace State

theorem unify_reroll (s : State) (left right : Term) (c : Choicepoint) :
    (s.unify left right).2.reroll c = s.reroll c := by
  have same := (Bindings.unify_assigns left right s.bindings).reroll? c
  simp only [bindings] at same
  simp only [unify, reroll, withBindings, bindings, same]

end State

namespace Query

variable {ctx : Context} {g left right : Term} {s s' : State}

/-- The answer to a call that comes down to unifying two terms in the state in which it began. -/
structure UnifiesOnce (ctx : Context) (s : State) (left right : Term) (first : Reply Query) :
    Prop where
  held : (s.bindings.unify left right).1 = true →
    first.result = .ok .solution ∧ first.state.scope = (s.bindings.unify left right).2.scope ∧
      ∃ second, first.next.Resumes ctx first.state second ∧ second.result = .ok .exhausted ∧
        second.state.bindings = s.bindings
  missed : (s.bindings.unify left right).1 = false →
    first.result = .ok .exhausted ∧ first.state.bindings = s.bindings
  /-- Whatever else is undone then is undone from the scope of the beginning. -/
  undone : ∀ c back, first.state.reroll c = .ok back →
    ∃ records, back.scope = Bindings.undo s.scope records

theorem holdOrUndo_unifiesOnce (returned : State.Returns s.mark.2 s')
    (kept : s'.resets = s.resets) :
    UnifiesOnce ctx s left right (ofSearch g (Search.holdOrUndo s.mark.1 (s'.unify left right))) := by
  have scope : s'.scope = s.scope := by
    rw [returned.scope, if_pos (show s'.resets = s.mark.2.resets from kept)]
    rfl
  have seen : Bindings.seen (s'.bindings.unify left right) =
      Bindings.seen (s.bindings.unify left right) := Bindings.unify_seen left right scope
  have answer : (s'.unify left right).1 = (s.bindings.unify left right).1 := congrArg Prod.fst seen
  have bound : (s'.unify left right).2.scope = (s.bindings.unify left right).2.scope :=
    congrArg Prod.snd seen
  have stacked : State.Stacks s.mark.2 (s'.unify left right).2 :=
    (returned.grows.trans (State.unify_grows s' left right)).toStacks
  obtain ⟨back, undone, restored, -⟩ := stacked.reroll_kept kept
  have earlier (c : Choicepoint) : (s'.unify left right).2.reroll c = s'.reroll c :=
    s'.unify_reroll left right c
  generalize s'.unify left right = tried at *
  obtain ⟨ok, t⟩ := tried
  have held (found : ok = true) : ofSearch g (Search.holdOrUndo s.mark.1 (ok, t)) =
      ⟨.ok .solution, running g (.held s.mark.1), t⟩ := by
    subst ok
    rfl
  have missed (failed : ok = false) : ofSearch g (Search.holdOrUndo s.mark.1 (ok, t)) =
      ⟨.ok .exhausted, .done g, back⟩ := by
    subst ok
    simp only [Search.holdOrUndo, Search.afterReroll, undone]
    rfl
  refine ⟨fun unified => ?_, fun failed => ?_, fun c before rerolled => ?_⟩
  · rw [held (answer.trans unified)]
    exact ⟨rfl, bound, _, held_ends undone, rfl, restored⟩
  · rw [missed (answer.trans failed)]
    exact ⟨rfl, restored⟩
  · cases found : ok with
    | true =>
      rw [held found, earlier] at rerolled
      obtain ⟨records, rest, -, -, rfl⟩ := State.reroll_eq_ok_iff.mp rerolled
      exact ⟨records, congrArg (Bindings.undo · records) scope⟩
    | false =>
      rw [missed found] at rerolled
      obtain ⟨records, rest, -, -, rfl⟩ := State.reroll_eq_ok_iff.mp rerolled
      exact ⟨records, congrArg (Bindings.undo · records) (congrArg Bindings.scope restored)⟩

/-- A call whose action decides at once to unify two terms. -/
theorem once_unifiesOnce {decide : View → Except Halt Deed}
    (decided : decide (Search.look ctx s.mark.2).1 = .ok (.unify [(left, right)])) :
    ∃ first, (running g (.planned (.once decide))).Resumes ctx s first ∧
      UnifiesOnce ctx s left right first := by
  have ran : Search.runAct ctx (fun view => .done (decide view)) s =
      Search.holdOrUndo s.mark.1 ((Search.look ctx s.mark.2).2.unify left right) := by
    rw [← State.unifyEach_pair]
    simp only [Search.runAct, Script.run, decided]
    rfl
  refine ⟨_, act_runs _, ?_⟩
  rw [ran]
  exact holdOrUndo_unifiesOnce (State.look_returns ctx s.mark.2) rfl

/-- A call of an action is searched for as the action plans it. -/
theorem mimics_call {call : Term} {name : String} {args annots : List Term} {action : Action}
    (walked : s.scope.walk call = .lit name args annots) (named : isActionName name = true)
    (found : ctx.actions.lookup name args.length = some action) :
    Mimics ctx (.new call) s (running call (.planned (action.plan name args))) s := by
  refine mimics_new ?_
  have other (connective : String) (plain : isActionName connective = false) :
      name ≠ connective := by
    rintro rfl
    simp [named] at plain
  rw [Search.ofGoal, walked]
  -- No connective has the name of an action.
  split
  case h_1 same => cases same
  case h_2 same => exact absurd (Term.lit.inj same).1 (other "true" (by decide))
  case h_3 same => exact absurd (Term.lit.inj same).1 (other "false" (by decide))
  case h_4 same => exact absurd (Term.lit.inj same).1 (other "&" (by decide))
  case h_5 same => exact absurd (Term.lit.inj same).1 (other "|" (by decide))
  case h_6 same => exact absurd (Term.lit.inj same).1 (other "not" (by decide))
  case h_7 same => exact absurd (Term.lit.inj same).1 (other "=" (by decide))
  case h_8 same =>
    obtain ⟨rfl, rfl, rfl⟩ := Term.lit.inj same
    rw [if_pos named, Search.call, found]
  case h_9 literal => exact absurd rfl (literal name args annots)

/-- A call answers as the search does that it sets up. -/
theorem UnifiesOnce.of_mimics {q other : Query} (mimics : Mimics ctx q s other s)
    (answered : ∃ first, other.Resumes ctx s first ∧ UnifiesOnce ctx s left right first) :
    ∃ first, q.Resumes ctx s first ∧ UnifiesOnce ctx s left right first := by
  obtain ⟨first, resumes, once⟩ := answered
  obtain ⟨next, resumes', same⟩ := mimics first resumes
  refine ⟨_, resumes', fun unified => ?_, once.missed, once.undone⟩
  obtain ⟨result, rest⟩ := once.held unified
  obtain rfl := same _ result
  exact ⟨result, rest⟩

variable {name : String} {value : Term}

/-- What each call of a function comes to whose only input stands for a value: one attempt to unify
the output with the result, or an error. -/
def Computes (ctx : Context) (name : String) (value : Term) (outcome : Except Halt Term) :
    Prop :=
  ∀ (s : State) (call input output : Term) (annots : List Term),
    s.scope.walk call = .lit name [input, output] annots → s.scope.grounded input = .ok value →
    ∃ first, (Query.new call).Resumes ctx s first ∧
      match outcome with
      | .ok result => UnifiesOnce ctx s output result first
      | .error e => first.result = .error e ∧ first.state.scope = s.scope

/-- A function of one value decides to unify its result with the output, in any view where the input
stands for the value. -/
theorem function_decides {param : Param} (compute : View → List Term → Except Halt Term)
    (accepted : param.accepts value = true) (input output : Term) :
    ∃ decide, Action.plan name [input, output] (.function [param] compute) = .once decide ∧
      ∀ view, view.scope.grounded input = .ok value →
        decide view = (compute view [value]).map fun result => .unify [(output, result)] := by
  refine ⟨_, rfl, fun view ground => ?_⟩
  have values : Action.groundArgs name view.scope [param] [input] = .ok [value] := by
    simp only [Action.groundArgs, ground]
    exact if_pos accepted
  simp only [List.getLast?_cons_cons, List.getLast?_singleton, List.dropLast_cons_cons,
    List.dropLast_singleton, values]
  change (compute view [value] >>= fun result => .ok (Deed.unify [(output, result)])) = _
  cases compute view [value] <;> rfl

theorem once_fails {decide : View → Except Halt Deed} {e : Halt}
    (decided : decide (Search.look ctx s.mark.2).1 = .error e) :
    ∃ first, (running g (.planned (.once decide))).Resumes ctx s first ∧
      first.result = .error e ∧ first.state.scope = s.scope := by
  have ran : Search.runAct ctx (fun view => .done (decide view)) s =
      ⟨.error e, .spent, (Search.look ctx s.mark.2).2⟩ := by
    simp only [Search.runAct, Script.run, decided]
  have kept : (Search.look ctx s.mark.2).2.resets = s.resets := rfl
  have scope : (Search.look ctx s.mark.2).2.scope = s.scope :=
    (State.look_returns ctx s.mark.2).scope.trans (if_pos kept)
  refine ⟨_, act_runs _, ?_⟩
  rw [ran]
  exact ⟨rfl, scope⟩

theorem function_computes {param : Param} {compute : View → List Term → Except Halt Term}
    {outcome : Except Halt Term} (named : isActionName name = true)
    (found : ctx.actions.lookup name 2 = some (.function [param] compute))
    (accepted : param.accepts value = true) (computed : ∀ view, compute view [value] = outcome) :
    Computes ctx name value outcome := by
  intro s call input output annots walked ground
  have mimics := mimics_call walked named found
  obtain ⟨decide, planned, decides⟩ := @function_decides name value param compute accepted input output
  have decided := decides (Search.look ctx s.mark.2).1 ground
  rw [planned] at mimics
  rw [computed] at decided
  cases outcome with
  | ok result => exact UnifiesOnce.of_mimics mimics (once_unifiesOnce decided)
  | error e =>
    obtain ⟨first, resumes, failed, kept⟩ := @once_fails ctx call s decide e decided
    obtain ⟨next, resumes', -⟩ := mimics first resumes
    exact ⟨_, resumes', failed, kept⟩

end Query

end Deliberation
