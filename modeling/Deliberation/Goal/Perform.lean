import Deliberation.Action.Plan
import Deliberation.Freeze

/-! Carrying out the steps and the deed of an action: the only effects that it can have. -/
namespace Deliberation

namespace State

/-- Replaces the parts by snapshots that share their fresh variables. -/
def freezeAll (s : State) (parts : List Term) : List Term × State :=
  let (values, _, supply) := s.scope.freezeAll parts [] s.platform.supply
  (values, s.withSupply supply)

def print (s : State) (mind : Mind) (parts : List Term) : State :=
  let (values, s) := s.freezeAll parts
  let text := String.intercalate " " (values.map Term.plainText)
  { s with platform := { s.platform with
      printer := s.platform.printer.print mind.id mind.name text } }

def wait (s : State) (deadline : Time) : State :=
  { s with intention := { s.intention with deadline := some deadline } }

end State

/-- Takes the steps of a script. What it has unified stays also when it ends in an error. -/
def Script.run {α : Type} : Script α → State → Except Halt α × State
  | done result, s => (result, s)
  | unify left right next, s =>
    let (ok, s) := s.unify left right
    (next ok s.scope).run s
  | fresh next, s =>
    let (v, supply) := s.platform.supply.freshVar
    (next v).run (s.withSupply supply)

/-- Does a deed, which holds or not. What it has done stays also when it ends in an error. -/
def Deed.perform (mind : Mind) (s : State) : Deed → Except Halt Bool × State
  | answer holds => (.ok holds, s)
  | unify pairs =>
    let (ok, s) := s.unifyEach pairs
    (.ok ok, s)
  | print parts => (.ok true, s.print mind parts)
  | stop => (.ok true, { s with platform := s.platform.requestStop })
  | dump =>
    (.ok true, { s with platform := { s.platform with journal := mind.dump s.platform.journal } })
  | forget => (.ok true, s.forget)
  | delay duration millis =>
    let (now, s) := s.readClock
    match Clock.ahead? now duration with
    | some deadline => (.ok true, s.wait deadline)
    | none => (.error (.raised (.unreachable millis)), s)

end Deliberation
