import Deliberation.Intention
import Deliberation.Mind
import Deliberation.Platform

/-! What a running goal may change: its own intention and the shared platform. -/
namespace Deliberation

structure State where
  intention : Intention
  platform : Platform

namespace State

def bindings (s : State) : Bindings := s.intention.bindings

def scope (s : State) : Scope := s.intention.bindings.scope

def trail (s : State) : Trail := s.intention.bindings.trail

def withBindings (s : State) (b : Bindings) : State :=
  { s with intention := { s.intention with bindings := b } }

def withSupply (s : State) (supply : Supply) : State :=
  { s with platform := { s.platform with supply } }

def resets (s : State) : Nat := s.intention.resets

def unify (s : State) (left right : Term) : Bool × State :=
  let (ok, b) := s.bindings.unify left right
  (ok, s.withBindings b)

def unifyEach (s : State) (pairs : List (Term × Term)) : Bool × State :=
  let (ok, b) := s.bindings.unifyEach pairs
  (ok, s.withBindings b)

def mark (s : State) : Choicepoint × State :=
  let (c, supply) := s.platform.supply.freshChoicepoint
  (c, (s.withSupply supply).withBindings (s.bindings.mark c))

/-- Undoes back to a choicepoint; one that is not on the trail is an error and changes nothing. -/
def reroll (s : State) (c : Choicepoint) : Except Halt State :=
  match s.bindings.reroll? c with
  | some b => .ok (s.withBindings b)
  | none => .error (.raised (.choicepointNotFound c.id))

def rerollIf (s : State) : Option Choicepoint → Except Halt State
  | none => .ok s
  | some c => s.reroll c

/-- Drops every binding at once. The records stay, and undoing them brings nothing back. -/
def forget (s : State) : State :=
  { s with intention :=
      { s.intention with bindings := s.bindings.clear, resets := s.intention.resets + 1 } }

def readClock (s : State) : Time × State :=
  let (now, platform) := s.platform.readClock
  (now, { s with platform })

end State

end Deliberation
