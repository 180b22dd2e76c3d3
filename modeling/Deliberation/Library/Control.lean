import Deliberation.Action.Registry

/-!
Standard actions on the intention and the system: failing, waiting, dropping all bindings, printing
and stopping.
-/
namespace Deliberation.Library

/--
A number of milliseconds as a duration. The seconds are rounded to a double and then to whole
nanoseconds, a half to even. Negative numbers, NaN, infinities and more seconds than a word holds
are no durations.
-/
def duration? (millis : Number) : Option Time :=
  let seconds := millis.toDouble.div (Double.ofInt 1000)
  if !seconds.isFinite then none
  else if seconds.isNegative && seconds.magnitude != 0 then none
  else if UInt64.size ≤ seconds.magnitude / Double.unitsPerOne then none
  else some (Double.roundDiv (seconds.magnitude * 1000000000) Double.unitsPerOne)

def wait : List Term → Plan
  | [millis] => .once fun view => do
    match ← view.scope.grounded millis with
    | .num n =>
      match duration? n with
      | some duration => return .delay duration n
      | none => throw (.raised (.unreachable n))
    | other => throw (.raised (.typeMismatch ".wait" "number" other.kind))
  | _ => .once fun _ => .ok (.answer false)

def addControl (r : Registry) : Registry :=
  r.addGenerator ".fail" (some 0) (fun _ => .once fun _ => .ok (.answer false))
    |>.addGenerator ".wait" (some 1) wait
    |>.addGenerator ".unbind_all" (some 0) (fun _ => .once fun _ => .ok .forget)
    |>.addGenerator ".print" none (fun args => .once fun _ => .ok (.print args))
    |>.addGenerator ".stopMAS" (some 0) (fun _ => .once fun _ => .ok .stop)

end Deliberation.Library
