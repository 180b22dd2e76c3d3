import Deliberation.Action.Registry

/-! Standard actions whose values come from outside: chance, date and time of day. -/
namespace Deliberation.Library

/-- Unifies the arguments with the parts of the calendar, from left to right. -/
def calendarParts (parts : Calendar → List Int64) (args : List Term) : Plan := .once fun view =>
  .ok (.unify (args.zip ((parts view.calendar).map Term.int)))

def addSurroundings (r : Registry) : Registry :=
  r.addFunction ".random" [] (fun view _ => .ok (.num (.float view.sample)))
    |>.addGenerator ".date" (some 3) (calendarParts fun c => [c.year, c.month, c.day])
    |>.addGenerator ".time" (some 3) (calendarParts fun c => [c.hour, c.minute, c.second])

end Deliberation.Library
