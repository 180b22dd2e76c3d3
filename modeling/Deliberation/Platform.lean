import Deliberation.Clock
import Deliberation.Journal
import Deliberation.Printer

/-!
What all agents of a system share and every step may change: the supply of identifiers, the printer,
the journal, the clock, the calendar, chance, and the request to stop.
-/
namespace Deliberation

structure Platform where
  supply : Supply := {}
  printer : Printer := {}
  journal : Journal := []
  clock : Clock := Clock.stopped 0
  calendar : Readings Calendar := .constant {}
  /-- Doubles in the half-open unit interval. -/
  chance : Readings Double := .constant (.zero false)
  stopping : Bool := false

namespace Platform

/-- Asks the system to stop; only the first request is noted. -/
def requestStop (p : Platform) : Platform :=
  if p.stopping then p
  else { p with stopping := true, journal := p.journal.info "shutdown requested" [] }

def readClock (p : Platform) : Time × Platform :=
  let (now, clock) := p.clock.read
  (now, { p with clock })

def readCalendar (p : Platform) : Calendar × Platform :=
  let (today, calendar) := p.calendar.next
  (today, { p with calendar })

def draw (p : Platform) : Double × Platform :=
  let (sample, chance) := p.chance.next
  (sample, { p with chance })

end Platform

end Deliberation
