import Deliberation.Double

/-!
Time, date and chance as seen by running goals. What comes from outside is the sequence of what
successive readings show, so a statement about every clock is one about every such sequence. Nothing
here assumes that readings increase.
-/
namespace Deliberation

/-- Nanoseconds since the start. -/
abbrev Time := Nat

structure Clock where
  reading : Nat → Time
  taken : Nat := 0
  /-- Readings before this time show this time: the clock after a sleep. -/
  floor : Time := 0

namespace Clock

def stopped (time : Time) : Clock := { reading := fun _ => time }

def read (c : Clock) : Time × Clock :=
  (max c.floor (c.reading c.taken), { c with taken := c.taken + 1 })

/-- How far ahead of a reading a time can lie: less than the seconds of a signed word. Readings count
from the start of the system; they add nothing to speak of and are left out of the sum. -/
def reach : Time := Double.signUnit * 1000000000

/-- The time that lies a duration ahead of a reading, if the clock reaches it. -/
def ahead? (now duration : Time) : Option Time :=
  if duration < reach then some (now + duration) else none

def sleepUntil (c : Clock) (time : Time) : Clock := { c with floor := max c.floor time }

end Clock

/-- What successive looks at something outside show. -/
structure Readings (α : Type) where
  reading : Nat → α
  taken : Nat := 0

namespace Readings

variable {α : Type}

/-- Every reading shows the same. -/
def constant (a : α) : Readings α := { reading := fun _ => a }

def next (r : Readings α) : α × Readings α := (r.reading r.taken, { r with taken := r.taken + 1 })

end Readings

/-- A date and a time of day. -/
structure Calendar where
  year : Int64 := 1970
  month : Int64 := 1
  day : Int64 := 1
  hour : Int64 := 0
  minute : Int64 := 0
  second : Int64 := 0

end Deliberation
