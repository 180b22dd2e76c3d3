import Deliberation.CommandLine
import Std.Time

/-! The program: reads files, the clock and the calendar, draws samples, prints, and leaves everything
else to the library. -/
namespace Deliberation.Main

/-- Bound on the work of one resumption. -/
def limit : Nat := 1000000000000

def readFile (file : String) : IO (Option ByteArray) := do
  try return some (← IO.FS.readBinFile file) catch _ => return none

def finish (outcome : CommandLine.Outcome) : IO UInt32 := do
  IO.print outcome.stdout
  IO.eprint outcome.stderr
  return outcome.exit.toUInt32

/-- The sample at a place in the sequence that begins with a seed: a double in the half-open unit
interval with fifty-three random bits. -/
def sample (seed : UInt64) (place : Nat) : Double :=
  let state := seed + 0x9E3779B97F4A7C15 * (place + 1).toUInt64
  let a := (state ^^^ (state >>> 30)) * 0xBF58476D1CE4E5B9
  let b := (a ^^^ (a >>> 27)) * 0x94D049BB133111EB
  Double.ofRatio false ((b ^^^ (b >>> 31)) >>> 11).toNat (2 * Double.exponentUnit)

def calendarNow : IO Calendar := do
  let now ← Std.Time.PlainDateTime.now
  return {
    year := Int64.ofInt now.year.toInt
    month := Int64.ofInt now.month.val
    day := Int64.ofInt now.day.val
    hour := Int64.ofInt now.hour.val
    minute := Int64.ofInt now.minute.val
    second := Int64.ofInt now.second.val }

/-- How long to sleep, in milliseconds: until the deadline, but not longer than the poll. -/
def pause (now : Time) (idlePoll : Nat) : Option Time → Nat
  | none => idlePoll
  | some deadline => min ((deadline - now) / 1000000 + 1) idlePoll

/-- Round after round, with the real clock, printing lines as they come. -/
partial def drive (start : Scheduler) (s : Scheduler) (summary : Summary) :
    IO Scheduler.Ending := do
  let now ← IO.monoNanosNow
  let calendar := Readings.constant (← calendarNow)
  let s := { s with platform := { s.platform with clock := Clock.stopped now, calendar } }
  match s.advance limit start.steps summary with
  | none => throw (IO.userError "the limit on the work of one step is reached")
  | some (progress, s) =>
    let (lines, printer) := s.platform.printer.drain
    for line in lines do IO.println line
    let s := { s with platform := { s.platform with printer, journal := [] } }
    match progress with
    | .stopped summary => return .returned (s.close start.steps start.solutions summary).1
    | .panicked => return .panicked
    | .going summary => drive start s summary
    | .waiting deadline =>
      IO.sleep (pause now s.config.idlePoll deadline).toUInt32
      drive start s summary

def runSystem (file : String) (maxSteps : Option Nat) : IO UInt32 := do
  let seed ← IO.monoNanosNow
  let outside : Platform := { chance := { reading := sample seed.toUInt64 } }
  match CommandLine.prepare file (← readFile file) maxSteps outside with
  | .error e => finish (CommandLine.failure e)
  | .ok s =>
    let ending ← drive s s {}
    finish (CommandLine.report ending)

/-- Reads the one file a command may need and carries the command out. -/
def perform (command : CommandLine.Command) : IO UInt32 := do
  match command with
  | .run file maxSteps => runSystem file maxSteps
  | .check file =>
    let bytes ← readFile file
    finish ((CommandLine.execute limit (fun _ => bytes) {} (.check file)).getD {})
  | other => finish ((CommandLine.execute limit (fun _ => none) {} other).getD {})

end Deliberation.Main

def main (args : List String) : IO UInt32 :=
  Deliberation.Main.perform (Deliberation.CommandLine.parse args)
