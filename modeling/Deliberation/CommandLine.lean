import Deliberation.Library
import Deliberation.SystemFile

/-!
The command line: listing the actions, checking a system file, running one. Everything here is a
function from arguments and files to an exit code and text; the program around it only reads and
writes.
-/
namespace Deliberation.CommandLine

def programName : String := "akh-bdi"

def version : String := "0.1.0"

inductive Topic where
  | program
  | run
  | check
  | actions
  | help

inductive Command where
  | run (file : String) (maxSteps : Option Nat)
  | check (file : String)
  | actions
  | help (topic : Topic)
  | version
  | unusable (reason : String)

/-- A natural number of sixty-four bits, with an optional plus sign. -/
def natural? (text : String) : Option Nat :=
  let digits := match text.toList with
    | '+' :: rest => rest
    | rest => rest
  let value := Decimal.digitsValue digits
  if digits.isEmpty || !digits.all Char.isDigit || UInt64.size ≤ value then none else some value

/-- Whether an argument is written like an option; a lone hyphen is not. -/
def isOption (arg : String) : Bool :=
  match arg.toList with
  | '-' :: _ :: _ => true
  | _ => false

def asksForHelp (arg : String) : Bool :=
  arg = "--help" || (match arg.toList with
    | '-' :: 'h' :: _ => true
    | _ => false)

def asksForVersion (arg : String) : Bool :=
  arg = "--version" || (match arg.toList with
    | '-' :: 'V' :: _ => true
    | _ => false)

/-- What the arguments after a command have given so far. -/
structure Given where
  file : Option String := none
  maxSteps : Option Nat := none

def unexpected (arg : String) : Command := .unusable ("unexpected argument '" ++ arg ++ "' found")

def Given.withFile (g : Given) (arg : String) : Except Command Given :=
  if g.file.isSome then .error (unexpected arg)
  else if arg.isEmpty then
    .error (.unusable "a value is required for '<FILE>' but none was supplied")
  else .ok { g with file := some arg }

def Given.withMaxSteps (g : Given) (value : String) : Except Command Given :=
  if g.maxSteps.isSome then
    .error (.unusable "the argument '--max-steps <MAX_STEPS>' cannot be used multiple times")
  else
    match natural? value with
    | some n => .ok { g with maxSteps := some n }
    | none =>
      .error (.unusable ("invalid value '" ++ value ++ "' for '--max-steps <MAX_STEPS>'"))

def positionals : List String → Given → Except Command Given
  | [], g => .ok g
  | arg :: rest, g => do positionals rest (← g.withFile arg)

def maxStepsOption : String := "--max-steps"

/-- The value of an argument of the form `--max-steps=N`. -/
def attachedSteps? (arg : String) : Option String :=
  let lead := (maxStepsOption ++ "=").toList
  if lead.isPrefixOf arg.toList then some (String.ofList (arg.toList.drop lead.length)) else none

def runArguments : List String → Given → Except Command Given
  | [], g => .ok g
  | "--" :: rest, g => positionals rest g
  | arg :: rest, g =>
    if arg = maxStepsOption then
      match rest with
      | value :: rest =>
        if isOption value then .error (unexpected value)
        else do runArguments rest (← g.withMaxSteps value)
      | [] => .error (.unusable "a value is required for '--max-steps <MAX_STEPS>'")
    else
      match attachedSteps? arg with
      | some value => do runArguments rest (← g.withMaxSteps value)
      | none =>
        if asksForHelp arg then .error (.help .run)
        else if isOption arg then .error (unexpected arg)
        else do runArguments rest (← g.withFile arg)

/-- Reads the arguments of `check`, which has no options of its own. -/
def checkArguments : List String → Given → Except Command Given
  | [], g => .ok g
  | "--" :: rest, g => positionals rest g
  | arg :: rest, g =>
    if asksForHelp arg then .error (.help .check)
    else if isOption arg then .error (unexpected arg)
    else do checkArguments rest (← g.withFile arg)

/-- Reads the arguments of `actions`, which takes none, so that the first one decides. -/
def actionsArguments : List String → Command
  | [] => .actions
  | ["--"] => .actions
  | "--" :: arg :: _ => unexpected arg
  | arg :: _ => if asksForHelp arg then .help .actions else unexpected arg

def missingFile : Command := .unusable "the following required arguments were not provided: <FILE>"

def helpTopic : List String → Command
  | [] => .help .program
  | ["run"] => .help .run
  | ["check"] => .help .check
  | ["actions"] => .help .actions
  | ["help"] => .help .help
  | _ => .unusable "unrecognized subcommand"

def parse : List String → Command
  | [] => .unusable "a subcommand is required"
  | "run" :: rest =>
    match runArguments rest {} with
    | .error command => command
    | .ok { file := some file, maxSteps } => .run file maxSteps
    | .ok { file := none, .. } => missingFile
  | "check" :: rest =>
    match checkArguments rest {} with
    | .error command => command
    | .ok { file := some file, .. } => .check file
    | .ok { file := none, .. } => missingFile
  | "actions" :: rest => actionsArguments rest
  | "help" :: rest => helpTopic rest
  | arg :: _ =>
    if asksForHelp arg then .help .program
    else if asksForVersion arg then .version
    else .unusable ("unrecognized subcommand '" ++ arg ++ "'")

def lines (parts : List String) : String := String.join (parts.map (· ++ "\n"))

def helpText : Topic → String
  | .program => lines [
      "BDI agent execution engine", "",
      "Usage: akh-bdi <COMMAND>", "",
      "Commands:",
      "  run      Run a system file until its intentions are done or shutdown is requested",
      "  check    Load a system file and show its agents without running them",
      "  actions  List the registered actions",
      "  help     Print this message or the help of the given subcommand(s)", "",
      "Options:",
      "  -h, --help     Print help",
      "  -V, --version  Print version"]
  | .run => lines [
      "Run a system file until its intentions are done or shutdown is requested", "",
      "Usage: akh-bdi run [OPTIONS] <FILE>", "",
      "Arguments:",
      "  <FILE>  Path to a `.toml` or `.json` system file", "",
      "Options:",
      "      --max-steps <MAX_STEPS>  Stop after this many scheduling steps (overrides the file)",
      "  -h, --help                   Print help"]
  | .check => lines [
      "Load a system file and show its agents without running them", "",
      "Usage: akh-bdi check <FILE>", "",
      "Arguments:",
      "  <FILE>  Path to a `.toml` or `.json` system file", "",
      "Options:",
      "  -h, --help  Print help"]
  | .actions => lines [
      "List the registered actions", "",
      "Usage: akh-bdi actions", "",
      "Options:",
      "  -h, --help  Print help"]
  | .help => lines [
      "Print this message or the help of the given subcommand(s)", "",
      "Usage: akh-bdi help [COMMAND]...", "",
      "Arguments:",
      "  [COMMAND]...  Print help for the subcommand(s)"]

def actionsText (r : Registry) : String :=
  lines (("Actions (" ++ Nat.repr r.size ++ "):") :: r.keys.map fun key => "  " ++ key.text)

/-- Milliseconds with the largest fitting unit: seconds with up to three places, milliseconds, or no
nanoseconds at all. -/
def durationText (millis : Nat) : String :=
  if millis = 0 then "0ns"
  else if millis < 1000 then Nat.repr millis ++ "ms"
  else
    let rest := millis % 1000
    let places := [rest / 100, rest / 10 % 10, rest % 10].map Nat.digitChar
    let kept := (places.reverse.dropWhile (· = '0')).reverse
    let fraction := if kept.isEmpty then "" else String.ofList ('.' :: kept)
    Nat.repr (millis / 1000) ++ fraction ++ "s"

def configText (c : SchedulerConfig) : String :=
  let steps := match c.maxSteps with
    | some most => "max " ++ Nat.repr most ++ " steps"
    | none => "unlimited steps"
  "Scheduler: " ++ steps ++ ", idle poll " ++ durationText c.idlePoll

/-- An agent with its beliefs and rules, group by group, and its goals. -/
def agentLines (a : Agent) : List String :=
  let title := "Agent \"" ++ a.name ++ "\" (" ++ Nat.repr a.beliefs.size ++ " beliefs, " ++
    Nat.repr a.beliefs.ruleCount ++ " rules, " ++ Nat.repr a.commitments.length ++ " goals):"
  let members := a.beliefs.groups.flatMap fun g =>
    (a.beliefs.lookup g).map (fun fact => "  belief  " ++ fact.text) ++
      (a.beliefs.rules g).map fun rule => "  rule    " ++ rule.text
  let goals := a.commitments.map fun c =>
    "  goal    " ++ c.goal.text ++ " (" ++ c.policy.name ++ ")"
  title :: members ++ goals

def checkText (s : Scheduler) : String :=
  lines (configText s.config :: s.agents.flatMap agentLines)

structure Outcome where
  exit : Nat := 0
  stdout : String := ""
  stderr : String := ""

def failure (e : ConfigError) : Outcome :=
  { exit := 1
    stderr := lines ["Error: " ++ e.code, "", "  x " ++ e.message, "  help: " ++ e.help] }

def usageError (reason : String) : Outcome :=
  { exit := 2, stderr := lines ["error: " ++ reason, "", "For more information, try '--help'."] }

/-- The system of a file on a console with the standard actions, ready to run. A number of steps
given with the command replaces the one in the file. Clock, calendar and chance are those of a given
platform. -/
def prepare (file : String) (bytes : Option ByteArray) (maxSteps : Option Nat)
    (outside : Platform) : Except ConfigError Scheduler := do
  let form ← SystemFile.load file bytes
  let config := { form.config with maxSteps := maxSteps.or form.config.maxSteps }
  let platform : Platform :=
    { outside with
      printer := { sink := .console }, journal := Library.announce Library.standard [] }
  match { form with config }.build { actions := Library.standard, platform } with
  | .ok s => return s
  | .error failed => throw failed.error

/-- What is left to report after the lines a run has printed: its summary, unless it has panicked. -/
def report : Scheduler.Ending → Outcome
  | .returned summary => { stdout := lines [summary.text] }
  | .panicked => { exit := 101, stderr := lines ["the system has panicked"] }

/-- A run whose sleeps take no time; nothing if the limit on its work is reached. -/
def runOutcome (limit : Nat) (s : Scheduler) : Option Outcome :=
  (s.run limit).map fun (ending, ended) =>
    let outcome := report ending
    { outcome with stdout := lines ended.platform.printer.drain.1 ++ outcome.stdout }

/-- Carries out a command, given the contents of files and what is read from outside. -/
def execute (limit : Nat) (files : String → Option ByteArray) (outside : Platform) :
    Command → Option Outcome
  | .run file maxSteps =>
    match prepare file (files file) maxSteps outside with
    | .error e => some (failure e)
    | .ok s => runOutcome limit s
  | .check file =>
    match prepare file (files file) none outside with
    | .error e => some (failure e)
    | .ok s => some { stdout := checkText s }
  | .actions => some { stdout := actionsText Library.standard }
  | .help topic => some { stdout := helpText topic }
  | .version => some { stdout := lines [programName ++ " " ++ version] }
  | .unusable reason => some (usageError reason)

end Deliberation.CommandLine
