import Deliberation.Supply

/-!
Printed lines, each attributed to an agent. An agent gets a colour the first time it is asked for
and keeps it; colours repeat once the palette is used up. Lines go to a console, coloured, or are
collected as they are.
-/
namespace Deliberation

/-- Background and foreground colour numbers of the tags. -/
def palette : List (Nat × Nat) := [(2, 15), (5, 15), (3, 0), (4, 15), (6, 0), (1, 15)]

inductive Sink where
  | console
  | buffer
deriving DecidableEq, Repr

structure Printer where
  sink : Sink := .buffer
  /-- The colour of each agent, in the order of assignment. -/
  colours : List (AgentId × Nat) := []
  /-- Lines not taken yet, newest first. -/
  lines : List String := []

namespace Printer

/-- The place of an agent's colour in the palette, assigned on first use. -/
def colourOf (p : Printer) (agent : AgentId) : Nat × Printer :=
  match p.colours.lookup agent with
  | some colour => (colour, p)
  | none =>
    let colour := p.colours.length % palette.length
    (colour, { p with colours := p.colours ++ [(agent, colour)] })

def colouredLine (colour : Nat) (name text : String) : String :=
  let (background, foreground) := palette.getD colour (0, 0)
  "\x1b[48;5;" ++ Nat.repr background ++ "m\x1b[38;5;" ++ Nat.repr foreground ++ "m " ++ name ++
    " \x1b[49m\x1b[39m " ++ text

def line (p : Printer) (colour : Nat) (name text : String) : String :=
  match p.sink with
  | .console => colouredLine colour name text
  | .buffer => name ++ ": " ++ text

def print (p : Printer) (agent : AgentId) (name text : String) : Printer :=
  let (colour, p) := p.colourOf agent
  { p with lines := p.line colour name text :: p.lines }

/-- All lines since the last time, oldest first. -/
def drain (p : Printer) : List String × Printer := (p.lines.reverse, { p with lines := [] })

/-- The collected lines; a console has already shown its own. -/
def takeLines (p : Printer) : List String × Printer :=
  match p.sink with
  | .console => ([], p)
  | .buffer => p.drain

/-- A short description with the number of agents that have a colour. -/
def describe (p : Printer) : String :=
  "Printer \x7b agents: " ++ Nat.repr p.colours.length ++ " \x7d"

end Printer

end Deliberation
