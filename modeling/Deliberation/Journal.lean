/-!
The journal: what happened, entry by entry. Every entry has a level, a message and named fields
whose values are texts.
-/
namespace Deliberation

inductive Level where
  | debug
  | info
  | warn
deriving DecidableEq, Repr

def Level.name : Level → String
  | debug => "debug"
  | info => "info"
  | warn => "warn"

structure Entry where
  level : Level
  message : String
  fields : List (String × String) := []
deriving DecidableEq, Repr

/-- Entries with the newest first. -/
abbrev Journal := List Entry

namespace Journal

def debug (j : Journal) (message : String) (fields : List (String × String)) : Journal :=
  { level := .debug, message, fields } :: j

def info (j : Journal) (message : String) (fields : List (String × String)) : Journal :=
  { level := .info, message, fields } :: j

def warn (j : Journal) (message : String) (fields : List (String × String)) : Journal :=
  { level := .warn, message, fields } :: j

end Journal

end Deliberation
