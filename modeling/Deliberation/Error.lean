import Deliberation.Term.Text

/-!
Hard errors. A goal without a solution is no error; the causes here end the evaluation of a goal
or the reading of a system. Each has one message, one stable code and one line of advice.
-/
namespace Deliberation

inductive EngineError where
  | instantiation (term : Term)
  | typeMismatch (action expected found : String)
  | precondition (action message : String)
  | unknownAction (name : String) (arity : Nat)
  | invalidGoal (goal : Term)
  | choicepointNotFound (choicepoint : Nat)

namespace EngineError

def message : EngineError → String
  | instantiation term => "insufficiently instantiated: " ++ term.text
  | typeMismatch action expected found => action ++ ": expected " ++ expected ++ ", found " ++ found
  | precondition action message => action ++ ": " ++ message
  | unknownAction name arity => "unknown action: " ++ name ++ "/" ++ Nat.repr arity
  | invalidGoal goal => "not a goal: " ++ goal.text
  | choicepointNotFound choicepoint =>
    "choicepoint " ++ Nat.repr choicepoint ++ " is not on the trail"

def code : EngineError → String
  | instantiation _ => "akh::engine::instantiation"
  | typeMismatch _ _ _ => "akh::engine::type_mismatch"
  | precondition _ _ => "akh::engine::precondition"
  | unknownAction _ _ => "akh::engine::unknown_action"
  | invalidGoal _ => "akh::engine::invalid_goal"
  | choicepointNotFound _ => "akh::engine::choicepoint"

def help : EngineError → String
  | instantiation _ =>
    "A concrete value was required but the term still contains unbound variables. " ++
      "Bind the variables before this goal, e.g. by querying a belief first."
  | typeMismatch _ _ _ =>
    "The action requires an argument of a specific kind. Check the goal's arguments."
  | precondition _ _ =>
    "An argument violated the action's precondition (range, sign or emptiness)."
  | unknownAction _ _ =>
    "No action is registered under this name and arity. " ++
      "List the registered actions with `akh-bdi actions`."
  | invalidGoal _ => "Goals must be atoms or literals (or variables bound to one)."
  | choicepointNotFound _ =>
    "A choicepoint was rerolled twice or after an outer choicepoint already " ++
      "removed it. This is a bug in the action that owns the choicepoint."

end EngineError

/-- Why an evaluation comes to no value. A panic is no error: the program itself ends, and nothing
that called the evaluation gets an answer. -/
inductive Halt where
  | raised (error : EngineError)
  | panicked

/-- The kind of error, if it is one. -/
def Halt.kind : Halt → Option String
  | raised e => some e.code
  | panicked => none

/-- What is wrong with the written form of a term, belief or rule. -/
inductive TermFault where
  | emptyAtom
  | emptyFunctor
  | beliefNotLiteral (agent : String) (belief : Term)
  | headNotLiteral (agent : String) (head body : Term)
  | other (description : String)

def TermFault.text : TermFault → String
  | emptyAtom => "empty atom"
  | emptyFunctor => "literal with empty functor"
  | beliefNotLiteral agent belief =>
    "belief of agent " ++ agent ++ " is not a literal: " ++ belief.text
  | headNotLiteral agent head body =>
    "rule head of agent " ++ agent ++ " is not a literal: " ++ head.text ++ " :- " ++ body.text
  | other description => description

inductive ConfigError where
  | read (path : String)
  | parse (path detail : String)
  | unsupportedFormat (path : String)
  | invalidTerm (fault : TermFault)

namespace ConfigError

def message : ConfigError → String
  | read path => "failed to read system file: " ++ path
  | parse path detail => "failed to parse system file " ++ path ++ ": " ++ detail
  | unsupportedFormat path => "unsupported system file format: " ++ path
  | invalidTerm fault => "invalid term: " ++ fault.text

def code : ConfigError → String
  | read _ => "akh::config::read"
  | parse _ _ => "akh::config::parse"
  | unsupportedFormat _ => "akh::config::format"
  | invalidTerm _ => "akh::config::invalid_term"

def help : ConfigError → String
  | read _ => "Ensure the file exists and is readable."
  | parse _ _ =>
    "Check the file syntax. Terms use the tagged form, e.g. `\x7b int = 1 \x7d`."
  | unsupportedFormat _ => "Use a `.toml` or `.json` file."
  | invalidTerm _ => "Literal functors must be non-empty."

end ConfigError

end Deliberation
