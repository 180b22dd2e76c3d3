import Deliberation.Action.Plan

/-!
Actions: the named operations that goals call. A function computes a value for its last argument, a
predicate tests its arguments, and a generator makes a plan of its own.
-/
namespace Deliberation

inductive Param where
  | any
  | number
  | integer
  | string
  | sequence
deriving DecidableEq, Repr

namespace Param

def accepts : Param → Term → Bool
  | any, _ => true
  | number, .num _ => true
  | integer, .num (.int _) => true
  | string, .str _ => true
  | sequence, .seq _ => true
  | _, _ => false

def describe : Param → String
  | any => "any term"
  | number => "number"
  | integer => "integer"
  | string => "string"
  | sequence => "sequence"

/-- The short name of the parameter in listings. -/
def label : Param → String
  | any => "Any"
  | number => "Number"
  | integer => "Int"
  | string => "String"
  | sequence => "Seq"

end Param

inductive Action where
  | function (params : List Param) (call : View → List Term → Except Halt Term)
  | predicate (params : List Param) (test : List Term → Except Halt Bool)
  | generator (start : List Term → Plan)

namespace Action

/-- The number of arguments implied by the parameters. -/
def arity? : Action → Option Nat
  | function params _ => some (params.length + 1)
  | predicate params _ => some params.length
  | generator _ => none

def kind : Action → String
  | function _ _ => "function"
  | predicate _ _ => "predicate"
  | generator _ => "generator"

def describeParams (title : String) (params : List Param) : String :=
  title ++ " \x7b params: [" ++ String.intercalate ", " (params.map Param.label) ++ "] \x7d"

def describe : Action → String
  | function params _ => describeParams "Function" params
  | predicate params _ => describeParams "Predicate" params
  | generator _ => "Generator"

/-- The values of the arguments that have a parameter, each checked as soon as it is known. -/
def groundArgs (name : String) (scope : Scope) :
    List Param → List Term → Except Halt (List Term)
  | param :: params, arg :: args => do
    let value ← scope.grounded arg
    if param.accepts value then
      let values ← groundArgs name scope params args
      return value :: values
    else throw (.raised (.typeMismatch name param.describe value.kind))
  | _, _ => return []

/-- The plan of a call. A function called without arguments has no solution. -/
def plan (name : String) (args : List Term) : Action → Plan
  | function params call => .once fun view => do
    match args.getLast? with
    | none => return .answer false
    | some output =>
      let values ← groundArgs name view.scope params args.dropLast
      let result ← call view values
      return .unify [(output, result)]
  | predicate params test => .once fun view => do
    let values ← groundArgs name view.scope params args
    let holds ← test values
    return .answer holds
  | generator start => start args

end Action

end Deliberation
