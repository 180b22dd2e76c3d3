import Deliberation.Action.Basic

/-!
The registry of actions, by name and arity. A variadic action answers calls with any number of
arguments that no action of that exact arity answers.
-/
namespace Deliberation

/-- A name with its arity, or without one for a variadic action. -/
structure ActionKey where
  name : String
  arity : Option Nat
deriving DecidableEq, Repr

namespace ActionKey

def text (k : ActionKey) : String :=
  match k.arity with
  | some arity => k.name ++ "/" ++ Nat.repr arity
  | none => k.name ++ "/*"

/-- By name, the variadic key before those with an arity. -/
def order (k l : ActionKey) : Ordering :=
  (compare k.name l.name).then <|
    match k.arity, l.arity with
    | none, none => .eq
    | none, some _ => .lt
    | some _, none => .gt
    | some m, some n => compare m n

def insertSorted (k : ActionKey) : List ActionKey → List ActionKey
  | [] => [k]
  | l :: rest => if k.order l = .gt then l :: insertSorted k rest else k :: l :: rest

end ActionKey

structure Registry where
  actions : List (ActionKey × Action) := []

namespace Registry

def find? (r : Registry) (key : ActionKey) : Option Action := r.actions.lookup key

/-- Puts an action under a key, in place of one that was there. -/
def register (r : Registry) (name : String) (arity : Option Nat) (action : Action) : Registry :=
  let key : ActionKey := ⟨name, arity⟩
  ⟨r.actions.filter (fun entry => entry.1 ≠ key) ++ [(key, action)]⟩

def addFunction (r : Registry) (name : String) (params : List Param)
    (call : View → List Term → Except Halt Term) : Registry :=
  r.register name (some (params.length + 1)) (.function params call)

def addPredicate (r : Registry) (name : String) (params : List Param)
    (test : List Term → Except Halt Bool) : Registry :=
  r.register name (some params.length) (.predicate params test)

def addGenerator (r : Registry) (name : String) (arity : Option Nat) (start : List Term → Plan) :
    Registry :=
  r.register name arity (.generator start)

/-- The action for a call: exact arity first, then variadic. -/
def lookup (r : Registry) (name : String) (arity : Nat) : Option Action :=
  (r.find? ⟨name, some arity⟩).or (r.find? ⟨name, none⟩)

def keys (r : Registry) : List ActionKey :=
  r.actions.foldl (fun sorted entry => entry.1.insertSorted sorted) []

def size (r : Registry) : Nat := r.actions.length

def describe (r : Registry) : String :=
  "ActionRegistry \x7b actions: [" ++
    String.intercalate ", " (r.keys.map fun key => Text.quote key.text) ++ "] \x7d"

end Registry

end Deliberation
