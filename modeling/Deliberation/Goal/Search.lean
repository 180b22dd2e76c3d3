import Deliberation.Action.Registry

/-!
Goals under evaluation. A query is a goal with the search for its solutions; the search is set up
when the query is first resumed. Each state of a search says what has been tried and which
choicepoint guards the solution that was given last.
-/
namespace Deliberation

/-- How far a belief query has come: which fact or rule of the goal's group is next. -/
inductive Cursor where
  | start
  | facts (group : Group) (next : Nat)
  | rules (group : Group) (next : Nat)
  | finished

mutual
inductive Query where
  | pending (goal : Term)
  | running (goal : Term) (search : Search)
  | done (goal : Term)

inductive Search where
  | planned (plan : Plan)
  /-- The only solution is in place. -/
  | held (mark : Choicepoint)
  | choosing (target : Term) (rest : Candidates) (mark : Option Choicepoint)
  | spent
  | recalling (goal : Term) (cursor : Cursor) (mark : Option Choicepoint)
  /-- The body of a rule whose head has unified is running. -/
  | applying (goal : Term) (cursor : Cursor) (mark : Choicepoint) (body : Query)
  /-- The left conjunct is looking for its next solution. -/
  | conj (left : Query) (rightGoal : Term)
  /-- The right conjunct is running under a solution of the left one. -/
  | conjRight (left : Query) (rightGoal : Term) (right : Query)
  | disj (left : Query) (rightGoal : Term)
  /-- The left disjunct is exhausted. -/
  | disjRight (right : Query)
  | negation (inner : Query) (mark : Option Choicepoint)
end

namespace Query

def new (goal : Term) : Query := .pending goal

/-- A query of the belief base alone: the goal is neither a connective nor an action. -/
def ofBeliefs (goal : Term) : Query := .running goal (.recalling goal .start none)

def goal : Query → Term
  | pending goal => goal
  | running goal _ => goal
  | done goal => goal

def stage : Query → String
  | pending _ => "pending"
  | running _ _ => "running"
  | done _ => "done"

def describe (q : Query) : String :=
  "Query \x7b goal: " ++ Text.quote q.goal.text ++ ", state: " ++ Text.quote q.stage ++ " \x7d"

end Query

/-- What goals are evaluated against: the actions and the agent's mind. -/
structure Context where
  actions : Registry := {}
  mind : Mind

/-- Names that begin with a point belong to actions. -/
def isActionName (name : String) : Bool :=
  match name.toList with
  | '.' :: _ => true
  | _ => false

def Search.constant (holds : Bool) : Search := .planned (.once fun _ => .ok (.answer holds))

def Search.call (ctx : Context) (name : String) (args : List Term) : Except Halt Search :=
  match ctx.actions.lookup name args.length with
  | some action => .ok (.planned (action.plan name args))
  | none => .error (.raised (.unknownAction name args.length))

/-- The search for a goal, which is first followed through its bindings. -/
def Search.ofGoal (ctx : Context) (scope : Scope) (goal : Term) : Except Halt Search :=
  match scope.walk goal with
  | .var v => .error (.raised (.instantiation (.var v)))
  | .lit "true" [] [] => .ok (.constant true)
  | .lit "false" [] [] => .ok (.constant false)
  | .lit "&" [left, right] _ => .ok (.conj (.new left) right)
  | .lit "|" [left, right] _ => .ok (.disj (.new left) right)
  | .lit "not" [inner] _ => .ok (.negation (.new inner) none)
  | .lit "=" [left, right] _ => .ok (.planned (.once fun _ => .ok (.unify [(left, right)])))
  | .lit functor args annots =>
    if isActionName functor then Search.call ctx functor args
    else .ok (.recalling (.lit functor args annots) .start none)
  | other => .error (.raised (.invalidGoal other))

end Deliberation
