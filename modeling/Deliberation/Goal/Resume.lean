import Deliberation.Goal.Perform
import Deliberation.Goal.Search

/-!
Resuming a query: the search goes on to the next point where control returns to the caller. A
solution leaves its bindings in place, guarded by a choicepoint of the search, and the next
resumption undoes them before it looks further. Exhaustion leaves no binding of the search behind.

Every function takes a limit on nested and repeated steps and gives nothing when it is reached; the
answer does not depend on the limit otherwise. The treatment of each state of a search is a function
of the way queries are resumed, so that the recursion is in one place.
-/
namespace Deliberation

/-- Where control returned to the caller. -/
inductive Event where
  | solution
  | suspended
  | exhausted
deriving DecidableEq, Repr

def Event.name : Event → String
  | solution => "solution"
  | suspended => "suspended"
  | exhausted => "exhausted"

/-- The outcome of one resumption. The state and the new stage of the search are kept also when it
ends in an error. -/
structure Reply (σ : Type) where
  result : Except Halt Event
  next : σ
  state : State

abbrev Resumption := Query → State → Option (Reply Query)

namespace Search

/-- Undoes back to a choicepoint and then replies with an event and a stage. -/
def afterReroll (s : State) (c : Choicepoint) (event : Event) (next : Search) : Reply Search :=
  match s.reroll c with
  | .ok s => ⟨.ok event, next, s⟩
  | .error e => ⟨.error e, next, s⟩

/-- Gives a solution held by a choicepoint, or undoes a failed attempt and is spent. -/
def holdOrUndo (c : Choicepoint) : Bool × State → Reply Search
  | (true, s) => ⟨.ok .solution, .held c, s⟩
  | (false, s) => afterReroll s c .exhausted .spent

/-- What an attempt comes to that may also end in an error, which leaves it as it is. -/
def conclude (c : Choicepoint) : Except Halt Bool × State → Reply Search
  | (.ok holds, s) => holdOrUndo c (holds, s)
  | (.error e, s) => ⟨.error e, .spent, s⟩

/-- The situation an action sees, and the state after it has looked. Each look has a reading of the
calendar and of chance of its own. -/
def look (ctx : Context) (s : State) : View × State :=
  let (calendar, platform) := s.platform.readCalendar
  let (sample, platform) := platform.draw
  ({ mind := ctx.mind, scope := s.scope, calendar, sample }, { s with platform })

/-- Comes to a deed and does it under a fresh choicepoint. -/
def runAct (ctx : Context) (steps : View → Script Deed) (s : State) : Reply Search :=
  let (c, s) := s.mark
  let (view, s) := look ctx s
  match (steps view).run s with
  | (.error e, s) => ⟨.error e, .spent, s⟩
  | (.ok deed, s) => conclude c (deed.perform ctx.mind s)

/-- Tries candidates, each under its own choicepoint, up to the first that unifies. -/
def choose (target : Term) (rest : Candidates) (s : State) : Reply Search :=
  match _found : rest.next? with
  | none => ⟨.ok .exhausted, .spent, s⟩
  | some (candidate, rest) =>
    let (c, s) := s.mark
    match s.unify target candidate with
    | (true, s) => ⟨.ok .solution, .choosing target rest (some c), s⟩
    | (false, s) =>
      match s.reroll c with
      | .error e => ⟨.error e, .choosing target rest none, s⟩
      | .ok s => choose target rest s
termination_by rest.remaining
decreasing_by exact Candidates.remaining_of_next? _found

/-- Takes the fresh variables of an offer and begins with its candidates. -/
def accept (target : Term) (offer : Offer) (s : State) : Reply Search :=
  let (vars, supply) := s.platform.supply.freshVars offer.fresh
  choose target (offer.candidates vars) (s.withSupply supply)

/-- Comes to an offer, outside of any choicepoint, and accepts it. -/
def runOffer (ctx : Context) (target : Term) (steps : View → Script Offer) (s : State) :
    Reply Search :=
  let (view, s) := look ctx s
  match (steps view).run s with
  | (.error e, s) => ⟨.error e, .spent, s⟩
  | (.ok offer, s) => accept target offer s

/-- Runs a query to its end, taking a snapshot of a pattern at each solution. Deadlines set on the
way take effect only afterwards. -/
def gather (resume : Resumption) (pattern : Term) :
    Nat → Query → Renaming → List Term → State → Option (Except Halt (List Term) × State)
  | 0, _, _, _, _ => none
  | limit + 1, q, names, found, s =>
    match resume q s with
    | none => none
    | some ⟨.error e, _, s⟩ => some (.error e, s)
    | some ⟨.ok .exhausted, _, s⟩ => some (.ok found.reverse, s)
    | some ⟨.ok .suspended, q, s⟩ => gather resume pattern limit q names found s
    | some ⟨.ok .solution, q, s⟩ =>
      let (value, names, supply) := s.scope.freeze pattern names s.platform.supply
      gather resume pattern limit q names (value :: found) (s.withSupply supply)

def runCollect (resume : Resumption) (limit : Nat) (pattern goal result : Term) (s : State) :
    Option (Reply Search) :=
  let (c, s) := s.mark
  match gather resume pattern limit (.new goal) [] [] s with
  | none => none
  | some (.error e, s) => some ⟨.error e, .spent, s⟩
  | some (.ok found, s) => some (holdOrUndo c (s.unify result (.seq found)))

def runPlan (ctx : Context) (resume : Resumption) (limit : Nat) (s : State) :
    Plan → Option (Reply Search)
  | .act steps => some (runAct ctx steps s)
  | .offer target steps => some (runOffer ctx target steps s)
  | .collect pattern goal result => runCollect resume limit pattern goal result s

/-- Tries rules in order: a rule whose head unifies contributes the solutions of its body. -/
def scanRules (resume : Resumption) (goal : Term) (group : Group) :
    Nat → List Rule → State → Option (Reply Search)
  | _, [], s => some ⟨.ok .exhausted, .recalling goal .finished none, s⟩
  | next, rule :: more, s =>
    let cursor := Cursor.rules group (next + 1)
    let (head, names, supply) := rule.head.renameApart [] s.platform.supply
    let (body, _, supply) := rule.body.renameApart names supply
    let (c, s) := (s.withSupply supply).mark
    let (ok, s) := s.unify goal head
    if ok then
      match resume (.new body) s with
      | none => none
      | some ⟨.error e, _, s⟩ => some ⟨.error e, .recalling goal cursor (some c), s⟩
      | some ⟨.ok .exhausted, _, s⟩ =>
        match s.reroll c with
        | .error e => some ⟨.error e, .recalling goal cursor none, s⟩
        | .ok s => scanRules resume goal group (next + 1) more s
      | some ⟨.ok event, body, s⟩ => some ⟨.ok event, .applying goal cursor c body, s⟩
    else
      match s.reroll c with
      | .error e => some ⟨.error e, .recalling goal cursor none, s⟩
      | .ok s => scanRules resume goal group (next + 1) more s

def scanFacts (ctx : Context) (resume : Resumption) (goal : Term) (group : Group) :
    Nat → List Term → State → Option (Reply Search)
  | _, [], s => scanRules resume goal group 0 (ctx.mind.beliefs.rules group) s
  | next, fact :: more, s =>
    let cursor := Cursor.facts group (next + 1)
    let (candidate, _, supply) := fact.renameApart [] s.platform.supply
    let (c, s) := (s.withSupply supply).mark
    let (ok, s) := s.unify goal candidate
    if ok then some ⟨.ok .solution, .recalling goal cursor (some c), s⟩
    else
      match s.reroll c with
      | .error e => some ⟨.error e, .recalling goal cursor none, s⟩
      | .ok s => scanFacts ctx resume goal group (next + 1) more s

/-- The group to look under. A variable or a term that is no literal cannot be looked up. -/
def groupOf (scope : Scope) (goal : Term) : Except Halt Group :=
  match scope.walk goal with
  | .var _ => .error (.raised (.instantiation goal))
  | value =>
    match value.group? with
    | some group => .ok group
    | none => .error (.raised (.invalidGoal value))

def scan (ctx : Context) (resume : Resumption) (goal : Term) (s : State) :
    Cursor → Option (Reply Search)
  | .start =>
    match groupOf s.scope goal with
    | .error e => some ⟨.error e, .recalling goal .start none, s⟩
    | .ok group => scanFacts ctx resume goal group 0 (ctx.mind.beliefs.lookup group) s
  | .facts group next =>
    scanFacts ctx resume goal group next ((ctx.mind.beliefs.lookup group).drop next) s
  | .rules group next =>
    scanRules resume goal group next ((ctx.mind.beliefs.rules group).drop next) s
  | .finished => some ⟨.ok .exhausted, .recalling goal .finished none, s⟩

def undoAndScan (ctx : Context) (resume : Resumption) (goal : Term) (cursor : Cursor)
    (mark : Option Choicepoint) (s : State) : Option (Reply Search) :=
  match s.rerollIf mark with
  | .error e => some ⟨.error e, .recalling goal cursor none, s⟩
  | .ok s => scan ctx resume goal s cursor

/-- Goes on with the body of a rule, and with the next rule once it is exhausted. -/
def resumeBody (ctx : Context) (resume : Resumption) (goal : Term) (cursor : Cursor)
    (c : Choicepoint) (body : Query) (s : State) : Option (Reply Search) :=
  match resume body s with
  | none => none
  | some ⟨.error e, body, s⟩ => some ⟨.error e, .applying goal cursor c body, s⟩
  | some ⟨.ok .exhausted, _, s⟩ => undoAndScan ctx resume goal cursor (some c) s
  | some ⟨.ok event, body, s⟩ => some ⟨.ok event, .applying goal cursor c body, s⟩

/-- Alternates between the conjuncts: every solution of the right one under every solution of the
left one. After a solution of the left one a waiting intention gives control back. -/
def resumeConj (resume : Resumption) (rightGoal : Term) :
    Nat → Query → Option Query → State → Option (Reply Search)
  | 0, _, _, _ => none
  | limit + 1, left, some right, s =>
    match resume right s with
    | none => none
    | some ⟨.ok .exhausted, _, s⟩ => resumeConj resume rightGoal limit left none s
    | some ⟨result, right, s⟩ => some ⟨result, .conjRight left rightGoal right, s⟩
  | limit + 1, left, none, s =>
    match resume left s with
    | none => none
    | some ⟨.ok .solution, left, s⟩ =>
      let right := Query.new rightGoal
      let (now, s) := s.readClock
      if s.intention.isWaiting now then
        some ⟨.ok .suspended, .conjRight left rightGoal right, s⟩
      else resumeConj resume rightGoal limit left (some right) s
    | some ⟨result, left, s⟩ => some ⟨result, .conj left rightGoal, s⟩

def resumeDisjRight (resume : Resumption) (right : Query) (s : State) : Option (Reply Search) :=
  match resume right s with
  | none => none
  | some ⟨result, right, s⟩ => some ⟨result, .disjRight right, s⟩

def resumeDisj (resume : Resumption) (left : Query) (rightGoal : Term) (s : State) :
    Option (Reply Search) :=
  match resume left s with
  | none => none
  | some ⟨.ok .exhausted, _, s⟩ => resumeDisjRight resume (.new rightGoal) s
  | some ⟨result, left, s⟩ => some ⟨result, .disj left rightGoal, s⟩

/-- Runs the negated goal under a choicepoint until it is known whether it has a solution. -/
def resumeNegation (resume : Resumption) (inner : Query) (c : Choicepoint) (s : State) :
    Option (Reply Search) :=
  match resume inner s with
  | none => none
  | some ⟨.ok .solution, _, s⟩ => some (afterReroll s c .exhausted .spent)
  | some ⟨.ok .exhausted, _, s⟩ => some (afterReroll s c .solution .spent)
  | some ⟨result, inner, s⟩ => some ⟨result, .negation inner (some c), s⟩

/-- Resumes a search, given the way to resume the queries inside it. -/
def advance (ctx : Context) (resume : Resumption) (limit : Nat) (s : State) :
    Search → Option (Reply Search)
  | planned plan => runPlan ctx resume limit s plan
  | held c => some (afterReroll s c .exhausted .spent)
  | choosing target rest mark =>
    match s.rerollIf mark with
    | .error e => some ⟨.error e, .choosing target rest none, s⟩
    | .ok s => some (choose target rest s)
  | spent => some ⟨.ok .exhausted, .spent, s⟩
  | recalling goal cursor mark => undoAndScan ctx resume goal cursor mark s
  | applying goal cursor c body => resumeBody ctx resume goal cursor c body s
  | conj left rightGoal => resumeConj resume rightGoal limit left none s
  | conjRight left rightGoal right => resumeConj resume rightGoal limit left (some right) s
  | disj left rightGoal => resumeDisj resume left rightGoal s
  | disjRight right => resumeDisjRight resume right s
  | negation inner (some c) => resumeNegation resume inner c s
  | negation inner none =>
    let (c, s) := s.mark
    resumeNegation resume inner c s

end Search

namespace Query

/-- Puts the outcome of a search back into its query, which is done once the search is exhausted. -/
def ofSearch (goal : Term) : Reply Search → Reply Query
  | ⟨.ok .exhausted, _, s⟩ => ⟨.ok .exhausted, .done goal, s⟩
  | ⟨result, search, s⟩ => ⟨result, .running goal search, s⟩

/-- Resumes a query, given the way to resume the queries inside it. A goal that cannot be searched
for stays pending. -/
def advance (ctx : Context) (resume : Resumption) (limit : Nat) (s : State) :
    Query → Option (Reply Query)
  | pending goal =>
    match Search.ofGoal ctx s.scope goal with
    | .error e => some ⟨.error e, .pending goal, s⟩
    | .ok search => (search.advance ctx resume limit s).map (ofSearch goal)
  | running goal search => (search.advance ctx resume limit s).map (ofSearch goal)
  | done goal => some ⟨.ok .exhausted, .done goal, s⟩

/-- Goes on to the next event, or gives nothing if the limit is reached first. -/
def resume (ctx : Context) : Nat → Query → State → Option (Reply Query)
  | 0, _, _ => none
  | limit + 1, q, s => q.advance ctx (resume ctx limit) limit s

end Query

end Deliberation
