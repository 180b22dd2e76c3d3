import Deliberation.Proofs.Likeness

/-!
Depth-first enumeration, eager and without choicepoints. A goal is solved by visiting its solutions
one after the other, each in the state that holds it. What the visitor changes beyond the bindings
stays; the bindings are taken from where an alternative began, unless all were dropped since.
-/
namespace Deliberation

/-- What a goal asks for. -/
inductive Asked where
  | truth (holds : Bool)
  | both (left right : Term)
  | either (left right : Term)
  | absence (inner : Term)
  | equality (left right : Term)
  | call (name : String) (args : List Term)
  | belief (functor : String) (args annots : List Term)
  /-- Nothing that can be searched for. -/
  | fault (e : Halt)

def Term.asked : Term → Asked
  | .var v => .fault (.raised (.instantiation (.var v)))
  | .lit "true" [] [] => .truth true
  | .lit "false" [] [] => .truth false
  | .lit "&" [left, right] _ => .both left right
  | .lit "|" [left, right] _ => .either left right
  | .lit "not" [inner] _ => .absence inner
  | .lit "=" [left, right] _ => .equality left right
  | .lit functor args annots =>
    if isActionName functor then .call functor args else .belief functor args annots
  | other => .fault (.raised (.invalidGoal other))

/-- The candidates in order. -/
def Candidates.list : Candidates → List Term
  | terms rest => rest
  | range next stop =>
    (List.range (stop - next).toNat).map fun (i : Nat) => .int (Int64.ofInt (next + i))

namespace Enumeration

inductive Ending where
  | exhausted
  | failed (e : Halt)
  /-- No more solutions are wanted. -/
  | stopped

/-- The end of an enumeration, with what was gathered on the way. -/
structure Outcome (α : Type) where
  ending : Ending
  gathered : α
  state : State

/-- What is done at each solution. The enumeration goes on where this is exhausted in turn. -/
abbrev Visitor (α : Type) := α → State → Option (Outcome α)

variable {α : Type}

/-- Goes on with the rest once the first part is exhausted, with the bindings at its start. -/
def andThen (start : State) (rest : Visitor α) : Option (Outcome α) → Option (Outcome α)
  | some ⟨.exhausted, a, s⟩ => rest a (start.backtrack s)
  | other => other

/-- One solution if an attempt has succeeded. -/
def onSuccess (visit : Visitor α) (a : α) : Bool × State → Option (Outcome α)
  | (true, s) => visit a s
  | (false, s) => some ⟨.exhausted, a, s⟩

/-- One solution if an attempt has succeeded, unless it has ended in an error. -/
def conclude (visit : Visitor α) (a : α) : Except Halt Bool × State → Option (Outcome α)
  | (.ok holds, s) => onSuccess visit a (holds, s)
  | (.error e, s) => some ⟨.failed e, a, s⟩

/-- One solution if two terms unify. -/
def unifying (visit : Visitor α) (left right : Term) : Visitor α := fun a s =>
  onSuccess visit a (s.unify left right)

/-- All solutions of the first alternative, then of the next. -/
def inOrder {β : Type} (attempt : β → Visitor α) : List β → Visitor α
  | [], a, s => some ⟨.exhausted, a, s⟩
  | first :: rest, a, s => andThen s (inOrder attempt rest) (attempt first a s)

/-- One solution if a fact, renamed apart, unifies with the goal. -/
def fact (visit : Visitor α) (goal stored : Term) : Visitor α := fun a s =>
  let (candidate, _, supply) := stored.renameApart [] s.platform.supply
  unifying visit goal candidate a (s.withSupply supply)

/-- The solutions of the body of a rule, renamed apart, if its head unifies with the goal. -/
def rule (solve : Term → Visitor α) (goal : Term) (stored : Rule) : Visitor α := fun a s =>
  let (head, names, supply) := stored.head.renameApart [] s.platform.supply
  let (body, _, supply) := stored.body.renameApart names supply
  unifying (solve body) goal head a (s.withSupply supply)

/-- The facts of the goal's group, then its rules. -/
def beliefs (ctx : Context) (visit : Visitor α) (solve : Term → Visitor α) (goal : Term)
    (group : Group) : Visitor α := fun a s =>
  andThen s (inOrder (rule solve goal) (ctx.mind.beliefs.rules group))
    (inOrder (fact visit goal) (ctx.mind.beliefs.lookup group) a s)

/-- One solution if the deed that the steps come to succeeds. -/
def act (ctx : Context) (visit : Visitor α) (steps : View → Script Deed) : Visitor α := fun a s =>
  let (view, s) := Search.look ctx s
  match (steps view).run s with
  | (.error e, s) => some ⟨.failed e, a, s⟩
  | (.ok deed, s) => conclude visit a (deed.perform ctx.mind s)

/-- One solution for each candidate that unifies with the target. -/
def offer (ctx : Context) (visit : Visitor α) (target : Term) (steps : View → Script Offer) :
    Visitor α := fun a s =>
  let (view, s) := Search.look ctx s
  match (steps view).run s with
  | (.error e, s) => some ⟨.failed e, a, s⟩
  | (.ok offer, s) =>
    let (vars, supply) := s.platform.supply.freshVars offer.fresh
    inOrder (unifying visit target) (offer.candidates vars).list a (s.withSupply supply)

/-- Takes a snapshot at each solution. -/
def snapshot (pattern : Term) : Visitor (Renaming × List Term) := fun (names, found) s =>
  let (value, names, supply) := s.scope.freeze pattern names s.platform.supply
  some ⟨.exhausted, (names, value :: found), s.withSupply supply⟩

/-- One solution if the snapshots over all solutions of a goal unify with the result. -/
def collect (visit : Visitor α) (result : Term) (a : α) (start : State) :
    Option (Outcome (Renaming × List Term)) → Option (Outcome α)
  | some ⟨.exhausted, (_, found), s⟩ =>
    unifying visit result (.seq found.reverse) a (start.backtrack s)
  | some ⟨.failed e, _, s⟩ => some ⟨.failed e, a, s⟩
  | _ => none

/-- Is content with the first solution. -/
def content : Visitor Unit := fun _ s => some ⟨.stopped, (), s⟩

/-- One solution, without bindings, if a goal has none. -/
def absence (visit : Visitor α) (a : α) (start : State) :
    Option (Outcome Unit) → Option (Outcome α)
  | some ⟨.exhausted, _, s⟩ => visit a (start.backtrack s)
  | some ⟨.stopped, _, s⟩ => some ⟨.exhausted, a, s⟩
  | some ⟨.failed e, _, s⟩ => some ⟨.failed e, a, s⟩
  | none => none

/-- Visits the solutions of a goal in order. Nothing is known when the fuel does not suffice. -/
def solve (ctx : Context) : Nat → {α : Type} → Visitor α → Term → Visitor α
  | 0, _, _, _, _, _ => none
  | fuel + 1, _, visit, goal, a, s =>
    match (s.scope.walk goal).asked with
    -- Looking at the situation draws a sample and changes nothing else.
    | .truth true => visit a (Search.look ctx s).2
    | .truth false => some ⟨.exhausted, a, (Search.look ctx s).2⟩
    | .both left right => solve ctx fuel (solve ctx fuel visit right) left a s
    | .either left right => andThen s (solve ctx fuel visit right) (solve ctx fuel visit left a s)
    | .absence inner => absence visit a s (solve ctx fuel content inner () s)
    | .equality left right => unifying visit left right a (Search.look ctx s).2
    | .call name args =>
      match ctx.actions.lookup name args.length with
      | none => some ⟨.failed (.raised (.unknownAction name args.length)), a, s⟩
      | some action =>
        match action.plan name args with
        | .act steps => act ctx visit steps a s
        | .offer target steps => offer ctx visit target steps a s
        | .collect pattern inner result =>
          collect visit result a s (solve ctx fuel (snapshot pattern) inner ([], []) s)
    | .belief functor args annots =>
      beliefs ctx visit (solve ctx fuel visit) (.lit functor args annots) ⟨functor, args.length⟩ a s
    | .fault e => some ⟨.failed e, a, s⟩

end Enumeration

end Deliberation
