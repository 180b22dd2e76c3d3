import Deliberation.Dereference
import Deliberation.Supply

/-!
Snapshots of terms. A frozen term holds the values its variables had, and fresh variables where they
had none, so that undoing bindings afterwards cannot change it. Stored beliefs are renamed apart in
the same way.
-/
namespace Deliberation

/-- Which fresh variable stands for which old one, oldest pair first. -/
abbrev Renaming := List (Var × Var)

/-- Gives a variable its replacement, taking a fresh one at the first meeting. -/
def Renaming.cover (state : Renaming × Supply) (v : Var) : Renaming × Supply :=
  match state.1.lookup v with
  | some _ => state
  | none =>
    let (fresh, supply) := state.2.freshVar
    (state.1 ++ [(v, fresh)], supply)

def Term.renamed (t : Term) (names : Renaming) : Term :=
  t.subst fun v => .var ((names.lookup v).getD v)

/--
A snapshot: bound variables give way to their values and each unbound one to a fresh variable, the
same one for the same variable wherever the renaming is shared. Fresh variables are taken in reading
order.
-/
def Scope.freeze (s : Scope) (t : Term) (names : Renaming) (supply : Supply) :
    Term × Renaming × Supply :=
  let value := s.resolve t
  let (names, supply) := value.vars.foldl Renaming.cover (names, supply)
  (value.renamed names, names, supply)

/-- Snapshots of several terms, from left to right, with one renaming. -/
def Scope.freezeAll (s : Scope) : List Term → Renaming → Supply → List Term × Renaming × Supply
  | [], names, supply => ([], names, supply)
  | t :: rest, names, supply =>
    let (value, names, supply) := s.freeze t names supply
    let (values, names, supply) := s.freezeAll rest names supply
    (value :: values, names, supply)

/-- A term with fresh variables in place of its own. -/
def Term.renameApart (t : Term) (names : Renaming) (supply : Supply) : Term × Renaming × Supply :=
  Scope.empty.freeze t names supply

end Deliberation
