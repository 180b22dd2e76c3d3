import Deliberation.Freeze

/-!
Written terms: variables go by name. Within one namespace equal names stand for the same variable,
except that `_` is a new variable at every occurrence.
-/
namespace Deliberation

inductive TermForm where
  | var (name : String)
  | atom (name : String)
  | int (value : Int64)
  | float (value : Double)
  | str (text : String)
  | seq (items : List TermForm)
  | lit (functor : String) (args annots : List TermForm)
deriving Inhabited

abbrev Names := List (String × Var)

/-- The variable for a name, taken from the supply when the name is new. -/
def Names.intern (names : Names) (supply : Supply) (name : String) : Var × Names × Supply :=
  match (if name = "_" then none else names.lookup name) with
  | some v => (v, names, supply)
  | none =>
    let (v, supply) := supply.freshVar
    (v, if name = "_" then names else names ++ [(name, v)], supply)

namespace TermForm

mutual
/-- The term of a form. Names are met from left to right, arguments before annotations; atoms and
functors must not be empty. -/
def build : TermForm → Names → Supply → Except TermFault (Term × Names × Supply)
  | var name, names, supply =>
    let (v, names, supply) := names.intern supply name
    .ok (.var v, names, supply)
  | atom name, names, supply =>
    if name.isEmpty then .error .emptyAtom else .ok (.atom name, names, supply)
  | int value, names, supply => .ok (.num (.int value), names, supply)
  | float value, names, supply => .ok (.num (.float value), names, supply)
  | str text, names, supply => .ok (.str text, names, supply)
  | seq items, names, supply => do
    let (items, names, supply) ← buildAll items names supply
    return (.seq items, names, supply)
  | lit functor args annots, names, supply => do
    if functor.isEmpty then throw .emptyFunctor
    let (args, names, supply) ← buildAll args names supply
    let (annots, names, supply) ← buildAll annots names supply
    return (.lit functor args annots, names, supply)

def buildAll : List TermForm → Names → Supply → Except TermFault (List Term × Names × Supply)
  | [], names, supply => .ok ([], names, supply)
  | form :: rest, names, supply => do
    let (t, names, supply) ← build form names supply
    let (ts, names, supply) ← buildAll rest names supply
    return (t :: ts, names, supply)
end

def buildAlone (form : TermForm) (supply : Supply) : Except TermFault (Term × Supply) := do
  let (t, _, supply) ← form.build [] supply
  return (t, supply)

end TermForm

end Deliberation
