import Deliberation.Proofs.Descent
import Deliberation.Proofs.UndoRuns

/-! Scopes stay acyclic over whole runs of operations on bindings, so that reading through them ends
at every term. -/
namespace Deliberation

/-- The readers satisfy the recursion through the bindings that knows no bound: each looks at what a
term stands for and reads on at the parts of that. -/
structure Scope.ReadByRecursion (s : Scope) : Prop where
  walk_bound : ∀ v value, s.get? v = some value → s.walk (.var v) = s.walk value
  walk_unbound : ∀ v, s.get? v = none → s.walk (.var v) = .var v
  walk_compound : ∀ t, (∀ v, t ≠ .var v) → s.walk t = t
  occurs : ∀ v t, s.occurs v t = match s.walk t with
    | .var u => u == v
    | value => value.parts.any (s.occurs v)
  isGround : ∀ t, s.isGround t = match s.walk t with
    | .var _ => false
    | value => value.parts.all s.isGround
  grounded : ∀ t, s.grounded t = match s.walk t with
    | .var _ => .error (.raised (.instantiation t))
    | .seq items => (items.mapM s.grounded).map .seq
    | .lit functor args annots => do
      let args ← args.mapM s.grounded
      let annots ← annots.mapM s.grounded
      return .lit functor args annots
    | value => .ok value
  resolve : ∀ t, s.resolve t = match s.walk t with
    | .seq items => .seq (items.map s.resolve)
    | .lit functor args annots => .lit functor (args.map s.resolve) (annots.map s.resolve)
    | value => value
  freeze : ∀ t names supply, s.freeze t names supply = match s.walk t with
    | .var v =>
      let (names, supply) := Renaming.cover (names, supply) v
      (.var ((names.lookup v).getD v), names, supply)
    | .seq items =>
      let (values, names, supply) := s.freezeAll items names supply
      (.seq values, names, supply)
    | .lit functor args annots =>
      let (args, names, supply) := s.freezeAll args names supply
      let (annots, names, supply) := s.freezeAll annots names supply
      (.lit functor args annots, names, supply)
    | value => (value, names, supply)

theorem Scope.Acyclic.readByRecursion {s : Scope} (acyclic : s.Acyclic) : s.ReadByRecursion where
  walk_bound _ _ := walk_of_bound acyclic
  walk_unbound _ := walk_of_unbound
  walk_compound _ := walk_of_not_var
  occurs := occurs_eq acyclic
  isGround := isGround_eq acyclic
  grounded := grounded_eq acyclic
  resolve := resolve_eq acyclic
  freeze := freeze_eq acyclic

/--
Whatever is unified, marked, rerolled and dropped, from no bindings on: no chain of bindings leads
from a variable back to it. So neither can a walk hop from binding to binding forever, nor can a
reader go on forever from a term to the parts of what it stands for, and the recursion of every
reader through the bindings comes to its end at every term, with the value that the reader gives.
-/
theorem State.scope_stays_acyclic (id : IntentionId) (platform : Platform)
    (operations : List Operation) :
    let s := ((start id platform).after operations).scope
    (∀ v, ¬Relation.TransGen s.Points v v) ∧
    (WellFounded fun value t => s.Hops t value) ∧
    (WellFounded fun part t => s.Descends t part) ∧
    s.ReadByRecursion := by
  intro s
  have acyclic : s.Acyclic := (after_consistent (start_consistent id platform) operations).acyclic
  exact ⟨acyclic.no_cycle, Scope.hops_end acyclic, Scope.descents_end acyclic,
    acyclic.readByRecursion⟩

end Deliberation
