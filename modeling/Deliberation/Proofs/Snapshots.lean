import Deliberation.Proofs.Assignment
import Deliberation.Proofs.OwnVariables

/-! Snapshots are consistent renamings. A renaming is handed from one part of a term to the next and
from one snapshot to another, whatever is bound at the time. It grows by one fresh variable for each
variable that it does not know yet, in the order of their first occurrences, and tells all of them
apart. -/
namespace Deliberation

namespace Renaming

variable {names : Renaming}

/-- The variables without a replacement, each where it occurs first. -/
def missing (names : Renaming) (vars : List Var) : List Var :=
  (vars.filter fun v => (names.lookup v).isNone).eraseDups

theorem missing_cons_of_known {v w : Var} (known : names.lookup v = some w) (rest : List Var) :
    names.missing (v :: rest) = names.missing rest := by
  simp [missing, known]

/-- The first variable without a replacement is not missing any more once it has one. -/
theorem missing_cons_of_unknown {v : Var} (unknown : names.lookup v = none) (w : Var)
    (rest : List Var) :
    names.missing (v :: rest) = v :: missing (names ++ [(v, w)]) rest := by
  simp only [missing, List.filter_cons, unknown, Option.isNone_none, if_true, List.eraseDups_cons,
    List.filter_filter]
  refine congrArg (fun left : List Var => v :: left.eraseDups) (List.filter_congr fun u _ => ?_)
  rw [List.lookup_append, List.lookup_cons, List.lookup_nil]
  cases same : u == v <;> simp

theorem mem_missing_iff {vars : List Var} {v : Var} :
    v ∈ names.missing vars ↔ v ∈ vars ∧ names.lookup v = none := by
  simp [missing, List.mem_eraseDups]

theorem lookup_concat_iff {u new v w : Var} (unknown : names.lookup u = none) :
    (names ++ [(u, new)]).lookup v = some w ↔ names.lookup v = some w ∨ v = u ∧ new = w := by
  rw [List.lookup_append, List.lookup_cons, List.lookup_nil]
  by_cases same : v = u
  · subst same
    simp [unknown]
  · have different : (v == u) = false := by simpa using same
    rw [different, Option.or_none]
    simp [same]

/-- The variables that were missing have the next numbers, one after the other. -/
theorem lookup_covers_iff (vars : List Var) (names : Renaming) (supply : Supply) {v w : Var} :
    (vars.foldl cover (names, supply)).1.lookup v = some w ↔
      names.lookup v = some w ∨
        ∃ i, (names.missing vars)[i]? = some v ∧ w = ⟨supply.nextVar + i⟩ := by
  induction vars generalizing names supply with
  | nil => simp [missing]
  | cons u rest ih =>
    rw [List.foldl_cons]
    cases known : names.lookup u with
    | some old =>
      rw [missing_cons_of_known known, ← ih names supply]
      simp only [cover, known]
    | none =>
      rw [missing_cons_of_unknown known supply.freshVar.1]
      simp only [cover, known]
      rw [ih, lookup_concat_iff known, or_assoc]
      refine or_congr_right ?_
      constructor
      · rintro (⟨rfl, rfl⟩ | ⟨i, found, rfl⟩)
        · exact ⟨0, rfl, rfl⟩
        · exact ⟨i + 1, found, by simp [Supply.freshVar]; omega⟩
      · rintro ⟨_ | i, found, rfl⟩
        · exact .inl ⟨by simpa using found.symm, rfl⟩
        · exact .inr ⟨i, found, by simp [Supply.freshVar]; omega⟩

theorem supply_covers (vars : List Var) (names : Renaming) (supply : Supply) :
    (vars.foldl cover (names, supply)).2 =
      { supply with nextVar := supply.nextVar + (names.missing vars).length } := by
  induction vars generalizing names supply with
  | nil => rfl
  | cons u rest ih =>
    rw [List.foldl_cons]
    cases known : names.lookup u with
    | some old =>
      rw [missing_cons_of_known known, ← ih names supply]
      simp only [cover, known]
    | none =>
      rw [missing_cons_of_unknown known supply.freshVar.1]
      simp only [cover, known]
      rw [ih]
      simp [Supply.freshVar, Nat.add_assoc, Nat.add_comm 1]

/-- What becomes of a renaming and of the supply when some variables are covered: the pairs there
are stay, all replacements are distinct, and exactly these variables have been added. Those that
were missing have taken the next numbers in the order of their first occurrences. -/
structure Covers (names : Renaming) (supply : Supply) (vars : List Var) (names' : Renaming)
    (supply' : Supply) : Prop where
  kept : ∀ v w, names.lookup v = some w → names'.lookup v = some w
  injective : ∀ v w u, names'.lookup v = some u → names'.lookup w = some u → v = w
  keys : ∀ v, (∃ w, names'.lookup v = some w) ↔ (∃ w, names.lookup v = some w) ∨ v ∈ vars
  fresh : ∀ v w, names.lookup v = none →
    (names'.lookup v = some w ↔
      ∃ i, (names.missing vars)[i]? = some v ∧ w = ⟨supply.nextVar + i⟩)
  supply : supply' =
    { supply with nextVar := supply.nextVar + (names.missing vars).length }

theorem covers_of_injective {supply : Supply} (vars : List Var)
    (injective : ∀ v w u, names.lookup v = some u → names.lookup w = some u → v = w)
    (below : ∀ v w, names.lookup v = some w → w.id < supply.nextVar) :
    names.Covers supply vars (vars.foldl cover (names, supply)).1
      (vars.foldl cover (names, supply)).2 where
  kept v w known := (lookup_covers_iff vars names supply).mpr (.inl known)
  injective v w u one other := by
    rcases (lookup_covers_iff vars names supply).mp one with old | ⟨i, found, rfl⟩ <;>
      rcases (lookup_covers_iff vars names supply).mp other with old' | ⟨j, found', same⟩
    · exact injective v w u old old'
    · exact absurd (below v u old) (by simp [same])
    · exact absurd (below w _ old') (by simp)
    · obtain rfl : i = j := by simpa using same
      exact Option.some.inj (found.symm.trans found')
  keys v := by
    constructor
    · rintro ⟨w, known⟩
      rcases (lookup_covers_iff vars names supply).mp known with old | ⟨i, found, -⟩
      · exact .inl ⟨w, old⟩
      · exact .inr (mem_missing_iff.mp (List.mem_of_getElem? found)).1
    · rintro (⟨w, old⟩ | member)
      · exact ⟨w, (lookup_covers_iff vars names supply).mpr (.inl old)⟩
      · exact covers_known vars names supply v member
  fresh v w unknown := by rw [lookup_covers_iff, unknown, or_iff_right (by simp)]
  supply := supply_covers vars names supply

end Renaming

namespace Scope

/-- One level of a snapshot. The renaming goes from part to part, arguments before annotations. -/
def freezeLevel (s : Scope) (t : Term) (names : Renaming) (supply : Supply) :
    Term × Renaming × Supply :=
  match s.walk t with
  | .var v =>
    let (names, supply) := Renaming.cover (names, supply) v
    (.var ((names.lookup v).getD v), names, supply)
  | .seq items =>
    let (values, names, supply) := s.freezeAll items names supply
    (.seq values, names, supply)
  | .lit functor args annots =>
    let (args, names, supply) := s.freezeAll args names supply
    let (annots, names, supply) := s.freezeAll annots names supply
    (.lit functor args annots, names, supply)
  | value => (value, names, supply)

/-- A snapshot, which is taken part by part, is the value of the term with its variables renamed.
The renaming covers these variables, and a scope that binds no replacement does not change the
snapshot. -/
theorem freeze_renames (s : Scope) (t : Term) (names : Renaming) (supply : Supply)
    (straight : ∀ v, ¬Relation.TransGen s.Points v v)
    (injective : ∀ v w u, names.lookup v = some u → names.lookup w = some u → v = w)
    (below : ∀ v w, names.lookup v = some w → w.id < supply.nextVar) :
    let (value, names', supply') := s.freeze t names supply
    s.freeze t names supply = s.freezeLevel t names supply ∧
      names.Covers supply (s.resolve t).vars names' supply' ∧
      value = (s.resolve t).subst (fun v => .var ((names'.lookup v).getD v)) ∧
      ∀ s' : Scope, (∀ v w, names'.lookup v = some w → s'.get? w = none) →
        s'.resolve value = value := by
  have covers := Renaming.covers_of_injective (s.resolve t).vars injective below
  refine ⟨freeze_eq (acyclic_iff.mpr straight) t names supply, covers, rfl, fun s' free => ?_⟩
  refine resolve_of_free fun u member => ?_
  rw [Term.renamed, Term.vars_subst] at member
  obtain ⟨v, inside, same⟩ := List.mem_flatMap.mp member
  obtain ⟨w, known⟩ := (covers.keys v).mpr (.inr inside)
  rw [known, Option.getD_some, Term.vars_var, List.mem_singleton] at same
  exact same ▸ free v w known

/-- With `X = f(Y, Z)[Y]` and a replacement for `Z`, a snapshot of `g(X, W)[Z]` names `Y` and `W`
afresh, in this order. -/
theorem freeze_renames_shared :
    let s := Scope.empty.bind ⟨1⟩ (.lit "f" [.var ⟨2⟩, .var ⟨3⟩] [.var ⟨2⟩])
    let t : Term := .lit "g" [.var ⟨1⟩, .var ⟨4⟩] [.var ⟨3⟩]
    let names : Renaming := [(⟨3⟩, ⟨10⟩)]
    let frozen := s.freeze t names { nextVar := 11 }
    frozen.1 = .lit "g" [.lit "f" [.var ⟨11⟩, .var ⟨10⟩] [.var ⟨11⟩], .var ⟨12⟩] [.var ⟨10⟩] ∧
      names.Covers { nextVar := 11 } (s.resolve t).vars frozen.2.1 frozen.2.2 ∧
      s.resolve frozen.1 = frozen.1 := by
  intro s t names frozen
  have acyclic : s.Acyclic := bind_acyclic_of_occurs empty_acyclic rfl rfl
  have entry {v w : Var} (found : names.lookup v = some w) : v = ⟨3⟩ ∧ w = ⟨10⟩ := by
    simpa [names] using Renaming.mem_of_lookup found
  obtain ⟨-, covers, -, still⟩ := freeze_renames s t names { nextVar := 11 }
    (acyclic_iff.mp acyclic)
    (fun v w u one other => (entry one).1.trans (entry other).1.symm)
    (fun v w known => by simp [(entry known).2])
  refine ⟨rfl, covers, still s fun v w known => ?_⟩
  have pairs : (v, w) ∈ [((⟨3⟩ : Var), (⟨10⟩ : Var)), (⟨2⟩, ⟨11⟩), (⟨4⟩, ⟨12⟩)] :=
    Renaming.mem_of_lookup known
  simp only [List.mem_cons, Prod.mk.injEq, List.not_mem_nil, or_false] at pairs
  rcases pairs with ⟨-, rfl⟩ | ⟨-, rfl⟩ | ⟨-, rfl⟩ <;> rfl

end Scope

end Deliberation
