import Deliberation.Proofs.BeliefIndex
import Deliberation.Proofs.TermEquality
import Mathlib.Data.Option.Basic

/-! The belief base as a ledger: one list of facts and one list of rules, both in the order of their
insertion. The base keeps them by group. What it accepts, what it refuses and what it shows is what
the two lists say. -/
namespace Deliberation

namespace BeliefBase

/-- What can be asked of a belief base that changes it. -/
inductive Change where
  | add (belief : Term)
  | remove (belief : Term)
  | rule (rule : Rule)

/-- The base after a change, unless it is refused. -/
def change? (base : BeliefBase) : Change → Option BeliefBase
  | .add belief => base.add? belief
  | .remove belief => base.remove? belief
  | .rule rule => base.addRule? rule

/-- The base after several changes, of which those that are refused have no effect. -/
def after (base : BeliefBase) (changes : List Change) : BeliefBase :=
  changes.foldl (fun base change => (base.change? change).getD base) base

end BeliefBase

open BeliefBase (Change)

/-- Facts and rules, oldest first. -/
structure Ledger where
  facts : List Term := []
  rules : List Rule := []

namespace Ledger

/-- A literal is added at the end unless the list has an equal one. Of equal ones the first is
removed. -/
def change? (flat : Ledger) : Change → Option Ledger
  | .add belief =>
    if belief.group?.isSome ∧ ∀ fact ∈ flat.facts, fact.equals belief = false then
      some { flat with facts := flat.facts ++ [belief] }
    else none
  | .remove belief =>
    if ∃ fact ∈ flat.facts, fact.equals belief = true then
      some { flat with facts := flat.facts.eraseP fun fact => fact.equals belief }
    else none
  | .rule rule =>
    if rule.head.group?.isSome then some { flat with rules := flat.rules ++ [rule] } else none

def after (flat : Ledger) (changes : List Change) : Ledger :=
  changes.foldl (fun flat change => (flat.change? change).getD flat) flat

end Ledger

namespace BeliefBase

/-- The base holds what is on the ledger, where no two facts are equal. -/
structure Keeps (base : BeliefBase) (flat : Ledger) : Prop where
  facts : base.facts.Files Term.group? flat.facts
  rules : base.ruleIndex.Files (fun rule => rule.head.group?) flat.rules
  different : flat.facts.Pairwise fun a b => a.equals b = false

variable {base : BeliefBase} {flat : Ledger}

/-- Looking under the group of a belief finds all facts that are equal to it. -/
theorem Keeps.any_lookup (keeps : base.Keeps flat) {belief : Term} {g : Group}
    (grouped : belief.group? = some g) :
    ((base.lookup g).any fun fact => fact.equals belief) = true ↔
      ∃ fact ∈ flat.facts, fact.equals belief = true := by
  simp only [lookup, keeps.facts.members, List.any_eq_true, List.mem_filter, decide_eq_true_eq]
  constructor
  · rintro ⟨fact, ⟨member, -⟩, same⟩
    exact ⟨fact, member, same⟩
  · rintro ⟨fact, member, same⟩
    exact ⟨fact, ⟨member, (Term.group?_of_equals same).trans grouped⟩, same⟩

theorem Keeps.add (keeps : base.Keeps flat) (belief : Term) :
    Option.Rel Keeps (base.add? belief) (flat.change? (.add belief)) := by
  cases grouped : belief.group? with
  | none =>
    simp only [add?, Ledger.change?, grouped]
    rw [if_neg (by simp)]
    exact .none
  | some g =>
    have known := keeps.any_lookup grouped
    by_cases old : ∃ fact ∈ flat.facts, fact.equals belief = true
    · have refused : ¬ ∀ fact ∈ flat.facts, fact.equals belief = false := by
        obtain ⟨fact, member, same⟩ := old
        intro new
        simp [new fact member] at same
      simp only [add?, Ledger.change?, grouped]
      rw [if_pos (known.mpr old), if_neg fun both => refused both.2]
      exact .none
    · have new : ∀ fact ∈ flat.facts, fact.equals belief = false := by
        intro fact member
        exact Bool.eq_false_iff.mpr fun same => old ⟨fact, member, same⟩
      simp only [add?, Ledger.change?, grouped]
      rw [if_neg (known.not.mpr old), if_pos ⟨by simp, new⟩]
      apply Option.Rel.some
      refine ⟨keeps.facts.insert grouped, keeps.rules, ?_⟩
      apply List.pairwise_append.mpr ⟨keeps.different, by simp, ?_⟩
      intro fact member other here
      obtain rfl := List.mem_singleton.mp here
      exact new fact member

theorem Keeps.remove (keeps : base.Keeps flat) (belief : Term) :
    Option.Rel Keeps (base.remove? belief) (flat.change? (.remove belief)) := by
  cases grouped : belief.group? with
  | none =>
    have refused : ¬ ∃ fact ∈ flat.facts, fact.equals belief = true := by
      rintro ⟨fact, member, same⟩
      have keyed := keeps.facts.keyed fact member
      rw [Term.group?_of_equals same, grouped] at keyed
      simp at keyed
    simp only [remove?, Ledger.change?, grouped]
    rw [if_neg refused]
    exact .none
  | some g =>
    have known := keeps.any_lookup grouped
    by_cases old : ∃ fact ∈ flat.facts, fact.equals belief = true
    · simp only [remove?, Ledger.change?, grouped]
      rw [if_pos (known.mpr old), if_pos old]
      apply Option.Rel.some
      refine ⟨keeps.facts.erase ?_ (known.mpr old), keeps.rules,
        keeps.different.sublist (List.eraseP_sublist ..)⟩
      intro fact same
      exact (Term.group?_of_equals same).trans grouped
    · simp only [remove?, Ledger.change?, grouped]
      rw [if_neg (known.not.mpr old), if_neg old]
      exact .none

theorem Keeps.rule (keeps : base.Keeps flat) (rule : Rule) :
    Option.Rel Keeps (base.addRule? rule) (flat.change? (.rule rule)) := by
  cases grouped : rule.head.group? with
  | none =>
    simp only [addRule?, Ledger.change?, grouped]
    exact .none
  | some g =>
    simp only [addRule?, Ledger.change?, grouped]
    exact .some ⟨keeps.facts, keeps.rules.insert grouped, keeps.different⟩

/-- Base and ledger accept the same changes, and go on together. -/
theorem Keeps.change (keeps : base.Keeps flat) (change : Change) :
    Option.Rel Keeps (base.change? change) (flat.change? change) := by
  cases change with
  | add belief => exact keeps.add belief
  | remove belief => exact keeps.remove belief
  | rule rule => exact keeps.rule rule

theorem Keeps.after (keeps : base.Keeps flat) (changes : List Change) :
    (base.after changes).Keeps (flat.after changes) := by
  induction changes generalizing base flat with
  | nil => exact keeps
  | cons change rest ih =>
    apply ih
    have related := keeps.change change
    dsimp only
    generalize base.change? change = one at related ⊢
    generalize flat.change? change = other at related ⊢
    cases related with
    | none => exact keeps
    | some next => exact next

theorem start_keeps : Keeps {} {} := ⟨.nothing, .nothing, .nil⟩

theorem groups_increasing (base : BeliefBase) : Group.Increasing base.groups :=
  (Group.foldl_insertSorted _ [] .nil).1

theorem mem_groups (base : BeliefBase) (g : Group) :
    g ∈ base.groups ↔ g ∈ base.facts.groups ∨ g ∈ base.ruleIndex.groups := by
  rw [groups, (Group.foldl_insertSorted _ [] .nil).2]
  simp

/-- After any changes of a base without beliefs there is a ledger of the same changes. Base and
ledger accept and refuse the same further changes, and everything that the base shows is read off
the ledger: facts and rules of a group, their numbers, and the groups in increasing order, which
lead to every fact exactly once. -/
theorem refines_ledger (changes : List Change) :
    let base := after {} changes
    let flat := Ledger.after {} changes
    (∀ change, (base.change? change).isSome = (flat.change? change).isSome ∧
      (base.change? change = none → after {} (changes ++ [change]) = base) ∧
      Ledger.after {} (changes ++ [change]) = (flat.change? change).getD flat) ∧
    (∀ g, base.lookup g = flat.facts.filter fun fact => fact.group? = some g) ∧
    (∀ g, base.rules g = flat.rules.filter fun rule => rule.head.group? = some g) ∧
    (flat.facts.Pairwise fun a b => a.equals b = false ∧ b.equals a = false) ∧
    base.size = flat.facts.length ∧
    base.ruleCount = flat.rules.length ∧
    (base.isEmpty = true ↔ flat.facts = []) ∧
    Group.Increasing base.groups ∧
    (∀ g, g ∈ base.groups ↔ (∃ fact ∈ flat.facts, fact.group? = some g) ∨
      ∃ rule ∈ flat.rules, rule.head.group? = some g) ∧
    (base.groups.flatMap base.lookup).Perm flat.facts := by
  intro base flat
  have keeps : base.Keeps flat := start_keeps.after changes
  refine ⟨?_, keeps.facts.members, keeps.rules.members, ?_, keeps.facts.size, keeps.rules.size,
    keeps.facts.isEmpty_iff, base.groups_increasing, ?_, ?_⟩
  · intro change
    have next : after {} (changes ++ [change]) = (base.change? change).getD base := by
      simp [after, base]
    refine ⟨?_, fun refused => by rw [next, refused, Option.getD_none],
      by simp [Ledger.after, flat]⟩
    have related := keeps.change change
    generalize base.change? change = one at related ⊢
    generalize flat.change? change = other at related ⊢
    cases related <;> rfl
  · apply keeps.different.imp
    intro a b apart
    exact ⟨apart, (Term.equals_comm b a).trans apart⟩
  · intro g
    rw [base.mem_groups, keeps.facts.mem_groups_iff, keeps.rules.mem_groups_iff]
  · apply keeps.facts.perm_flatMap base.groups_increasing.nodup
    intro g member
    exact (base.mem_groups g).mpr (.inl member)

end BeliefBase

end Deliberation
