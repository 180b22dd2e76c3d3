import Deliberation.Term.Text

/-!
The belief base of an agent: facts and rules indexed by the group of the literal that is believed or
concluded. Members of a group keep their insertion order, which is the order of enumeration.
-/
namespace Deliberation

/-- A rule: the head holds where the goal in the body does. -/
structure Rule where
  head : Term
  body : Term

def Rule.text (r : Rule) : String := r.head.text ++ " :- " ++ r.body.text

/-- Members by group. A group is present exactly when it has members. -/
abbrev Index (α : Type) := List (Group × List α)

namespace Index

variable {α : Type}

def members (index : Index α) (g : Group) : List α := (index.lookup g).getD []

def insert (g : Group) (a : α) : Index α → Index α
  | [] => [(g, [a])]
  | (h, as) :: rest => if h = g then (h, as ++ [a]) :: rest else (h, as) :: insert g a rest

/-- Replaces the members of a present group, dropping the group when none are left. -/
def replace (g : Group) (members : List α) : Index α → Index α
  | [] => []
  | (h, as) :: rest =>
    if h = g then (if members.isEmpty then rest else (h, members) :: rest)
    else (h, as) :: replace g members rest

def groups (index : Index α) : List Group := index.map (·.1)

def count (index : Index α) : Nat := index.foldr (fun entry n => entry.2.length + n) 0

@[simp] theorem members_nil (g : Group) : members ([] : Index α) g = [] := rfl

@[simp] theorem members_insert_self (index : Index α) (g : Group) (a : α) :
    (index.insert g a).members g = index.members g ++ [a] := by
  induction index with
  | nil => simp [insert, members]
  | cons entry rest ih =>
    obtain ⟨h, as⟩ := entry
    by_cases same : h = g
    · subst same
      simp [insert, members]
    · have unequal : (g == h) = false := beq_eq_false_iff_ne.mpr (Ne.symm same)
      simpa [insert, members, same, List.lookup_cons, unequal] using ih

theorem members_insert_of_ne (index : Index α) {g h : Group} (a : α) (different : h ≠ g) :
    (index.insert g a).members h = index.members h := by
  induction index with
  | nil =>
    have unequal : (h == g) = false := beq_eq_false_iff_ne.mpr different
    simp [insert, members, List.lookup_cons, unequal]
  | cons entry rest ih =>
    obtain ⟨k, as⟩ := entry
    by_cases same : k = g
    · subst same
      have unequal : (h == k) = false := beq_eq_false_iff_ne.mpr different
      simp [insert, members, List.lookup_cons, unequal]
    · by_cases here : h = k
      · subst here
        simp [insert, members, same]
      · have unequal : (h == k) = false := beq_eq_false_iff_ne.mpr here
        simpa [insert, members, same, List.lookup_cons, unequal] using ih

@[simp] theorem count_insert (index : Index α) (g : Group) (a : α) :
    (index.insert g a).count = index.count + 1 := by
  induction index with
  | nil => rfl
  | cons entry rest ih =>
    obtain ⟨h, as⟩ := entry
    simp only [count] at ih
    by_cases same : h = g
    · simp only [insert, same, if_true, count, List.foldr_cons, List.length_append,
        List.length_singleton]
      omega
    · simp only [insert, same, if_false, count, List.foldr_cons, ih]
      omega

end Index

def Group.insertSorted (g : Group) : List Group → List Group
  | [] => [g]
  | h :: rest =>
    match g.order h with
    | .lt => g :: h :: rest
    | .eq => h :: rest
    | .gt => h :: insertSorted g rest

structure BeliefBase where
  facts : Index Term := []
  ruleIndex : Index Rule := []

namespace BeliefBase

def lookup (base : BeliefBase) (g : Group) : List Term := base.facts.members g

/-- Rules that conclude literals of a group, in insertion order. -/
def rules (base : BeliefBase) (g : Group) : List Rule := base.ruleIndex.members g

/-- Adds a literal unless an equal one, annotations included, is believed already. -/
def add? (base : BeliefBase) (belief : Term) : Option BeliefBase :=
  match belief.group? with
  | none => none
  | some g =>
    if (base.lookup g).any fun fact => fact.equals belief then none
    else some { base with facts := base.facts.insert g belief }

/-- Removes the first fact equal to a literal. -/
def remove? (base : BeliefBase) (belief : Term) : Option BeliefBase :=
  match belief.group? with
  | none => none
  | some g =>
    let facts := base.lookup g
    if facts.any fun fact => fact.equals belief then
      some { base with
        facts := base.facts.replace g (facts.eraseP fun fact => fact.equals belief) }
    else none

def addRule? (base : BeliefBase) (rule : Rule) : Option BeliefBase :=
  match rule.head.group? with
  | none => none
  | some g => some { base with ruleIndex := base.ruleIndex.insert g rule }

/-- Every group with a fact or a rule, in increasing order. -/
def groups (base : BeliefBase) : List Group :=
  (base.facts.groups ++ base.ruleIndex.groups).foldl (fun sorted g => g.insertSorted sorted) []

def size (base : BeliefBase) : Nat := base.facts.count

/-- Whether there are no facts; rules do not count. -/
def isEmpty (base : BeliefBase) : Bool := base.facts.isEmpty

def ruleCount (base : BeliefBase) : Nat := base.ruleIndex.count

end BeliefBase

end Deliberation
