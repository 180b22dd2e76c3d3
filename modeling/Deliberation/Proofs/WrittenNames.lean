import Deliberation.Form.Term
import Deliberation.Proofs.TermParts
import Mathlib.Data.List.Pairwise

/-! Written terms and the variables they become. A term is built if none of its atoms and functors
is empty, and then it looks like its form. Its variables are those that the names get when they are
met one after the other, so within one namespace two occurrences become the same variable exactly
where they have the same name and it is not `_`. -/
namespace Deliberation

namespace TermForm

mutual
/-- The names of the variables in reading order, with repetitions. -/
def names : TermForm → List String
  | var name => [name]
  | seq items => namesOfAll items
  | lit _ args annots => namesOfAll args ++ namesOfAll annots
  | _ => []

def namesOfAll : List TermForm → List String
  | [] => []
  | form :: rest => names form ++ namesOfAll rest
end

mutual
/-- The names of the atoms and the functors. -/
def symbols : TermForm → List String
  | atom name => [name]
  | seq items => symbolsOfAll items
  | lit functor args annots => functor :: (symbolsOfAll args ++ symbolsOfAll annots)
  | _ => []

def symbolsOfAll : List TermForm → List String
  | [] => []
  | form :: rest => symbols form ++ symbolsOfAll rest
end

mutual
/-- Whether a term looks like the form, whatever its variables are. An atom is a literal without
arguments and annotations. -/
def shapes : TermForm → Term → Bool
  | var _, .var _ => true
  | atom name, .lit functor [] [] => name == functor
  | int value, .num n => .int value == n
  | float value, .num n => .float value == n
  | str text, .str text' => text == text'
  | seq items, .seq terms => shapesAll items terms
  | lit functor args annots, .lit functor' args' annots' =>
    functor == functor' && shapesAll args args' && shapesAll annots annots'
  | _, _ => false

def shapesAll : List TermForm → List Term → Bool
  | [], [] => true
  | form :: rest, t :: terms => shapes form t && shapesAll rest terms
  | _, _ => false
end

/-- What holds of a form when it holds of the forms inside it holds of every form. -/
@[elab_as_elim]
theorem itemsInduction {motive : TermForm → Prop} (var : ∀ name, motive (.var name))
    (atom : ∀ name, motive (.atom name)) (int : ∀ value, motive (.int value))
    (float : ∀ value, motive (.float value)) (str : ∀ text, motive (.str text))
    (seq : ∀ items, (∀ form ∈ items, motive form) → motive (.seq items))
    (lit : ∀ functor args annots, (∀ form ∈ args, motive form) → (∀ form ∈ annots, motive form) →
      motive (.lit functor args annots)) (form : TermForm) : motive form := by
  refine @TermForm.rec motive (fun items => ∀ form ∈ items, motive form) var atom int float str seq
    lit ?_ ?_ form
  · intro form member
    simp at member
  · intro first rest here later form member
    rcases List.mem_cons.mp member with rfl | behind
    · exact here
    · exact later form behind

end TermForm

/-- Of two occurrences, each a name with its variable: they have the same variable exactly where
they have the same name and it is not `_`. -/
def ToldApart (a b : String × Var) : Prop := a.2 = b.2 ↔ a.1 = b.1 ∧ a.1 ≠ "_"

instance : Std.Symm ToldApart where
  symm a b related := by
    have turned : a.1 = b.1 ∧ a.1 ≠ "_" ↔ b.1 = a.1 ∧ b.1 ≠ "_" := by
      constructor
      · exact fun ⟨same, proper⟩ => ⟨same.symm, same ▸ proper⟩
      · exact fun ⟨same, proper⟩ => ⟨same.symm, same ▸ proper⟩
    exact eq_comm.trans (Iff.trans related turned)

/-- The variables of a list of occurrences with these names. -/
def Named (names : List String) (vars : List Var) : Prop :=
  names.length = vars.length ∧ (names.zip vars).Pairwise ToldApart

namespace Names

/-- The variables for several names, from left to right. -/
def internAll (names : Names) (supply : Supply) : List String → List Var × Names × Supply
  | [] => ([], names, supply)
  | name :: rest =>
    let (v, names, supply) := names.intern supply name
    let (vars, names, supply) := names.internAll supply rest
    (v :: vars, names, supply)

theorem internAll_append {names names' : Names} {supply supply' : Supply} {first second : List String}
    {vars vars' : List Var} {last : Names × Supply}
    (one : names.internAll supply first = (vars, names', supply'))
    (two : names'.internAll supply' second = (vars', last)) :
    names.internAll supply (first ++ second) = (vars ++ vars', last) := by
  induction first generalizing names supply vars with
  | nil =>
    obtain ⟨rfl, rfl, rfl⟩ : [] = vars ∧ names = names' ∧ supply = supply' := by
      simpa [internAll] using one
    exact two
  | cons name rest ih =>
    rcases met : names.intern supply name with ⟨v, table, numbers⟩
    rcases others : table.internAll numbers rest with ⟨vs, table', numbers'⟩
    obtain ⟨rfl, rfl, rfl⟩ : v :: vs = vars ∧ table' = names' ∧ numbers' = supply' := by
      simpa [internAll, met, others] using one
    simp [internAll, met, ih others]

/-- Only variables are taken from the supply. -/
theorem nextIntention_internAll (names : Names) (supply : Supply) (more : List String) :
    (names.internAll supply more).2.2.nextIntention = supply.nextIntention := by
  induction more generalizing names supply with
  | nil => rfl
  | cons name rest ih =>
    have first : (names.intern supply name).2.2.nextIntention = supply.nextIntention := by
      unfold intern
      split <;> rfl
    rw [← first]
    exact ih _ _

/-- The names and variables that have been met are told apart as they should be. The table has the
names, and the variables have been taken from the supply. -/
structure Covers (names : Names) (low next : Nat) (met : List (String × Var)) : Prop where
  table : ∀ name v, names.lookup name = some v ↔ name ≠ "_" ∧ (name, v) ∈ met
  apart : met.Pairwise ToldApart
  taken : ∀ entry ∈ met, low ≤ entry.2.id ∧ entry.2.id < next

variable {names : Names} {supply : Supply} {low : Nat} {met : List (String × Var)}

/-- A name that is known gets the variable it had. -/
theorem Covers.known (covers : names.Covers low supply.nextVar met) {name : String} {v : Var}
    (found : names.lookup name = some v) :
    names.Covers low supply.nextVar (met ++ [(name, v)]) := by
  obtain ⟨named, member⟩ := (covers.table name v).mp found
  refine ⟨?_, ?_, ?_⟩
  · intro other w
    rw [covers.table]
    constructor
    · exact fun ⟨different, inside⟩ => ⟨different, List.mem_append_left _ inside⟩
    · rintro ⟨different, inside⟩
      rcases List.mem_append.mp inside with earlier | last
      · exact ⟨different, earlier⟩
      · obtain ⟨rfl, rfl⟩ : other = name ∧ w = v := by simpa using last
        exact ⟨different, member⟩
  · apply List.pairwise_append.mpr ⟨covers.apart, by simp, ?_⟩
    intro entry earlier last here
    obtain rfl := List.mem_singleton.mp here
    -- The name has been met with this variable before: that occurrence is compared with the rest.
    by_cases same : entry = (name, v)
    · simp [same, ToldApart, named]
    · exact covers.apart.forall earlier member same
  · intro entry inside
    rcases List.mem_append.mp inside with earlier | last
    · exact covers.taken entry earlier
    · obtain rfl := List.mem_singleton.mp last
      exact covers.taken _ member

/-- A name that is not known gets the next variable, and the table has it unless it is `_`. -/
theorem Covers.unknown (covers : names.Covers low supply.nextVar met) {name : String}
    (absent : name = "_" ∨ names.lookup name = none) (below : low ≤ supply.nextVar) :
    Covers (if name = "_" then names else names ++ [(name, supply.freshVar.1)]) low
      supply.freshVar.2.nextVar (met ++ [(name, supply.freshVar.1)]) := by
  have new (entry : String × Var) (earlier : entry ∈ met) : entry.2 ≠ supply.freshVar.1 := by
    intro same
    have bound := (covers.taken entry earlier).2
    rw [same] at bound
    exact Nat.lt_irrefl _ bound
  refine ⟨?_, ?_, ?_⟩
  · intro other w
    simp only [List.mem_append, List.mem_singleton, Prod.mk.injEq]
    by_cases anonymous : name = "_"
    · rw [if_pos anonymous, covers.table]
      constructor
      · exact fun ⟨proper, inside⟩ => ⟨proper, .inl inside⟩
      · rintro ⟨proper, inside | ⟨rfl, -⟩⟩
        · exact ⟨proper, inside⟩
        · exact absurd anonymous proper
    · have free := absent.resolve_left anonymous
      rw [if_neg anonymous, List.lookup_append]
      by_cases same : other = name
      · subst same
        have unmet : (other, w) ∉ met := by
          intro inside
          have found := (covers.table other w).mpr ⟨anonymous, inside⟩
          simp [free] at found
        simp [free, anonymous, unmet, eq_comm]
      · have unequal : (other == name) = false := beq_eq_false_iff_ne.mpr same
        simp [List.lookup_cons, unequal, covers.table, same]
  · apply List.pairwise_append.mpr ⟨covers.apart, by simp, ?_⟩
    intro entry earlier last here
    obtain rfl := List.mem_singleton.mp here
    apply iff_of_false (new entry earlier)
    rintro ⟨same, proper⟩
    have found := (covers.table entry.1 entry.2).mpr ⟨proper, earlier⟩
    rcases absent with rfl | free
    · exact proper same
    · simp [same, free] at found
  · intro entry inside
    rcases List.mem_append.mp inside with earlier | last
    · have bounds := covers.taken entry earlier
      exact ⟨bounds.1, Nat.lt_succ_of_lt bounds.2⟩
    · obtain rfl := List.mem_singleton.mp last
      exact ⟨below, Nat.lt_succ_self _⟩

theorem Covers.intern (covers : names.Covers low supply.nextVar met) (below : low ≤ supply.nextVar)
    (name : String) :
    let (v, names', supply') := names.intern supply name
    names'.Covers low supply'.nextVar (met ++ [(name, v)]) ∧
      supply.nextVar ≤ supply'.nextVar := by
  by_cases anonymous : name = "_"
  · have next := covers.unknown (.inl anonymous) below
    simp only [Names.intern, anonymous, if_true] at next ⊢
    exact ⟨next, Nat.le_succ _⟩
  · cases found : names.lookup name with
    | some v =>
      simp only [Names.intern, anonymous, if_false, found]
      exact ⟨covers.known found, Nat.le_refl _⟩
    | none =>
      have next := covers.unknown (.inr found) below
      simp only [Names.intern, anonymous, if_false, found] at next ⊢
      exact ⟨next, Nat.le_succ _⟩

theorem Covers.internAll (covers : names.Covers low supply.nextVar met)
    (below : low ≤ supply.nextVar) (more : List String) :
    let (vars, names', supply') := names.internAll supply more
    names'.Covers low supply'.nextVar (met ++ more.zip vars) ∧ more.length = vars.length ∧
      supply.nextVar ≤ supply'.nextVar := by
  induction more generalizing names supply met with
  | nil => simpa [Names.internAll] using covers
  | cons name rest ih =>
    obtain ⟨next, grown⟩ := covers.intern below name
    obtain ⟨last, lengths, grown'⟩ := ih next (Nat.le_trans below grown)
    refine ⟨?_, ?_, Nat.le_trans grown grown'⟩
    · simpa [Names.internAll] using last
    · simpa [Names.internAll] using lengths

end Names

/-- The variables of one namespace are named, and all of them are new. -/
theorem Named.of_internAll {names : List String} {supply supply' : Supply} {vars : List Var}
    {table : Names} (interned : Names.internAll [] supply names = (vars, table, supply')) :
    Named names vars ∧ supply.nextVar ≤ supply'.nextVar ∧
      ∀ v ∈ vars, supply.nextVar ≤ v.id ∧ v.id < supply'.nextVar := by
  have start : Names.Covers [] supply.nextVar supply.nextVar [] := ⟨by simp, .nil, by simp⟩
  have covers := start.internAll (Nat.le_refl _) names
  rw [interned] at covers
  obtain ⟨last, lengths, grown⟩ := covers
  refine ⟨⟨lengths, last.apart⟩, grown, ?_⟩
  intro v member
  rw [← List.map_snd_zip (Nat.le_of_eq lengths.symm)] at member
  obtain ⟨entry, inside, rfl⟩ := List.mem_map.mp member
  exact last.taken entry inside

/-- The result is as it should be unless there is a fault, and then there is no result. -/
def Builds {ε α : Type} (fault : Prop) (good : α → Prop) : Except ε α → Prop
  | .ok a => ¬fault ∧ good a
  | .error _ => fault

namespace Builds

variable {ε α β : Type} {fault fault' : Prop} {good : α → Prop} {x : Except ε α}

theorem imp {good' : α → Prop} (builds : Builds fault good x) (same : fault ↔ fault')
    (more : ∀ a, good a → good' a) : Builds fault' good' x := by
  cases x with
  | error e => exact same.mp builds
  | ok a => exact ⟨same.not.mp builds.1, more a builds.2⟩

/-- One thing is built and then another from it. -/
theorem bind {next : α → Except ε β} {last : α → β → Prop} (first : Builds fault good x)
    (second : ∀ a, good a → Builds fault' (last a) (next a)) :
    Builds (fault ∨ fault') (fun b => ∃ a, good a ∧ last a b) (x.bind next) := by
  cases x with
  | error e => exact .inl first
  | ok a =>
    obtain ⟨sound, here⟩ := first
    have later := second a here
    simp only [Except.bind]
    generalize next a = y at later
    cases y with
    | error e => exact .inr later
    | ok b => exact ⟨not_or.mpr ⟨sound, later.1⟩, a, here, later.2⟩

end Builds

namespace TermForm

/-- A term like the form, with the variables that its names get. -/
def Becomes (form : TermForm) (names : Names) (supply : Supply) (r : Term × Names × Supply) :
    Prop :=
  form.shapes r.1 = true ∧ names.internAll supply form.names = (r.1.vars, r.2)

def BecomeAll (forms : List TermForm) (names : Names) (supply : Supply)
    (r : List Term × Names × Supply) : Prop :=
  shapesAll forms r.1 = true ∧
    names.internAll supply (namesOfAll forms) = (r.1.flatMap Term.vars, r.2)

theorem buildAll_becomes (forms : List TermForm)
    (each : ∀ form ∈ forms, ∀ names supply,
      Builds ("" ∈ form.symbols) (form.Becomes names supply) (form.build names supply))
    (names : Names) (supply : Supply) :
    Builds ("" ∈ symbolsOfAll forms) (BecomeAll forms names supply)
      (buildAll forms names supply) := by
  induction forms generalizing names supply with
  | nil => exact ⟨by simp [symbolsOfAll], rfl, rfl⟩
  | cons form rest ih =>
    have later := ih fun form member => each form (List.mem_cons_of_mem _ member)
    have stages : Builds ("" ∈ form.symbols ∨ "" ∈ symbolsOfAll rest ∨ False)
        (fun r => ∃ a, form.Becomes names supply a ∧ ∃ b, BecomeAll rest a.2.1 a.2.2 b ∧
          r = (a.1 :: b.1, b.2)) (buildAll (form :: rest) names supply) :=
      (each form List.mem_cons_self names supply).bind fun a _ =>
        (later a.2.1 a.2.2).bind fun b _ => ⟨not_false, rfl⟩
    apply stages.imp (by simp [symbolsOfAll])
    rintro _ ⟨a, ⟨shaped, interned⟩, b, ⟨shaped', interned'⟩, rfl⟩
    exact ⟨by simp [shapesAll, shaped, shaped'], Names.internAll_append interned interned'⟩

/-- A form becomes a term exactly where none of its atoms and functors is empty. -/
theorem build_becomes (form : TermForm) (names : Names) (supply : Supply) :
    Builds ("" ∈ form.symbols) (form.Becomes names supply) (form.build names supply) := by
  induction form using itemsInduction generalizing names supply with
  | var name => exact ⟨by simp [symbols], rfl, rfl⟩
  | atom name =>
    by_cases blank : name = ""
    · simp [build, blank, Builds, symbols]
    · have written : name.isEmpty = false := by simpa using blank
      have proper : "" ≠ name := Ne.symm blank
      simp only [build, written, Bool.false_eq_true, if_false]
      exact ⟨by simpa [symbols] using proper, by simp [shapes, Term.atom], rfl⟩
  | seq items ih =>
    have stages : Builds ("" ∈ symbolsOfAll items ∨ False)
        (fun r => ∃ a, BecomeAll items names supply a ∧ r = (.seq a.1, a.2))
        ((seq items).build names supply) :=
      (buildAll_becomes items ih names supply).bind fun a _ => ⟨not_false, rfl⟩
    apply stages.imp (by simp [symbols])
    rintro _ ⟨a, ⟨shaped, interned⟩, rfl⟩
    exact ⟨shaped, by rw [Term.vars_seq]; exact interned⟩
  | lit functor args annots ihArgs ihAnnots =>
    by_cases blank : functor = ""
    · simp [build, blank, Builds, symbols, throw, throwThe, MonadExceptOf.throw, Bind.bind,
        Except.bind]
    · have written : functor.isEmpty = false := by simpa using blank
      have named : "" ≠ functor := Ne.symm blank
      have stages : Builds ("" ∈ symbolsOfAll args ∨ "" ∈ symbolsOfAll annots ∨ False)
          (fun r => ∃ a, BecomeAll args names supply a ∧ ∃ b, BecomeAll annots a.2.1 a.2.2 b ∧
            r = (.lit functor a.1 b.1, b.2)) ((lit functor args annots).build names supply) := by
        simp only [build, written, Bool.false_eq_true, if_false]
        exact (buildAll_becomes args ihArgs names supply).bind fun a _ =>
          (buildAll_becomes annots ihAnnots a.2.1 a.2.2).bind fun b _ => ⟨not_false, rfl⟩
      apply stages.imp (by simp [symbols, named])
      rintro _ ⟨a, ⟨shaped, interned⟩, b, ⟨shaped', interned'⟩, rfl⟩
      refine ⟨by simp [shapes, shaped, shaped'], ?_⟩
      rw [Term.vars_lit]
      exact Names.internAll_append interned interned'
  | _ => exact ⟨by simp [symbols], by simp [shapes], rfl⟩

end TermForm

end Deliberation
