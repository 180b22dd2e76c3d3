import Deliberation.Proofs.CleanCourses
import Deliberation.Proofs.Counting
import Deliberation.Proofs.HeldSolutions
import Deliberation.Proofs.LockstepCourses
import Deliberation.Proofs.Noninterference
import Deliberation.Proofs.OwnVariables
import Deliberation.Proofs.ResolvedUnification
import Deliberation.Proofs.Restoration
import Deliberation.Proofs.Surveys

/-! Collecting solutions. A query that is run for its snapshots goes in step with the same query
driven for its solutions: a snapshot takes variables, and the two runs differ in nothing but numbers
from then on. So the collected terms are what the pattern stands for in each solution, with one
renaming of the variables that are left. -/
namespace Deliberation

variable {P P' : Pairing} {below below' : Trail}

theorem Mind.paired_among {m : Mind} {A : Set Var}
    (stored : ∀ clause, m.Stores clause → ∀ v ∈ clause.vars, v ∈ A) : m.Paired (.among A) m := by
  refine ⟨rfl, trivial, rfl, fun g fact member => ?_, fun g rule member => ⟨?_, ?_⟩⟩
  · exact Term.paired_among_iff.mpr (stored (.fact fact) ⟨g, member⟩)
  · exact Term.paired_among_iff.mpr fun v inside =>
      stored (.rule rule) ⟨g, member⟩ v (List.mem_append_left _ inside)
  · exact Term.paired_among_iff.mpr fun v inside =>
      stored (.rule rule) ⟨g, member⟩ v (List.mem_append_right _ inside)

/-- Uniform actions unify nothing outside of choicepoints. -/
theorem Context.Uniform.tidy {ctx : Context} (uniform : ctx.Uniform) : ctx.Tidy := by
  intro name args action found
  have same : List.Forall₂ (Term.Paired (.among Set.univ)) args args :=
    List.forall₂_same.mpr fun t _ => Term.paired_among_iff.mpr fun v _ => Set.mem_univ v
  obtain ⟨other, plans⟩ : ∃ other, (action.plan name args).InStep (.among Set.univ) other :=
    ⟨_, uniform name _ action found same⟩
  generalize action.plan name args = plan at plans
  cases plans with
  | choices targets alike => exact fun view => trivial
  | _ => trivial

/-- Where one of two states in step gets an answer, the other gets one like it. -/
theorem Query.Resumes.inStep {ctx : Context} (uniform : ctx.Uniform) {q q' next : Query}
    {s s' t : State} {event : Event} (answered : q.Resumes ctx s ⟨.ok event, next, t⟩)
    (mind : ctx.mind.Paired P ctx.mind) (queries : q.Paired P q')
    (states : s.InStep below below' P s') :
    ∃ P' next' t', P.Extends P' ∧ next.Paired P' next' ∧ t.InStep below below' P' t' ∧
      q'.Resumes ctx s' ⟨.ok event, next', t'⟩ := by
  obtain ⟨trace, course⟩ := answered.course
  cases course.mirrored uniform mind (.resume queries) states with
  | replied more nexts after answered' => exact ⟨_, _, _, more, nexts, after, answered'⟩

namespace Renaming

variable {names added : Renaming} {first next : Nat}

/-- Every replacement was taken since the first number, and none twice. -/
structure Taken (first next : Nat) (names : Renaming) : Prop where
  issued : first ≤ next
  distinct : names.Distinct next
  since : names.Over (Var.between first next)

theorem taken_nil {first next : Nat} (issued : first ≤ next) : Taken first next [] :=
  ⟨issued, ⟨List.nodup_nil, nofun⟩, nofun⟩

theorem Taken.later (taken : names.Taken first next) {more : Nat} (grown : next ≤ more) :
    names.Taken first more :=
  ⟨Nat.le_trans taken.issued grown, ⟨taken.distinct.nodup, fun pair member =>
      Var.between_mono (Nat.le_refl _) grown (taken.distinct.below pair member)⟩,
    fun pair member => Var.between_mono (Nat.le_refl _) grown (taken.since pair member)⟩

theorem Taken.covers {supply : Supply} (taken : names.Taken first supply.nextVar)
    (vars : List Var) :
    (vars.foldl cover (names, supply)).1.Taken first
      (vars.foldl cover (names, supply)).2.nextVar := by
  have grown := (before_covers vars (names, supply)).vars
  exact ⟨Nat.le_trans taken.issued grown, taken.distinct.covers vars,
    (taken.later grown).since.covers vars (Var.between_mono taken.issued (Nat.le_refl _))⟩

end Renaming

/-- The snapshot of a term that is paired with a value, all of whose variables are renamed. -/
def Snapshot (P : Pairing) (names : Renaming) (value snapshot : Term) : Prop :=
  ∃ value', value.Paired P value' ∧ (∀ v ∈ value'.vars, ∃ w, names.lookup v = some w) ∧
    snapshot = value'.renamed names

theorem Snapshot.mono (more : P.Extends P') {names : Renaming} (added : Renaming)
    {value snapshot : Term} (taken : Snapshot P names value snapshot) :
    Snapshot P' (names ++ added) value snapshot := by
  obtain ⟨value', values, known, rfl⟩ := taken
  refine ⟨value', values.mono more, fun v member => ?_,
    (Term.renamed_of_extends added value' known).symm⟩
  obtain ⟨w, found⟩ := known v member
  exact ⟨w, Renaming.lookup_of_extends found⟩

/-- A variable stands for the one that replaces its partner. -/
def Pairing.through (P : Pairing) (names : Renaming)
    (injective : ∀ v w u, names.lookup v = some u → names.lookup w = some u → v = w) : Pairing where
  literals _ _ := True
  vars v w := ∃ u, P.vars v u ∧ names.lookup u = some w
  marks _ _ := False
  vars_unique := by
    constructor
    · rintro v v' w ⟨u, same, found⟩ ⟨u', same', found'⟩
      obtain rfl := injective _ _ _ found found'
      exact P.vars_unique.1 same same'
    · rintro v w w' ⟨u, same, found⟩ ⟨u', same', found'⟩
      obtain rfl := P.vars_unique.2 same same'
      exact Option.some.inj (found.symm.trans found')
  marks_unique := nothing_unique

theorem Snapshot.over {names : Renaming} {first next : Nat} (taken : names.Taken first next)
    {value snapshot : Term} (frozen : Snapshot P names value snapshot) :
    snapshot.Over (Var.between first next) := by
  obtain ⟨value', -, known, rfl⟩ := frozen
  refine Term.renamed_over fun v member => ?_
  obtain ⟨w, found⟩ := known v member
  exact ⟨w, taken.since _ (Renaming.mem_of_lookup found), found⟩

/-- All snapshots come from the values by one injective renaming. -/
theorem Snapshot.exists_renaming {α : Type} {names : Renaming} {first next : Nat}
    (taken : names.Taken first next) {value : α → Term} {things : List α} {snapshots : List Term}
    (all : List.Forall₂ (fun thing => Snapshot P names (value thing)) things snapshots) :
    ∃ rename : Var → Var, Function.Injective rename ∧
      (things.map fun thing => (value thing).subst fun v => .var (rename v)) = snapshots ∧
      (Term.seq snapshots).Over (Var.between first next) := by
  have injective : ∀ v w u, names.lookup v = some u → names.lookup w = some u → v = w :=
    fun v w u => taken.distinct.injective
  have bounded : (P.through names injective).Bounded :=
    ⟨next, fun ⟨_, _, found⟩ => (taken.since _ (Renaming.mem_of_lookup found)).2⟩
  obtain ⟨rename, unique, partner⟩ := bounded.exists_renaming
  have renamed {t snapshot : Term} (frozen : Snapshot P names t snapshot) :
      (t.subst fun v => .var (rename v)) = snapshot := by
    obtain ⟨t', terms, known, rfl⟩ := frozen
    refine terms.subst_eq_subst fun v u member same => ?_
    obtain ⟨w, found⟩ := known u ((P.mem_iff terms.vars same).mp member)
    rw [partner ⟨u, same, found⟩, found, Option.getD_some]
  refine ⟨rename, unique, ?_, Term.over_seq_iff.mpr fun snapshot member => ?_⟩
  · rw [← List.forall₂_eq_eq_eq, List.forall₂_map_left_iff]
    exact all.imp fun thing snapshot frozen => renamed frozen
  · obtain ⟨i, bound, rfl⟩ := List.getElem_of_mem member
    exact (all.get (all.length_eq ▸ bound) bound).over taken

/-- A snapshot in the second of two states in step. It takes variables there, and none in the
first. -/
theorem Snapshot.of_freeze {s s' : State} (states : s.InStep below below' P s')
    {pattern pattern' : Term} (patterns : pattern.Paired P pattern') {names names' : Renaming}
    {first : Nat} (taken : names.Taken first s'.nextVar) {snapshot : Term} {supply : Supply}
    (frozen : s'.scope.freeze pattern' names s'.platform.supply = (snapshot, names', supply)) :
    ∃ fresh, names' = names ++ fresh ∧ names'.Taken first supply.nextVar ∧
      Snapshot P names' (s.scope.resolve pattern) snapshot ∧
      s.InStep below below' P (s'.withSupply supply) := by
  have before := s'.scope.before_freeze pattern' names s'.platform.supply
  have covered := taken.covers (s'.scope.resolve pattern').vars
  have known := Renaming.covers_known (s'.scope.resolve pattern').vars names s'.platform.supply
  have extended := Renaming.covers_extends (s'.scope.resolve pattern').vars names
    s'.platform.supply
  rw [frozen] at before
  rw [Scope.freeze] at frozen
  dsimp only at frozen
  obtain ⟨rfl, rfl, rfl⟩ : _ ∧ _ ∧ _ := by simpa only [Prod.mk.injEq] using frozen
  obtain ⟨fresh, extended⟩ := extended
  exact ⟨fresh, extended, covered, ⟨_, states.scope.resolve patterns, known, rfl⟩,
    states.takes (.refl P) (states.fits.grow (.refl _) before) (.refl _)⟩

namespace Query

variable {ctx : Context} {q q' : Query} {s s' t : State} {states : List State}

theorem Resumes.later {reply : Reply Query} (answered : q.Resumes ctx s reply) :
    s.Later reply.state := by
  obtain ⟨limit, resumed⟩ := answered
  exact resume_later ctx limit q s reply resumed

/-- A run to the end goes in step with one that collects a snapshot of each solution. -/
theorem Solves.collects (uniform : ctx.Uniform) (solves : q.Solves ctx s states t)
    (mind : ctx.mind.Paired P ctx.mind) (queries : q.Paired P q')
    (inStep : s.InStep below below' P s') {pattern pattern' : Term}
    (patterns : pattern.Paired P pattern') {first : Nat} {names : Renaming}
    (taken : names.Taken first s'.nextVar) (found : List Term) :
    ∃ P' added values t', P.Extends P' ∧ t.InStep below below' P' t' ∧
      Renaming.Taken first t'.nextVar (names ++ added) ∧
      List.Forall₂ (fun u => Snapshot P' (names ++ added) (u.scope.resolve pattern)) states values ∧
      Gathers ctx pattern' q' names found s' (.ok (found.reverse ++ values), t') := by
  induction solves generalizing P q' s' names found with
  | exhausted answered =>
    obtain ⟨P', next', t', more, -, after, answered'⟩ := answered.inStep uniform mind queries inStep
    refine ⟨P', [], [], t', more, after, ?_, .nil, ?_⟩
    · rw [List.append_nil]
      exact taken.later answered'.later.supply.vars
    · rw [List.append_nil]
      exact gathers_exhausted answered'
  | suspended answered rest ih =>
    obtain ⟨P₁, next', s₁', more, nexts, after, answered'⟩ :=
      answered.inStep uniform mind queries inStep
    have grown := answered'.later.supply.vars
    obtain ⟨P', added, values, t', more', ended, takenAll, snapshots, gathers⟩ :=
      ih (mind.mono more) nexts after (patterns.mono more) (taken.later grown) found
    exact ⟨P', added, values, t', more.trans more', ended, takenAll, snapshots,
      gathers_suspended answered' gathers⟩
  | @solution q next s s₁ t states answered rest ih =>
    obtain ⟨P₁, next', s₁', more, nexts, after, answered'⟩ :=
      answered.inStep uniform mind queries inStep
    have grown := answered'.later.supply.vars
    obtain ⟨⟨snapshot, names₁, supply⟩, frozen⟩ : ∃ taken, _ = taken :=
      ⟨s₁'.scope.freeze pattern' names s₁'.platform.supply, rfl⟩
    obtain ⟨fresh, rfl, takenMore, snapped, apart⟩ := Snapshot.of_freeze after (patterns.mono more)
      (taken.later grown) frozen
    obtain ⟨P', added, values, t', more', ended, takenAll, snapshots, gathers⟩ :=
      ih (mind.mono more) nexts apart (patterns.mono more) takenMore (snapshot :: found)
    rw [List.append_assoc] at takenAll snapshots
    refine ⟨P', fresh ++ added, snapshot :: values, t', more.trans more', ended, takenAll,
      .cons ?_ snapshots, gathers_solution answered' frozen ?_⟩
    · rw [← List.append_assoc]
      exact snapped.mono more' added
    · rwa [List.reverse_cons, List.append_assoc] at gathers

/-- All variables that have been handed out stand for themselves. -/
theorem inStep_mark (laid : ∀ c, .mark c ∈ s.trail → c.id < s.nextMark) {goal : Term}
    (issued : Issued goal s) :
    s.InStep s.trail s.mark.2.trail (.among (Var.between 0 s.nextVar)) s.mark.2 := by
  refine ⟨⟨rfl, rfl, rfl, rfl, rfl⟩, ⟨[], [], rfl, rfl, ⟨?_, .nil⟩, ?_, fun no => no.elim⟩,
    fun c member => ⟨laid c member, fun _ => id⟩⟩
  · exact Scope.paired_among_iff.mpr issued.scope_over
  · rintro v w ⟨rfl, known⟩
    exact ⟨known.2, known.2⟩

/-- Take a state whose variables and choicepoints have all been handed out, actions that are uniform,
as the standard ones are, and a goal whose solutions end without an error and without a drop of all
bindings. The call that collects a pattern over the solutions comes down to unifying its result with
what the pattern stands for in each of them, in the state in which the call began. Variables that are
left there are renamed to new ones, all by the same injective renaming, and nothing that is undone
later changes the collected values. -/
theorem findall_collects {call pattern goal result : Term} {annots : List Term}
    {limit rounds n : Nat} {last : Query} (uniform : ctx.Uniform)
    (known : ctx.actions.lookup ".findall" 3 = Library.standard.lookup ".findall" 3)
    (called : s.scope.walk call = .lit ".findall" [pattern, goal, result] annots)
    (issued : Issued call s)
    (stored : ∀ clause, ctx.mind.Stores clause → ∀ v ∈ clause.vars, v.id < s.nextVar)
    (laid : ∀ c, .mark c ∈ s.trail → c.id < s.nextMark)
    (driven : (Query.new goal).survey ctx limit note rounds 0 [] s =
      some ⟨.ok n, states, last, t⟩)
    (kept : t.resets = s.resets) :
    ∃ names : Var → Var, Function.Injective names ∧
      let values := states.map fun u => (u.scope.resolve pattern).subst fun v => .var (names v)
      (∀ value ∈ values, ∀ v ∈ value.vars, s.nextVar ≤ v.id) ∧
      ∃ first, (Query.new call).Resumes ctx s first ∧
        UnifiesOnce ctx s result (.seq values) first ∧
        ∀ c back, first.state.reroll c = .ok back →
          back.scope.resolve (.seq values) = .seq values := by
  obtain ⟨_, rfl, -, solves⟩ := solves_of_survey driven
  have parts := issued.scope_over.walk issued.goal_over
  rw [called] at parts
  have patterns := Term.paired_among_iff.mpr (parts.arg (t := pattern) (by simp))
  have goals := Term.paired_among_iff.mpr (parts.arg (t := goal) (by simp))
  have mind : ctx.mind.Paired (.among (Var.between 0 s.nextVar)) ctx.mind :=
    Mind.paired_among fun clause member v inside => ⟨Nat.zero_le _, stored clause member v inside⟩
  obtain ⟨P, names, values, t', -, ended, taken, snapshots, n, gathered⟩ :=
    solves.collects uniform mind (.pending goals) (inStep_mark laid issued) patterns
      (Renaming.taken_nil (Nat.le_refl s.nextVar)) []
  obtain ⟨rename, injective, rfl, fresh⟩ := Snapshot.exists_renaming taken snapshots
  -- The run has been undone when the result is unified.
  have returned : State.Returns s.mark.2 t' :=
    (Search.gather_settles (resume_keeps (.restoring uniform.tidy) n) pattern n _ _ _ _
      (new_anchored (.restoring uniform.tidy) goal s.mark.2) _ _ gathered).1 _ rfl
  obtain ⟨first, answered, once⟩ := UnifiesOnce.of_mimics (mimics_call called (by decide) known)
    ⟨_, collect_gathered ⟨n, gathered⟩,
      holdOrUndo_unifiesOnce returned (ended.resets.trans kept)⟩
  refine ⟨rename, injective, fun value member v inside => ?_, first, answered, once,
    fun c back rerolled => ?_⟩
  · exact (Term.over_seq_iff.mp fresh value member v inside).1
  · obtain ⟨records, undone⟩ := once.undone c back rerolled
    rw [undone]
    exact (issued.scope_over.undo records).resolve_of_later fresh

/-- Two facts with a variable each, which gives snapshots with new variables. -/
theorem findall_collects_open_facts :
    let goal : Term := .lit "foo" [.var ⟨3⟩, .var ⟨5⟩] []
    let pattern : Term := .seq [.var ⟨3⟩, .var ⟨5⟩]
    let call : Term := .lit ".findall" [pattern, goal, .var ⟨4⟩] []
    ∃ one two last t, (Query.new goal).survey openFacts 5 note 4 0 [] .sample =
        some ⟨.ok 2, [one, two], last, t⟩ ∧
      ∃ names : Var → Var, Function.Injective names ∧
        let values := [one, two].map fun u =>
          (u.scope.resolve pattern).subst fun v => .var (names v)
        (∀ value ∈ values, ∀ v ∈ value.vars, 10 ≤ v.id) ∧
        ∃ first, (Query.new call).Resumes openFacts .sample first ∧
          UnifiesOnce openFacts .sample (.var ⟨4⟩) (.seq values) first ∧
          ∀ c back, first.state.reroll c = .ok back →
            back.scope.resolve (.seq values) = .seq values := by
  intro goal pattern call
  obtain ⟨one, two, last, t, driven, kept⟩ : ∃ one two last t,
      (Query.new goal).survey openFacts 5 note 4 0 [] .sample =
        some ⟨.ok 2, [one, two], last, t⟩ ∧ t.resets = State.sample.resets :=
    ⟨_, _, _, _, rfl, rfl⟩
  have stored : ∀ clause, openFacts.mind.Stores clause → ∀ v ∈ clause.vars, v.id < 10 :=
    Mind.forall_stored (by decide) (by decide)
  have laid : ∀ c, .mark c ∈ State.sample.trail → c.id < 2 := by
    intro c member
    obtain rfl : c = ⟨1⟩ := by simpa [State.sample, State.trail] using member
    decide
  refine ⟨one, two, last, t, driven, ?_⟩
  refine findall_collects ?_ rfl rfl ⟨?_, ?_⟩ stored laid driven kept
  · exact Context.uniform_of_standard fun _ _ _ => id
  · decide
  · decide

end Query

end Deliberation
