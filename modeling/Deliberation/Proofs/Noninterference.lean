import Deliberation.Proofs.Histories
import Deliberation.Proofs.PairedResumption

/-! Intentions do not interfere. What is reported of an intention in a run of a system is what its
query shows when it is resumed alone, up to the numbers of variables that are taken on the way:
other intentions, deadlines and the schedule decide only how far it comes. -/
namespace Deliberation

/-- The same report up to the numbers of variables, or errors of the same kind. -/
inductive Report.Paired (P : Pairing) : Report → Report → Prop where
  | solution {value value' : Term} (values : value.Paired P value') :
      Paired P (.solution value) (.solution value')
  | completed (solutions : Nat) : Paired P (.completed solutions) (.completed solutions)
  | failed : Paired P .failed .failed
  | aborted {e e' : EngineError} (kind : e.code = e'.code) : Paired P (.aborted e) (.aborted e')
  | panicked : Paired P .panicked .panicked

variable {P P' : Pairing}

theorem Report.Paired.mono (more : P.Extends P') {report report' : Report}
    (paired : report.Paired P report') : report.Paired P' report' := by
  cases paired with
  | solution values => exact .solution (values.mono more)
  | completed solutions => exact .completed solutions
  | failed => exact .failed
  | aborted kind => exact .aborted kind
  | panicked => exact .panicked

/-- A policy makes the same of the same event. -/
theorem Policy.history_paired (policy : Policy) {goal : Term} (goals : goal.Paired P goal) (n : Nat)
    (event : Event) (next next' : Query) {s s' : State} (states : s.Paired P s') :
    List.Forall₂ (Report.Paired P) (policy.history goal n [⟨.ok event, next, s⟩])
      (policy.history goal n [⟨.ok event, next', s'⟩]) := by
  cases event with
  | solution =>
    cases policy with
    | first => exact .cons (.completed 1) .nil
    | all => exact .cons (.solution (states.bindings.scope.resolve goals)) .nil
  | suspended => exact .nil
  | exhausted =>
    refine .cons ?_ .nil
    split
    · exact .completed n
    · exact .failed

/-- A policy makes the same of errors of one kind, and of panics. -/
theorem Policy.history_halted (policy : Policy) (goal : Term) (n : Nat) {e e' : Halt}
    (kind : e.kind = e'.kind) (next next' : Query) (s s' : State) :
    List.Forall₂ (Report.Paired P) (policy.history goal n [⟨.error e, next, s⟩])
      (policy.history goal n [⟨.error e', next', s'⟩]) := by
  cases e <;> cases e' <;> simp only [Halt.kind, Option.some.injEq, reduceCtorEq] at kind
  · exact .cons (.aborted kind) .nil
  · exact .cons .panicked .nil

/-- The right-hand numbers end somewhere. -/
def Pairing.Bounded (P : Pairing) : Prop := ∃ bound, ∀ {v w}, P.vars v w → w.id < bound

theorem State.Paired.bounded {s s' : State} (states : s.Paired P s') : P.Bounded :=
  ⟨_, fun same => (states.fits.vars same).2⟩

/-- A commitment and a query on its own have come to the same point: the query goes on as one that
is paired with that of the commitment. -/
def Commitment.Meets (c : Commitment) (p : Platform) (ctx : Context) (P : Pairing) (q : Query)
    (s : State) : Prop :=
  ∃ q' s', q.Mimics ctx s q' s' ∧ c.query.Paired P q' ∧ State.Paired P ⟨c.intention, p⟩ s'

/-- On its own a query shows replies of which the policy of a commitment makes the given reports, up
to numbers. -/
def Commitment.Accounts (c : Commitment) (reports : List Report) (ctx : Context)
    (pause : State → State) (P : Pairing) (q : Query) (s : State) : Prop :=
  ∃ P' replies, P.Extends P' ∧ P'.Bounded ∧ q.Shows ctx pause s replies ∧
    List.Forall₂ (Report.Paired P') reports (c.policy.history c.goal c.solutions replies)

namespace Commitment

variable {c : Commitment} {p p' : Platform} {ctx : Context} {q : Query} {s : State}

theorem Meets.later (meets : c.Meets p ctx P q s) (grown : p.supply.Before p'.supply) :
    c.Meets p' ctx P q s := by
  obtain ⟨q', s', mimics, queries, states⟩ := meets
  exact ⟨q', s', mimics, queries, states.later ⟨rfl, grown⟩ (.refl s')⟩

theorem Meets.bounded (meets : c.Meets p ctx P q s) : P.Bounded := by
  obtain ⟨q', s', -, -, states⟩ := meets
  exact states.bounded

/-- The query alone echoes what the query of the commitment answers. -/
theorem Meets.echo (meets : c.Meets p ctx P q s) {own : Context} (contexts : own.Paired P ctx)
    {start : State} (undisturbed : State.Undisturbed ⟨c.intention, p⟩ start) {reply : Reply Query}
    (resumes : c.query.Resumes own start reply) : Query.Echo ctx P reply q s := by
  obtain ⟨q', s', mimics, queries, states⟩ := meets
  obtain ⟨limit, resumed⟩ := resumes
  have later := states.later undisturbed (.refl s')
  exact .of_mimics mimics (Query.resume_echoed own ctx limit contexts queries later resumed)

theorem Accounts.nothing (bounded : P.Bounded) (pause : State → State) :
    c.Accounts [] ctx pause P q s :=
  ⟨P, [], .refl P, bounded, .nothing, .nil⟩

/-- A suspension alone adds nothing to the account. -/
theorem Accounts.of_suspended {reports : List Report} {pause : State → State} {next : Query}
    {s' : State} (answered : q.Resumes ctx s ⟨.ok .suspended, next, s'⟩)
    (later : c.Accounts reports ctx pause P next (pause s')) :
    c.Accounts reports ctx pause P q s := by
  obtain ⟨P', replies, more, bounded, shows, alike⟩ := later
  exact ⟨P', _, more, bounded, .more answered shows, alike⟩

/-- The account of a commitment is that of its next reply and of what it becomes then, if it goes
on. -/
theorem Accounts.of_echo {pause : State → State} (paused : ∀ s, State.Undisturbed s (pause s))
    (goals : c.goal.Paired P c.goal) (bounded : P.Bounded) {reply : Reply Query}
    (echo : Query.Echo ctx P reply q s) {reports : List Report}
    (onward : c.policy.goesOn reply.result = true → ∀ {P' q s q' s'}, P.Extends P' →
      q.Mimics ctx s q' s' → reply.next.Paired P' q' → reply.state.Paired P' s' →
      { c with solutions := c.solutions + reply.found }.Accounts reports ctx pause P' q s)
    (ended : c.policy.goesOn reply.result = false → reports = []) :
    c.Accounts (c.policy.history c.goal c.solutions [reply] ++ reports) ctx pause P q s := by
  refine Query.Eventually.elim paused
    (motive := c.Accounts (c.policy.history c.goal c.solutions [reply] ++ reports) ctx pause P)
    echo ?_ .of_suspended
  intro q s reached
  cases reached with
  | lags mimics more nexts states =>
    -- Only the commitment has given control back, so nothing is shown for this reply.
    obtain ⟨P', replies, more', account⟩ := onward rfl more mimics nexts states
    exact ⟨P', replies, more.trans more', account⟩
  | answers answered paired =>
    cases paired with
    | error kind =>
      rw [ended rfl, List.append_nil]
      exact ⟨P, [_], .refl P, bounded, .more answered .nothing, c.policy.history_halted _ _ kind ..⟩
    | @ok P' event next next' t t' more nexts states =>
      have here := c.policy.history_paired (goals.mono more) c.solutions event next next' states
      cases goesOn : c.policy.goesOn (.ok event) with
      | false =>
        rw [ended goesOn, List.append_nil]
        exact ⟨P', [_], more, states.bounded, .more answered .nothing, here⟩
      | true =>
        obtain ⟨P'', replies, more', bounded', shows, alike⟩ := onward goesOn more
          (Query.Mimics.refl ctx next' (pause t')) nexts (states.later (.refl t) (paused t'))
        refine ⟨P'', ⟨.ok event, next', t'⟩ :: replies, more.trans more', bounded',
          .more answered shows, ?_⟩
        rw [c.policy.history_cons c.goal c.solutions _ replies, if_pos goesOn]
        exact List.rel_append (here.imp fun _ _ => Report.Paired.mono more') alike

end Commitment

namespace Scheduler

/-- What the query of a commitment leaves is kept by the system. -/
theorem Turn.undisturbed {s : Scheduler} {now : Time} (turn : s.Turn now) (reply : Reply Query) :
    State.Undisturbed reply.state
      ⟨(turn.resumed reply).intention, (turn.after reply).platform⟩ := by
  have kept : (turn.after reply).platform.supply = reply.state.platform.supply :=
    (settle_outcome ..).2.2
  exact ⟨rfl, kept ▸ .refl _⟩

/-- Under `first` an intention does not go on after a solution. -/
theorem Turn.resumed_first {s : Scheduler} {now : Time} (turn : s.Turn now) {reply : Reply Query}
    (first : turn.chosen.policy = .first → turn.chosen.solutions = 0)
    (goesOn : turn.chosen.policy.goesOn reply.result = true)
    (policy : turn.chosen.policy = .first) : (turn.resumed reply).solutions = 0 := by
  have count : (turn.resumed reply).solutions = turn.chosen.solutions + reply.found := rfl
  rw [count, first policy]
  rw [policy] at goesOn
  obtain ⟨e | (_ | _ | _), next, t⟩ := reply
  · rfl
  · simp [Policy.goesOn] at goesOn
  · rfl
  · rfl

/-- A run accounts for a commitment as its query alone does. -/
theorem Run.accounts {ctx : Context} {pause : State → State}
    (paused : ∀ s, State.Undisturbed s (pause s)) {s last : Scheduler} {moments : List Moment}
    (run : s.Run moments last) {workshop : List Agent} (sound : Site.Sound ⟨s, workshop⟩)
    {mind : Mind} {c : Commitment} (keeps : s.Keeps mind c)
    (contexts : Context.Paired P ⟨s.actions, mind⟩ ctx)
    (goals : c.goal.Paired P c.goal) (first : c.policy = .first → c.solutions = 0) {q : Query}
    {t : State} (meets : c.Meets s.platform ctx P q t) :
    c.Accounts (history c.id last moments) ctx pause P q t := by
  -- Until its turn comes the commitment and the query alone stay at the same point; then both go on.
  induction run generalizing P c q t with
  | stay => exact .nothing meets.bounded pause
  | @go s s' last move moments moves rest ih =>
    have after := sound.moves moves
    rw [history, rest.startOf_eq]
    rcases moves.fate keeps sound.numbered.of_append with
      ⟨kept, silent⟩ | ⟨gone, silent⟩ | ⟨now, turn, reply, rfl, rfl, resumes, rfl, rfl⟩
    · rw [silent]
      refine ih after kept ?_ goals first (meets.later moves.supply_before)
      rw [moves.actions]
      exact contexts
    · rw [silent, rest.history_of_gone gone]
      exact .nothing meets.bounded pause
    · have reports : (Move.report? turn.chosen.id (turn.after reply)
          (.step now (turn.settled reply).1)).toList = _ :=
        turn.reports resumes after.numbered.of_append first
      have started : State.Undisturbed ⟨turn.chosen.intention, s.platform⟩ turn.start :=
        ⟨rfl, .refl _⟩
      have echo := meets.echo contexts started resumes
      rw [reports]
      refine .of_echo paused goals meets.bounded echo ?_ fun ends => ?_
      · intro goesOn P' q₁ t₁ q₂ t₂ more mimics nexts states
        have kept := turn.keeps_after ((turn.continues_eq_goesOn reply).trans goesOn)
        rw [← turn.resumed_id resumes]
        exact ih after kept (contexts.mono more) (goals.mono more)
          (turn.resumed_first first goesOn)
          ⟨q₂, t₂, mimics, nexts, states.later (turn.undisturbed reply) (.refl _)⟩
      · exact rest.history_of_gone (turn.gone_after resumes sound.numbered.of_append
          ((turn.continues_eq_goesOn reply).trans ends))

end Scheduler

/-- The variables of the term were handed out before a number, and its literals are known. -/
inductive Term.Within (bound : Nat) (known : String → Nat → Prop) : Term → Prop where
  | var {v : Var} (old : v.id < bound) : Within bound known (.var v)
  | num (n : Number) : Within bound known (.num n)
  | str (s : String) : Within bound known (.str s)
  | seq {items : List Term} (each : ∀ t ∈ items, Within bound known t) :
      Within bound known (.seq items)
  | lit {f : String} {args annots : List Term} (called : known f args.length)
      (eachArg : ∀ t ∈ args, Within bound known t)
      (eachAnnot : ∀ t ∈ annots, Within bound known t) : Within bound known (.lit f args annots)

/-- All beliefs of the mind are within the same limits. -/
structure Mind.Within (bound : Nat) (known : String → Nat → Prop) (m : Mind) : Prop where
  facts : ∀ g, ∀ fact ∈ m.beliefs.lookup g, fact.Within bound known
  rules : ∀ g, ∀ rule ∈ m.beliefs.rules g,
    rule.head.Within bound known ∧ rule.body.Within bound known

/-- A literal calls no action whose values come from outside. -/
def Registry.Inward (r : Registry) (f : String) (n : Nat) : Prop :=
  ⟨f, some n⟩ ∈ Library.surroundings → r.lookup f n = none

/-- Old variables stand for themselves, and there are no choicepoints yet. -/
def Pairing.old (bound : Nat) (known : String → Nat → Prop) : Pairing where
  literals := known
  vars v w := v = w ∧ v.id < bound
  marks _ _ := False
  vars_unique := ⟨fun _ _ _ one two => one.1.trans two.1.symm, fun _ _ _ one two =>
    one.1.symm.trans two.1⟩
  marks_unique := ⟨fun _ _ _ no => no.elim, fun _ _ _ no => no.elim⟩

theorem Term.Within.paired {bound : Nat} {known : String → Nat → Prop} {t : Term}
    (within : t.Within bound known) : t.Paired (.old bound known) t := by
  induction within with
  | var old => exact .var ⟨rfl, old⟩
  | num n => exact .num n
  | str s => exact .str s
  | seq _ ih => exact .seq (List.forall₂_same.mpr ih)
  | lit called _ _ ihArgs ihAnnots =>
    exact .lit called (List.forall₂_same.mpr ihArgs) (List.forall₂_same.mpr ihAnnots)

/-- A bounded pairing is part of an injective renaming of all variables. -/
theorem Pairing.Bounded.exists_renaming (bounded : P.Bounded) :
    ∃ names : Var → Var, Function.Injective names ∧ ∀ {v w}, P.vars v w → names v = w := by
  classical
  obtain ⟨bound, bounded⟩ := bounded
  -- What has no partner goes above the bound, where it meets nothing.
  let names (v : Var) : Var := if paired : ∃ w, P.vars v w then paired.choose else ⟨bound + v.id⟩
  have partner {v w : Var} (same : P.vars v w) : names v = w := by
    have paired : ∃ w, P.vars v w := ⟨w, same⟩
    rw [show names v = paired.choose from dif_pos paired]
    exact P.vars_unique.2 paired.choose_spec same
  have single {v : Var} (alone : ¬ ∃ w, P.vars v w) : names v = ⟨bound + v.id⟩ := dif_neg alone
  refine ⟨names, fun v v' same => ?_, partner⟩
  by_cases one : ∃ w, P.vars v w <;> by_cases two : ∃ w, P.vars v' w
  · obtain ⟨w, one⟩ := one
    obtain ⟨w', two⟩ := two
    rw [partner one, partner two] at same
    exact (P.eq_iff one two).mpr same
  · obtain ⟨w, one⟩ := one
    have less := bounded one
    rw [partner one, single two] at same
    rw [same] at less
    exact absurd less (by simp)
  · obtain ⟨w, two⟩ := two
    have less := bounded two
    rw [single one, partner two] at same
    rw [← same] at less
    exact absurd less (by simp)
  · rw [single one, single two] at same
    have sum := congrArg Var.id same
    exact congrArg Var.mk (Nat.add_left_cancel sum)

/-- Paired terms differ by a renaming of which the pairing is a part. -/
theorem Term.Paired.subst_eq {names : Var → Var} (partner : ∀ {v w}, P.vars v w → names v = w)
    {t t' : Term} (paired : t.Paired P t') : (t.subst fun v => .var (names v)) = t' :=
  (paired.subst_eq_subst fun _ _ _ same => congrArg Term.var (partner same)).trans t'.subst_var

/-- The same report after a renaming of variables, or errors of the same kind. -/
inductive Report.Alike (names : Var → Var) : Report → Report → Prop where
  | solution (value : Term) :
      Alike names (.solution value) (.solution (value.subst fun v => .var (names v)))
  | completed (solutions : Nat) : Alike names (.completed solutions) (.completed solutions)
  | failed : Alike names .failed .failed
  | aborted {e e' : EngineError} (kind : e.code = e'.code) : Alike names (.aborted e) (.aborted e')
  | panicked : Alike names .panicked .panicked

theorem Report.Paired.alike {names : Var → Var} (partner : ∀ {v w}, P.vars v w → names v = w)
    {report report' : Report} (paired : report.Paired P report') : report.Alike names report' := by
  cases paired with
  | @solution value value' values =>
    rw [← values.subst_eq partner]
    exact .solution value
  | completed solutions => exact .completed solutions
  | failed => exact .failed
  | aborted kind => exact .aborted kind
  | panicked => exact .panicked

/-- The commitment that an agent makes when it adopts a goal. -/
def Commitment.fresh (id : IntentionId) (goal : Term) (policy : Policy) : Commitment :=
  { intention := { id }, goal, policy, query := .new goal }

example (a : Agent) (goal : Term) (policy : Policy) (p : Platform) :
    (a.adopt goal policy p).2.1.commitments =
      a.commitments ++ [.fresh (a.adopt goal policy p).1 goal policy] := rfl

theorem Mind.Within.paired {bound : Nat} {known : String → Nat → Prop} {m m' : Mind}
    (within : m.Within bound known) (name : m'.name = m.name) (named : known m.name 0)
    (beliefs : m'.beliefs = m.beliefs) : m.Paired (.old bound known) m' :=
  ⟨name, named, beliefs, fun g fact member => (within.facts g fact member).paired,
    fun g rule member => (within.rules g rule member).imp Term.Within.paired Term.Within.paired⟩

/-- Inward calls of standard actions are steady. -/
theorem Registry.Inward.steady {r : Registry} {f : String} {n : Nat} (inward : r.Inward f n)
    {action : Action} (found : r.lookup f n = some action)
    (standard : Library.standard.lookup f n = some action) : action.Steady := by
  by_cases outside : ⟨f, some n⟩ ∈ Library.surroundings
  · simp [inward outside] at found
  · exact lookup_steady Library.standard_steady outside standard

/-- The literal `p(t)`. -/
def Term.p (t : Term) : Term := .lit "p" [t] []

/-- A commitment to `p(V1)` that has found `p(p(V7))`. -/
def Commitment.begun : Commitment where
  intention :=
    { id := ⟨2⟩
      bindings := ⟨⟨[(⟨1⟩, .p (.var ⟨7⟩))]⟩, [.binding ⟨1⟩, .mark ⟨5⟩]⟩ }
  goal := .p (.var ⟨1⟩)
  policy := .all
  query := .running (.p (.var ⟨1⟩))
    (.recalling (.p (.var ⟨1⟩)) (.facts ⟨"p", 1⟩ 1) (some ⟨5⟩))
  solutions := 1

end Deliberation
