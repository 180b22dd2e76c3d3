import Deliberation.Proofs.CleanCourses
import Deliberation.Proofs.NoOvertaking

/-! Variable hygiene. At every moment of a run of a query the scope holds variables of the goal, of
the scope at the start and of those that were taken since. Stored clauses are never touched, and no
two uses of them have a variable in common. -/
namespace Deliberation

variable {mind : Mind} {known : Set Var} {first : Nat} {s s' : State} {trace : List Happening}

/-- The states before and after what happens. -/
def Happening.moments (h : Happening) : List State := [h.before, h.after]

/-- The variables of the copy that is used. -/
def Happening.copied : Happening → List Var
  | use _ copy _ _ => copy.vars
  | _ => []

theorem Happening.Clean.owns {h : Happening} (clean : h.Clean mind known first) :
    ∀ t ∈ h.moments, t.Owns known first := by
  simpa [moments] using ⟨clean.before, clean.after⟩

theorem Happening.Clean.copied {h : Happening} (clean : h.Clean mind known first) :
    ∀ v ∈ h.copied, v ∈ Var.between h.before.nextVar h.after.nextVar := by
  cases h with
  | use stored copy s s' => exact clean.afresh.2.over
  | state s => simp [Happening.copied]
  | check now s => simp [Happening.copied]

namespace Episode

theorem clean (episode : Episode mind known first s trace s') :
    ∀ h ∈ trace, h.Clean mind known first := by
  induction episode with
  | nil => simp
  | cons grown clean _ ih => exact List.forall_mem_cons.mpr ⟨clean, ih⟩

/-- Numbers are handed out upwards all along. -/
theorem upwards (episode : Episode mind known first s trace s') :
    (∀ h ∈ trace, s.nextVar ≤ h.before.nextVar) ∧
      trace.Pairwise fun one two => one.after.nextVar ≤ two.before.nextVar := by
  induction episode with
  | nil => simp
  | cons grown clean _ ih =>
    obtain ⟨later, ordered⟩ := ih
    have above := Nat.le_trans grown clean.grown
    refine ⟨List.forall_mem_cons.mpr ⟨grown, fun h member => ?_⟩, ?_⟩
    · exact Nat.le_trans above (later h member)
    · exact List.pairwise_cons.mpr ⟨later, ordered⟩

theorem disjoint (episode : Episode mind known first s trace s') :
    trace.Pairwise fun one two => one.copied.Disjoint two.copied := by
  refine episode.upwards.2.imp_of_mem fun {one two} here there ordered v inOne inTwo => ?_
  have below := ((episode.clean one here).copied v inOne).2
  have above := ((episode.clean two there).copied v inTwo).1
  omega

/-- Nothing but the numbers changes while others are at work. -/
theorem meanwhile (mind : Mind) (owns : s.Owns known first) (undisturbed : s.Undisturbed s') :
    Episode mind known first s [.state s'] s' := by
  have scope : s'.scope = s.scope := congrArg Bindings.scope undisturbed.bindings
  have later := owns.later scope undisturbed.supply.vars
  exact arrive (.nil undisturbed.supply.vars later)

end Episode

namespace Query

/-- A run of a query: it is resumed again and again. Meanwhile identifiers may be taken elsewhere. -/
inductive Run (ctx : Context) (goal : Term) (start : State) :
    List Happening → Query → State → Prop where
  | begin : Run ctx goal start [.state start] (.new goal) start
  | resume {trace more : List Happening} {q : Query} {s s' : State} {reply : Reply Query}
      (run : Run ctx goal start trace q s) (meanwhile : s.Undisturbed s')
      (course : Course ctx (.resume q) s' more (.reply reply)) :
      Run ctx goal start (trace ++ (.state s' :: more ++ [.state reply.state])) reply.next
        reply.state

/-- All that has happened up to a moment between two resumptions, or within one, answered or not. -/
inductive Record (ctx : Context) (goal : Term) (start : State) : List Happening → State → Prop where
  | between {trace : List Happening} {q : Query} {s : State} (run : Run ctx goal start trace q s) :
      Record ctx goal start trace s
  | within {trace more : List Happening} {q : Query} {s s' t : State} {n : Nat} {task : Task}
      (run : Run ctx goal start trace q s) (meanwhile : s.Undisturbed s')
      (comes : Comes ctx n (.resume q) s' more task t) :
      Record ctx goal start (trace ++ (.state s' :: more ++ [.state t])) t

/-- The variables that a query finds when it begins. -/
def given (goal : Term) (start : State) : Set Var := {v | v ∈ goal.vars ∨ v ∈ start.scope.vars}

variable {ctx : Context} {goal : Term} {start : State} {q : Query}

theorem Run.clean (frugal : ctx.Frugal) (run : Run ctx goal start trace q s) :
    Episode ctx.mind (given goal start) start.nextVar start trace s ∧
      q.Over (s.own (given goal start) start.nextVar) := by
  induction run with
  | begin =>
    refine ⟨.start ⟨Nat.le_refl _, fun v member => .inl (.inr member)⟩, ?_⟩
    exact fun v member => .inl (.inl member)
  | resume run meanwhile course ih =>
    obtain ⟨episode, owned⟩ := ih
    have waited := Episode.meanwhile ctx.mind episode.owns meanwhile
    obtain ⟨later, next⟩ := course.clean frugal waited.owns (owned.mono waited.more)
    exact ⟨episode.append (waited.append later.arrive), next⟩

theorem Record.clean (frugal : ctx.Frugal) (record : Record ctx goal start trace s) :
    Episode ctx.mind (given goal start) start.nextVar start trace s := by
  cases record with
  | between run => exact (run.clean frugal).1
  | within run meanwhile comes =>
    obtain ⟨episode, owned⟩ := run.clean frugal
    have waited := Episode.meanwhile ctx.mind episode.owns meanwhile
    have later := comes.clean frugal waited.owns (owned.mono waited.more)
    exact episode.append (waited.append later.arrive)

end Query

namespace Scheduler

theorem minds_set {agents : List Agent} {index : Nat} {a a' : Agent}
    (found : agents[index]? = some a) (same : a'.mind = a.mind) :
    (agents.set index a').map Agent.mind = agents.map Agent.mind := by
  obtain ⟨less, rfl⟩ := List.getElem?_eq_some_iff.mp found
  rw [List.map_set, same, ← List.map_set, List.set_getElem_self]

/-- Nothing that is done with a system changes the mind of an agent. -/
theorem Moves.minds {s s' : Scheduler} {move : Move} (moves : s.Moves move s') :
    s'.agents.map Agent.mind = s.agents.map Agent.mind := by
  cases moves with
  | step stepped =>
    obtain ⟨-, rfl⟩ | ⟨-, rfl, -⟩ | ⟨turn, reply, -, -, rfl⟩ := stepAt_cases stepped
    · rfl
    · rfl
    · exact minds_set turn.found rfl
  | adopt adopted =>
    obtain ⟨a, found, rfl⟩ := adopt?_edits adopted
    exact minds_set found rfl
  | abandon abandoned =>
    obtain ⟨a, a', found, gave, rfl⟩ := abandon?_edits abandoned
    obtain rfl := Agent.eq_of_abandon? gave
    exact minds_set found rfl
  | outside => rfl

theorem Run.minds {s s' : Scheduler} {moments : List Moment} (run : s.Run moments s') :
    s'.agents.map Agent.mind = s.agents.map Agent.mind := by
  induction run with
  | stay => rfl
  | go moves _ ih => exact ih.trans moves.minds

end Scheduler

namespace Query

/-- The variables of a query are kept apart from those of stored clauses, and those of the uses of
clauses from each other. -/
structure Hygienic (ctx : Context) (goal : Term) (start : State) : Prop where
  /-- At every moment what is bound and what occurs in bound terms was there at the start or was
  taken since. -/
  bound : ∀ trace s, Record ctx goal start trace s → ∀ h ∈ trace, ∀ t ∈ h.moments,
    ∀ v ∈ t.scope.vars,
      v ∈ goal.vars ∨ v ∈ start.scope.vars ∨ v ∈ Var.between start.nextVar t.nextVar
  untouched : ∀ trace s, Record ctx goal start trace s → ∀ h ∈ trace, ∀ t ∈ h.moments,
    ∀ clause, ctx.mind.Stores clause → ∀ v ∈ clause.vars, v ∉ t.scope.vars
  afresh : ∀ trace s, Record ctx goal start trace s → ∀ h ∈ trace, h.Afresh ctx.mind
  apart : ∀ trace s, Record ctx goal start trace s →
    trace.Pairwise fun one two => one.copied.Disjoint two.copied
  /-- Whenever the evaluator answers, the run goes on. -/
  answered : ∀ trace q s s' reply, Run ctx goal start trace q s → s.Undisturbed s' →
    q.Resumes ctx s' reply →
    ∃ more, Run ctx goal start (trace ++ (.state s' :: more ++ [.state reply.state])) reply.next
      reply.state
  /-- Where it never does, there are records with as many calls as one likes. -/
  unanswered : ∀ trace q s s', Run ctx goal start trace q s → s.Undisturbed s' →
    (∀ reply, ¬q.Resumes ctx s' reply) →
    ∀ n, ∃ more task t, Comes ctx n (.resume q) s' more task t ∧
      Record ctx goal start (trace ++ (.state s' :: more ++ [.state t])) t

/-- Where the variables of stored clauses have been handed out, and are neither in the goal nor in
the scope, every run of the goal is hygienic; and nothing that goes on in a system changes what is
stored. -/
theorem variables_are_kept_apart (ctx : Context) (goal : Term) (start : State)
    (standard : ∀ f n action, ctx.actions.lookup f n = some action →
      Library.standard.lookup f n = some action)
    (issued : ∀ clause, ctx.mind.Stores clause → ∀ v ∈ clause.vars, v.id < start.nextVar)
    (foreign : ∀ clause, ctx.mind.Stores clause → ∀ v ∈ clause.vars,
      v ∉ goal.vars ∧ v ∉ start.scope.vars) :
    Hygienic ctx goal start ∧ ∀ system moments system', Scheduler.Run system moments system' →
      system'.agents.map Agent.mind = system.agents.map Agent.mind := by
  have frugal : ctx.Frugal := fun f n action found =>
    Registry.lookup_frugal Library.standard_frugal (standard f n action found)
  have bound (trace s) (record : Record ctx goal start trace s) (h) (here : h ∈ trace) (t)
      (moment : t ∈ h.moments) (v) (member : v ∈ t.scope.vars) :
      v ∈ goal.vars ∨ v ∈ start.scope.vars ∨ v ∈ Var.between start.nextVar t.nextVar := by
    have owns := ((record.clean frugal).clean h here).owns t moment
    exact or_assoc.mp (owns.scope v member)
  refine ⟨⟨bound, ?_, ?_, ?_, ?_, ?_⟩, fun system moments system' run => run.minds⟩
  · intro trace s record h here t moment clause stored v inside member
    obtain ⟨notGoal, notScope⟩ := foreign clause stored v inside
    obtain asked | old | taken := bound trace s record h here t moment v member
    · exact notGoal asked
    · exact notScope old
    · exact Nat.not_lt.mpr taken.1 (issued clause stored v inside)
  · exact fun trace s record h here => ((record.clean frugal).clean h here).afresh
  · exact fun trace s record => (record.clean frugal).disjoint
  · intro trace q s s' reply run meanwhile resumes
    obtain ⟨more, course⟩ := resumes.course
    exact ⟨more, .resume run meanwhile course⟩
  · intro trace q s s' run meanwhile never n
    have unanswered : ¬(Task.resume q).Answers ctx s' := by
      intro answers
      obtain ⟨reply, resumes⟩ := answers.resumes
      exact never reply resumes
    obtain ⟨more, task, t, comes, -⟩ := Task.comes_of_unanswered unanswered n
    exact ⟨more, task, t, comes, .within run meanwhile comes⟩

end Query

def Term.nat (t : Term) : Term := .lit "nat" [t] []

def Term.succ (t : Term) : Term := .lit "s" [t] []

/-- A mind that believes `nat("z")` and `nat(s(V1)) :- nat(V1)`. -/
def Mind.counting : Mind where
  id := ⟨1⟩
  name := "a"
  beliefs :=
    { facts := [(⟨"nat", 1⟩, [.nat (.str "z")])]
      ruleIndex := [(⟨"nat", 1⟩, [⟨.nat (.succ (.var ⟨1⟩)), .nat (.var ⟨1⟩)⟩])] }

theorem Mind.counting_stores {clause : Clause} (stored : counting.Stores clause) :
    ∀ v ∈ clause.vars, v = ⟨1⟩ :=
  forall_stored (p := fun clause => ∀ v ∈ clause.vars, v = ⟨1⟩) (by decide) (by decide) clause
    stored

def Context.counting : Context := ⟨Library.standard, .counting⟩

/-- A state in which `V4` is bound to `V5` and the next variable is `V6`. -/
def State.counting : State :=
  ⟨{ id := ⟨1⟩, bindings := ⟨⟨[(⟨4⟩, .var ⟨5⟩)]⟩, []⟩ }, { supply := { nextVar := 6 } }⟩

/-- The goal `nat(s(s(V4)))`: the rule is used for its own body, and the two uses take `V6` and
`V7`. -/
theorem Query.variables_are_kept_apart_recursion :
    Hygienic .counting (.nat (.succ (.succ (.var ⟨4⟩)))) .counting ∧
    ∃ trace q s, Run .counting (.nat (.succ (.succ (.var ⟨4⟩)))) .counting trace q s ∧
      trace.flatMap Happening.copied = [⟨6⟩, ⟨6⟩, ⟨7⟩, ⟨7⟩] ∧
      s.scope.bindings = [(⟨5⟩, .str "z"), (⟨7⟩, .var ⟨5⟩), (⟨6⟩, .succ (.var ⟨4⟩)),
        (⟨4⟩, .var ⟨5⟩)] := by
  refine ⟨(variables_are_kept_apart _ _ _ (fun _ _ _ => id) ?_ ?_).1, ?_⟩
  · intro clause stored v member
    rw [Mind.counting_stores stored v member]
    decide
  · intro clause stored v member
    rw [Mind.counting_stores stored v member]
    decide
  -- Twice the fact does not unify and the rule does; the second body is the fact.
  · exact ⟨_, _, _, .resume .begin (.refl _) (.begins rfl (.turns (.recallingStarts rfl)
      (.turns (.factMissed rfl rfl rfl) (.turns (.factsOver rfl) (.rulePasses rfl rfl
        (.begins rfl (.turns (.recallingStarts rfl) (.turns (.factMissed rfl rfl rfl)
          (.turns (.factsOver rfl) (.rulePasses rfl rfl
            (.begins rfl (.turns (.recallingStarts rfl) (.ends (.factFound rfl rfl))))
            nofun))))) nofun))))), rfl, rfl⟩

end Deliberation
