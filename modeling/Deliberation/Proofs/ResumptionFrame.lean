import Deliberation.Proofs.Growth

/-! What a resumption leaves alone. It works on one intention, whose number it keeps, and on the
platform, from which it takes identifiers and to which it gives none back. -/
namespace Deliberation

/-- Every number that is handed out by the first supply is handed out by the second too. -/
structure Supply.Before (s s' : Supply) : Prop where
  vars : s.nextVar ≤ s'.nextVar
  agents : s.nextAgent ≤ s'.nextAgent
  intentions : s.nextIntention ≤ s'.nextIntention
  choicepoints : s.nextChoicepoint ≤ s'.nextChoicepoint

namespace Supply

theorem Before.refl (s : Supply) : s.Before s :=
  ⟨Nat.le_refl _, Nat.le_refl _, Nat.le_refl _, Nat.le_refl _⟩

theorem Before.trans {s s' s'' : Supply} (first : s.Before s') (second : s'.Before s'') :
    s.Before s'' :=
  ⟨Nat.le_trans first.vars second.vars, Nat.le_trans first.agents second.agents,
    Nat.le_trans first.intentions second.intentions,
    Nat.le_trans first.choicepoints second.choicepoints⟩

theorem before_moreVars (s : Supply) (count : Nat) :
    s.Before { s with nextVar := s.nextVar + count } :=
  ⟨Nat.le_add_right .., Nat.le_refl _, Nat.le_refl _, Nat.le_refl _⟩

end Supply

theorem Renaming.before_cover (state : Renaming × Supply) (v : Var) :
    state.2.Before (cover state v).2 := by
  cases known : state.1.lookup v with
  | none =>
    simp only [cover, known]
    exact state.2.before_moreVars 1
  | some w =>
    simp only [cover, known]
    exact .refl _

theorem Renaming.before_covers (vars : List Var) (state : Renaming × Supply) :
    state.2.Before (vars.foldl cover state).2 := by
  induction vars generalizing state with
  | nil => exact .refl _
  | cons v rest ih => exact (before_cover state v).trans (ih (cover state v))

theorem Scope.before_freeze (scope : Scope) (t : Term) (names : Renaming) (supply : Supply) :
    supply.Before (scope.freeze t names supply).2.2 :=
  Renaming.before_covers _ (names, supply)

theorem Scope.before_freezeAll (scope : Scope) (parts : List Term) (names : Renaming)
    (supply : Supply) : supply.Before (scope.freezeAll parts names supply).2.2 := by
  induction parts generalizing names supply with
  | nil => exact .refl _
  | cons t rest ih => exact (scope.before_freeze t names supply).trans (ih _ _)

namespace State

/-- The same intention, at a time when no fewer identifiers are handed out. -/
structure Later (s s' : State) : Prop where
  id : s'.intention.id = s.intention.id
  supply : s.platform.supply.Before s'.platform.supply

theorem Later.refl (s : State) : Later s s := ⟨rfl, .refl _⟩

theorem Later.trans {s s' s'' : State} (first : Later s s') (second : Later s' s'') :
    Later s s'' :=
  ⟨second.id.trans first.id, first.supply.trans second.supply⟩

theorem Later.of_supply {s s' : State} (id : s'.intention.id = s.intention.id)
    (same : s'.platform.supply = s.platform.supply) : Later s s' :=
  ⟨id, same ▸ .refl _⟩

theorem unify_later (s : State) (left right : Term) : Later s (s.unify left right).2 :=
  .of_supply rfl rfl

theorem withSupply_later (s : State) {supply : Supply} (before : s.platform.supply.Before supply) :
    Later s (s.withSupply supply) :=
  ⟨rfl, before⟩

theorem mark_later (s : State) : Later s s.mark.2 :=
  ⟨rfl, Nat.le_refl _, Nat.le_refl _, Nat.le_refl _, Nat.le_succ _⟩

theorem reroll_later {s s' : State} {c : Choicepoint} (rerolled : s.reroll c = .ok s') :
    Later s s' := by
  obtain ⟨above, below, -, -, rfl⟩ := reroll_eq_ok_iff.mp rerolled
  exact .of_supply rfl rfl

theorem rerollIf_later {s s' : State} {mark : Option Choicepoint}
    (rerolled : s.rerollIf mark = .ok s') : Later s s' := by
  cases mark with
  | none =>
    obtain rfl := Except.ok.inj rerolled
    exact .refl s
  | some c => exact reroll_later rerolled

theorem readClock_later (s : State) : Later s s.readClock.2 := .of_supply rfl rfl

theorem perform_later (mind : Mind) (s : State) (deed : Deed) :
    Later s (deed.perform mind s).2 := by
  cases deed with
  | print parts => exact ⟨rfl, Scope.before_freezeAll ..⟩
  | stop => exact .of_supply rfl (requestStop_supply _)
  | delay duration millis =>
    rw [perform_delay]
    split <;> exact .of_supply rfl rfl
  | _ => exact .of_supply rfl rfl

theorem run_later {α : Type} (script : Script α) (s : State) : Later s (script.run s).2 := by
  induction script generalizing s with
  | done result => exact .refl s
  | unify left right next ih => exact (s.unify_later left right).trans (ih _ _ _)
  | fresh next ih =>
    exact (s.withSupply_later (s.platform.supply.before_moreVars 1)).trans (ih _ _)

theorem look_later (ctx : Context) (s : State) : Later s (Search.look ctx s).2 := .of_supply rfl rfl

end State

open State

/-- A way to resume that leaves the rest alone. -/
def Resumption.GoesOn (resume : Resumption) : Prop :=
  ∀ q s reply, resume q s = some reply → Later s reply.state

namespace Search

variable {resume : Resumption} {ctx : Context}

theorem afterReroll_later (s : State) (c : Choicepoint) (event : Event) (next : Search) :
    Later s (afterReroll s c event next).state := by
  unfold afterReroll
  split
  · rename_i rerolled
    exact reroll_later rerolled
  · exact .refl s

theorem holdOrUndo_later (c : Choicepoint) (done : Bool × State) :
    Later done.2 (holdOrUndo c done).state := by
  obtain ⟨_ | _, s⟩ := done
  · exact afterReroll_later s c .exhausted .spent
  · exact .refl s

theorem conclude_later (c : Choicepoint) (done : Except Halt Bool × State) :
    Later done.2 (conclude c done).state := by
  obtain ⟨_ | holds, s⟩ := done
  · exact .refl s
  · exact holdOrUndo_later c (holds, s)

theorem runAct_later (steps : View → Script Deed) (s : State) :
    Later s (runAct ctx steps s).state := by
  have looked := s.mark_later.trans (look_later ctx s.mark.2)
  unfold runAct
  dsimp only
  generalize look ctx s.mark.2 = sight at looked
  have stepped := looked.trans (run_later (steps sight.1) sight.2)
  split
  · rename_i ran
    rwa [ran] at stepped
  · rename_i deed decided ran
    rw [ran] at stepped
    exact stepped.trans ((perform_later ctx.mind _ deed).trans (conclude_later ..))

theorem choose_later (target : Term) (rest : Candidates) (s : State) :
    Later s (choose target rest s).state := by
  fun_induction choose target rest s with
  | case1 => exact .refl _
  | case2 rest s candidate more _ c marked laid bound unified =>
    have laying := s.mark_later
    rw [laid] at laying
    have unifying := marked.unify_later target candidate
    rw [unified] at unifying
    exact laying.trans unifying
  | case3 rest s candidate more _ c marked laid failed unified e missing =>
    have laying := s.mark_later
    rw [laid] at laying
    have unifying := marked.unify_later target candidate
    rw [unified] at unifying
    exact laying.trans unifying
  | case4 rest s candidate more _ c marked laid failed unified back undone ih =>
    have laying := s.mark_later
    rw [laid] at laying
    have unifying := marked.unify_later target candidate
    rw [unified] at unifying
    exact laying.trans (unifying.trans ((reroll_later undone).trans ih))

theorem runOffer_later (target : Term) (steps : View → Script Offer) (s : State) :
    Later s (runOffer ctx target steps s).state := by
  have looked := look_later ctx s
  unfold runOffer
  dsimp only
  generalize look ctx s = sight at looked
  have stepped := looked.trans (run_later (steps sight.1) sight.2)
  split
  · rename_i ran
    rwa [ran] at stepped
  · rename_i offer offered ran
    rw [ran] at stepped
    refine stepped.trans (Later.trans ?_ (choose_later ..))
    exact withSupply_later _ (Supply.before_moreVars _ offer.fresh)

theorem gather_later (goesOn : resume.GoesOn) (pattern : Term) (limit : Nat) (q : Query)
    (names : Renaming) (found : List Term) (s : State) (outcome)
    (gathered : gather resume pattern limit q names found s = some outcome) :
    Later s outcome.2 := by
  induction limit generalizing q names found s with
  | zero => simp [gather] at gathered
  | succ limit ih =>
    cases answer : resume q s with
    | none => simp [gather, answer] at gathered
    | some reply =>
      have first := goesOn q s reply answer
      simp only [gather, answer] at gathered
      obtain ⟨_ | (_ | _ | _), next, state⟩ := reply
      · obtain rfl := Option.some.inj gathered
        exact first
      · exact first.trans ((withSupply_later state (Scope.before_freeze ..)).trans
          (ih _ _ _ _ gathered))
      · exact first.trans (ih _ _ _ _ gathered)
      · obtain rfl := Option.some.inj gathered
        exact first

theorem runPlan_later (goesOn : resume.GoesOn) (limit : Nat) (s : State) (plan : Plan) (reply)
    (ran : runPlan ctx resume limit s plan = some reply) : Later s reply.state := by
  cases plan with
  | act steps =>
    obtain rfl := Option.some.inj ran
    exact runAct_later steps s
  | offer target steps =>
    obtain rfl := Option.some.inj ran
    exact runOffer_later target steps s
  | collect pattern goal result =>
    simp only [runPlan, runCollect] at ran
    cases gathered : gather resume pattern limit (.new goal) [] [] s.mark.2 with
    | none => simp [gathered] at ran
    | some outcome =>
      have gone := s.mark_later.trans (gather_later goesOn pattern limit _ _ _ _ _ gathered)
      rw [gathered] at ran
      obtain ⟨_ | found, s'⟩ := outcome
      · obtain rfl := Option.some.inj ran
        exact gone
      · obtain rfl := Option.some.inj ran
        exact gone.trans ((unify_later s' result (.seq found)).trans (holdOrUndo_later ..))

theorem scanRules_later (goesOn : resume.GoesOn) (goal : Term) (group : Group) (next : Nat)
    (rules : List Rule) (s : State) (reply)
    (scanned : scanRules resume goal group next rules s = some reply) : Later s reply.state := by
  induction rules generalizing next s with
  | nil =>
    obtain rfl := Option.some.inj scanned
    exact .refl s
  | cons rule rest ih =>
    simp only [scanRules] at scanned
    generalize renamed : rule.head.renameApart [] s.platform.supply = headed at scanned
    generalize names : rule.body.renameApart headed.2.1 headed.2.2 = bodied at scanned
    have first : s.platform.supply.Before headed.2.2 := renamed ▸ Scope.before_freeze ..
    have second : headed.2.2.Before bodied.2.2 := names ▸ Scope.before_freeze ..
    have supplied := withSupply_later s (first.trans second)
    have attempted := supplied.trans ((mark_later _).trans (unify_later _ goal headed.1))
    generalize (s.withSupply bodied.2.2).mark = laid at scanned attempted
    generalize laid.2.unify goal headed.1 = tried at scanned attempted
    split at scanned
    · cases answer : resume (.new bodied.1) tried.2 with
      | none => simp [answer] at scanned
      | some inner =>
        have entered := attempted.trans (goesOn _ _ inner answer)
        rw [answer] at scanned
        obtain ⟨e | (_ | _ | _), body, state⟩ := inner
        · obtain rfl := Option.some.inj scanned
          exact entered
        · obtain rfl := Option.some.inj scanned
          exact entered
        · obtain rfl := Option.some.inj scanned
          exact entered
        · dsimp only at scanned
          split at scanned
          · obtain rfl := Option.some.inj scanned
            exact entered
          · rename_i undone
            exact entered.trans ((reroll_later undone).trans (ih _ _ scanned))
    · split at scanned
      · obtain rfl := Option.some.inj scanned
        exact attempted
      · rename_i undone
        exact attempted.trans ((reroll_later undone).trans (ih _ _ scanned))

theorem scanFacts_later (goesOn : resume.GoesOn) (goal : Term) (group : Group) (next : Nat)
    (facts : List Term) (s : State) (reply)
    (scanned : scanFacts ctx resume goal group next facts s = some reply) :
    Later s reply.state := by
  induction facts generalizing next s with
  | nil => exact scanRules_later goesOn goal group 0 _ s reply scanned
  | cons fact rest ih =>
    simp only [scanFacts] at scanned
    have supplied : Later s (s.withSupply (fact.renameApart [] s.platform.supply).2.2) :=
      withSupply_later s (Scope.before_freeze ..)
    have tried := supplied.trans ((mark_later _).trans
      (unify_later _ goal (fact.renameApart [] s.platform.supply).1))
    split at scanned
    · obtain rfl := Option.some.inj scanned
      exact tried
    · split at scanned
      · obtain rfl := Option.some.inj scanned
        exact tried
      · rename_i undone
        exact tried.trans ((reroll_later undone).trans (ih _ _ scanned))

theorem undoAndScan_later (goesOn : resume.GoesOn) (goal : Term) (cursor : Cursor)
    (mark : Option Choicepoint) (s : State) (reply)
    (scanned : undoAndScan ctx resume goal cursor mark s = some reply) : Later s reply.state := by
  unfold undoAndScan at scanned
  split at scanned
  · obtain rfl := Option.some.inj scanned
    exact .refl s
  · rename_i s' undone
    refine (rerollIf_later undone).trans ?_
    cases cursor with
    | start =>
      simp only [scan] at scanned
      split at scanned
      · obtain rfl := Option.some.inj scanned
        exact .refl s'
      · exact scanFacts_later goesOn goal _ _ _ s' reply scanned
    | facts group next => exact scanFacts_later goesOn goal group _ _ s' reply scanned
    | rules group next => exact scanRules_later goesOn goal group _ _ s' reply scanned
    | finished =>
      obtain rfl := Option.some.inj scanned
      exact .refl s'

theorem resumeBody_later (goesOn : resume.GoesOn) (goal : Term) (cursor : Cursor)
    (c : Choicepoint) (body : Query) (s : State) (reply)
    (resumed : resumeBody ctx resume goal cursor c body s = some reply) : Later s reply.state := by
  cases answer : resume body s with
  | none => simp [resumeBody, answer] at resumed
  | some inner =>
    have first := goesOn body s inner answer
    simp only [resumeBody, answer] at resumed
    obtain ⟨_ | (_ | _ | _), next, state⟩ := inner
    · obtain rfl := Option.some.inj resumed
      exact first
    · obtain rfl := Option.some.inj resumed
      exact first
    · obtain rfl := Option.some.inj resumed
      exact first
    · exact first.trans (undoAndScan_later goesOn _ _ _ _ _ resumed)

theorem resumeConj_later (goesOn : resume.GoesOn) (rightGoal : Term) (limit : Nat) (left : Query)
    (right : Option Query) (s : State) (reply)
    (resumed : resumeConj resume rightGoal limit left right s = some reply) :
    Later s reply.state := by
  induction limit generalizing left right s with
  | zero => simp [resumeConj] at resumed
  | succ limit ih =>
    cases right with
    | some right =>
      cases answer : resume right s with
      | none => simp [resumeConj, answer] at resumed
      | some inner =>
        have first := goesOn right s inner answer
        simp only [resumeConj, answer] at resumed
        obtain ⟨_ | (_ | _ | _), next, state⟩ := inner
        · obtain rfl := Option.some.inj resumed
          exact first
        · obtain rfl := Option.some.inj resumed
          exact first
        · obtain rfl := Option.some.inj resumed
          exact first
        · exact first.trans (ih _ _ _ resumed)
    | none =>
      cases answer : resume left s with
      | none => simp [resumeConj, answer] at resumed
      | some inner =>
        have first := goesOn left s inner answer
        simp only [resumeConj, answer] at resumed
        obtain ⟨_ | (_ | _ | _), next, state⟩ := inner
        · obtain rfl := Option.some.inj resumed
          exact first
        · have read := first.trans state.readClock_later
          dsimp only at resumed
          split at resumed
          · obtain rfl := Option.some.inj resumed
            exact read
          · exact read.trans (ih _ _ _ resumed)
        · obtain rfl := Option.some.inj resumed
          exact first
        · obtain rfl := Option.some.inj resumed
          exact first

theorem resumeDisjRight_later (goesOn : resume.GoesOn) (right : Query) (s : State) (reply)
    (resumed : resumeDisjRight resume right s = some reply) : Later s reply.state := by
  cases answer : resume right s with
  | none => simp [resumeDisjRight, answer] at resumed
  | some inner =>
    simp only [resumeDisjRight, answer, Option.some.injEq] at resumed
    subst reply
    exact goesOn right s inner answer

theorem resumeDisj_later (goesOn : resume.GoesOn) (left : Query) (rightGoal : Term) (s : State)
    (reply) (resumed : resumeDisj resume left rightGoal s = some reply) : Later s reply.state := by
  cases answer : resume left s with
  | none => simp [resumeDisj, answer] at resumed
  | some inner =>
    have first := goesOn left s inner answer
    simp only [resumeDisj, answer] at resumed
    obtain ⟨_ | (_ | _ | _), next, state⟩ := inner
    · obtain rfl := Option.some.inj resumed
      exact first
    · obtain rfl := Option.some.inj resumed
      exact first
    · obtain rfl := Option.some.inj resumed
      exact first
    · exact first.trans (resumeDisjRight_later goesOn _ _ _ resumed)

theorem resumeNegation_later (goesOn : resume.GoesOn) (inner : Query) (c : Choicepoint)
    (s : State) (reply) (resumed : resumeNegation resume inner c s = some reply) :
    Later s reply.state := by
  cases answer : resume inner s with
  | none => simp [resumeNegation, answer] at resumed
  | some first =>
    have gone := goesOn inner s first answer
    simp only [resumeNegation, answer] at resumed
    obtain ⟨_ | (_ | _ | _), next, state⟩ := first
    · obtain rfl := Option.some.inj resumed
      exact gone
    · obtain rfl := Option.some.inj resumed
      exact gone.trans (afterReroll_later ..)
    · obtain rfl := Option.some.inj resumed
      exact gone
    · obtain rfl := Option.some.inj resumed
      exact gone.trans (afterReroll_later ..)

theorem advance_later (goesOn : resume.GoesOn) (limit : Nat) (s : State) (search : Search) (reply)
    (advanced : search.advance ctx resume limit s = some reply) : Later s reply.state := by
  cases search with
  | planned plan => exact runPlan_later goesOn limit s plan reply advanced
  | held c =>
    obtain rfl := Option.some.inj advanced
    exact afterReroll_later ..
  | choosing target rest mark =>
    simp only [advance] at advanced
    split at advanced
    · obtain rfl := Option.some.inj advanced
      exact .refl s
    · rename_i undone
      obtain rfl := Option.some.inj advanced
      exact (rerollIf_later undone).trans (choose_later ..)
  | spent =>
    obtain rfl := Option.some.inj advanced
    exact .refl s
  | recalling goal cursor mark => exact undoAndScan_later goesOn goal cursor mark s reply advanced
  | applying goal cursor c body => exact resumeBody_later goesOn goal cursor c body s reply advanced
  | conj left rightGoal => exact resumeConj_later goesOn _ _ _ _ _ _ advanced
  | conjRight left rightGoal right => exact resumeConj_later goesOn _ _ _ _ _ _ advanced
  | disj left rightGoal => exact resumeDisj_later goesOn _ _ _ _ advanced
  | disjRight right => exact resumeDisjRight_later goesOn _ _ _ advanced
  | negation inner mark =>
    cases mark with
    | some c => exact resumeNegation_later goesOn _ _ _ _ advanced
    | none => exact s.mark_later.trans (resumeNegation_later goesOn _ _ _ _ advanced)

end Search

namespace Query

theorem ofSearch_state (goal : Term) (reply : Reply Search) :
    (ofSearch goal reply).state = reply.state := by
  unfold ofSearch
  split <;> rfl

/-- Resuming keeps the number of the intention and takes identifiers only. -/
theorem resume_later (ctx : Context) (limit : Nat) : Resumption.GoesOn (resume ctx limit) := by
  induction limit with
  | zero =>
    intro q s reply resumed
    simp [resume] at resumed
  | succ limit ih =>
    intro q s reply resumed
    have searched (goal : Term) (search : Search)
        (mapped : (search.advance ctx (resume ctx limit) limit s).map (ofSearch goal) =
          some reply) : Later s reply.state := by
      obtain ⟨inner, advanced, rfl⟩ := Option.map_eq_some_iff.mp mapped
      rw [ofSearch_state]
      exact Search.advance_later ih limit s search inner advanced
    cases q with
    | pending goal =>
      simp only [resume, advance] at resumed
      split at resumed
      · obtain rfl := Option.some.inj resumed
        exact .refl s
      · exact searched goal _ resumed
    | running goal search => exact searched goal search resumed
    | done goal =>
      obtain rfl := Option.some.inj resumed
      exact .refl s

end Query

end Deliberation
