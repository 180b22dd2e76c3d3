import Deliberation.Proofs.Anchoring

/-! Resuming keeps queries anchored. Each part of the evaluator is treated once, given the contract
of the way it resumes the queries inside it, and the contract follows for every limit. -/
namespace Deliberation

open State

variable {ctx : Context} {F : Footing ctx} {base s : State} {c : Choicepoint}
  {resume : Resumption}

namespace Search

theorem afterReroll_settles (guards : Guards F base c s) {event : Event}
    (answered : event = .exhausted ∨ event = .solution) :
    (afterReroll s c event .spent).SettlesSearch F base := by
  obtain ⟨s', rerolled, reached⟩ := guards.reroll
  rw [afterReroll, rerolled]
  rcases answered with rfl | rfl <;> exact reached

theorem holdOrUndo_settles (done : Bool × State) (guards : Guards F base c done.2) :
    (holdOrUndo c done).SettlesSearch F base := by
  obtain ⟨_ | _, s⟩ := done
  · exact afterReroll_settles guards (.inl rfl)
  · exact guards

/-- A deed ends in an error only if it is a delay that the clock does not reach. -/
theorem perform_raises {mind : Mind} {s s' : State} {deed : Deed} {e : Halt}
    (failed : deed.perform mind s = (.error e, s')) : ctx.Raises e := by
  cases deed with
  | delay duration millis =>
    rw [perform_delay] at failed
    split at failed
    · cases failed
    · cases failed
      exact .unreachable millis
  | _ => cases failed

theorem conclude_settles (done : Except Halt Bool × State) (guards : Guards F base c done.2)
    (raises : ∀ e, done.1 = .error e → ctx.Raises e ∧ (F.loose → F.reaches base done.2)) :
    (conclude c done).SettlesSearch F base := by
  obtain ⟨e | holds, s⟩ := done
  · exact raises e rfl
  · exact holdOrUndo_settles (holds, s) guards

theorem runAct_settles (reached : F.reaches base s) {steps : View → Script Deed}
    (raises : ∀ e, (Plan.act steps).Raises e → ctx.Raises e) :
    (runAct ctx steps s).SettlesSearch F base := by
  have looked := (look_returns ctx s.mark.2).grows
  unfold runAct
  dsimp only
  generalize look ctx s.mark.2 = sight at looked
  have stepped := looked.trans (run_grows (steps sight.1) sight.2)
  split
  · rename_i e failed ran
    rw [ran] at stepped
    refine ⟨raises e ⟨_, Script.raises_of_run ran⟩, fun loose => ?_⟩
    exact F.trans reached (F.covers loose ((mark_grows s).trans stepped))
  · rename_i deed decided ran
    rw [ran] at stepped
    have performed := stepped.trans (perform_grows ctx.mind _ deed)
    refine conclude_settles _ ((Guards.mark reached).grow performed) fun e failed => ⟨?_, ?_⟩
    · exact perform_raises (Prod.ext failed rfl)
    · exact fun loose => F.trans reached (F.covers loose ((mark_grows s).trans performed))

theorem choose_settles (target : Term) (rest : Candidates) (s : State)
    (reached : F.reaches base s) : (choose target rest s).SettlesSearch F base := by
  fun_induction choose target rest s with
  | case1 => exact reached
  | case2 rest s candidate more _ c marked laid bound unified =>
    exact (Guards.of_mark reached laid).grow (grows_of_unify unified)
  | case3 rest s candidate more _ c marked laid failed unified e missing =>
    obtain ⟨s', rerolled, -⟩ :=
      ((Guards.of_mark reached laid).grow (grows_of_unify unified)).reroll
    simp [rerolled] at missing
  | case4 rest s candidate more _ c marked laid failed unified back undone ih =>
    obtain ⟨s', rerolled, again⟩ :=
      ((Guards.of_mark reached laid).grow (grows_of_unify unified)).reroll
    obtain rfl := Except.ok.inj (rerolled.symm.trans undone)
    exact ih again

/-- The steps towards an offer are taken outside of any choicepoint: they must be still unless
growth is all that is asked for. -/
theorem runOffer_settles (reached : F.reaches base s) {target : Term} {steps : View → Script Offer}
    (raises : ∀ e, (Plan.offer target steps).Raises e → ctx.Raises e)
    (tidy : (Plan.offer target steps).Tidy ∨ F.loose) :
    (runOffer ctx target steps s).SettlesSearch F base := by
  have looked := F.trans reached (F.returns (look_returns ctx s))
  unfold runOffer
  dsimp only
  generalize look ctx s = sight at looked
  have stepped : F.reaches base ((steps sight.1).run sight.2).2 := by
    refine F.trans looked ?_
    rcases tidy with still | loose
    · exact F.returns (Script.run_returns (still _) _)
    · exact F.covers loose (run_grows _ _)
  split
  · rename_i e failed ran
    rw [ran] at stepped
    exact ⟨raises e ⟨_, Script.raises_of_run ran⟩, fun _ => stepped⟩
  · rename_i offer offered ran
    rw [ran] at stepped
    apply choose_settles
    exact F.trans stepped (F.returns (withSupply_returns _ rfl))

/-- A query run to its end leaves nothing behind, and an error leaves no less than there was. -/
theorem gather_settles (keeps : resume.Keeps F) (pattern : Term) (limit : Nat) (q : Query)
    (names : Renaming) (found : List Term) (s : State) (anchored : q.Anchored F base s) (result s')
    (gathered : gather resume pattern limit q names found s = some (result, s')) :
    (∀ values, result = .ok values → F.reaches base s') ∧
      ∀ e, result = .error e → ctx.Raises e ∧ (F.loose → F.reaches base s') := by
  induction limit generalizing q names found s with
  | zero => simp [gather] at gathered
  | succ limit ih =>
    cases answer : resume q s with
    | none => simp [gather, answer] at gathered
    | some reply =>
      have settled := keeps q base s reply anchored answer
      simp only [gather, answer] at gathered
      obtain ⟨e | (_ | _ | _), next, state⟩ := reply
      · obtain ⟨rfl, rfl⟩ := Prod.mk.inj (Option.some.inj gathered)
        refine ⟨by simp, ?_⟩
        intro other same
        obtain rfl := Except.error.inj same
        refine ⟨settled.1, fun loose => ?_⟩
        exact F.covers loose (Query.Anchored.grows next (settled.2 loose))
      · refine ih next _ _ _ ?_ gathered
        refine Query.Anchored.later next settled (F.returns ?_)
        exact withSupply_returns _ (Scope.freeze_nextChoicepoint ..)
      · exact ih next _ _ _ settled gathered
      · obtain ⟨rfl, rfl⟩ := Prod.mk.inj (Option.some.inj gathered)
        exact ⟨fun _ _ => settled, by simp⟩

theorem runCollect_settles (keeps : resume.Keeps F) (reached : F.reaches base s) (limit : Nat)
    (pattern goal result : Term) (reply)
    (ran : runCollect resume limit pattern goal result s = some reply) :
    reply.SettlesSearch F base := by
  unfold runCollect at ran
  dsimp only at ran
  have begun := Query.new_anchored F goal s.mark.2
  cases gathered : gather resume pattern limit (.new goal) [] [] s.mark.2 with
  | none => simp [gathered] at ran
  | some outcome =>
    have settled := gather_settles keeps pattern limit _ _ _ _ begun _ _ gathered
    obtain ⟨e | found, s'⟩ := outcome
    · obtain ⟨raised, grown⟩ := settled.2 e rfl
      simp only [gathered, Option.some.injEq] at ran
      subst reply
      refine ⟨raised, fun loose => ?_⟩
      exact F.trans reached (F.trans (F.covers loose (mark_grows s)) (grown loose))
    · have ended := settled.1 found rfl
      simp only [gathered, Option.some.injEq] at ran
      subst reply
      apply holdOrUndo_settles
      exact (Guards.mark reached).grow ((F.grows ended).trans (unify_grows ..))

theorem runPlan_settles (keeps : resume.Keeps F) (limit : Nat) (plan : Plan)
    (raises : ∀ e, plan.Raises e → ctx.Raises e) (tidy : plan.Tidy ∨ F.loose)
    (reached : F.reaches base s) (reply)
    (ran : runPlan ctx resume limit s plan = some reply) : reply.SettlesSearch F base := by
  cases plan with
  | act steps =>
    obtain rfl := Option.some.inj ran
    exact runAct_settles reached raises
  | offer target steps =>
    obtain rfl := Option.some.inj ran
    exact runOffer_settles reached raises tidy
  | collect pattern goal result =>
    exact runCollect_settles keeps reached limit pattern goal result reply ran

/-- The attempt to unify a goal with a renamed head or fact, under a choicepoint of its own. -/
theorem attempt_guards (reached : F.reaches base s) {supply : Supply}
    (marks : supply.nextChoicepoint = s.nextMark) (goal candidate : Term) :
    Guards F base (s.withSupply supply).mark.1
      ((s.withSupply supply).mark.2.unify goal candidate).2 :=
  (Guards.mark (F.trans reached (F.returns (withSupply_returns s marks)))).grow (unify_grows ..)

theorem renameApart_marks (t : Term) (names : Renaming) (supply : Supply) :
    (t.renameApart names supply).2.2.nextChoicepoint = supply.nextChoicepoint :=
  Scope.freeze_nextChoicepoint ..

theorem scanRules_settles (keeps : resume.Keeps F) (goal : Term) (group : Group) (next : Nat)
    (rules : List Rule) (s : State) (reached : F.reaches base s) (reply)
    (scanned : scanRules resume goal group next rules s = some reply) :
    reply.SettlesSearch F base := by
  induction rules generalizing next s with
  | nil =>
    obtain rfl := Option.some.inj scanned
    exact reached
  | cons rule rest ih =>
    simp only [scanRules] at scanned
    generalize renamed : rule.head.renameApart [] s.platform.supply = headed at scanned
    generalize names : rule.body.renameApart headed.2.1 headed.2.2 = bodied at scanned
    have marks : bodied.2.2.nextChoicepoint = s.nextMark := by
      rw [← names, renameApart_marks, ← renamed, renameApart_marks]
      rfl
    have guards := attempt_guards reached marks goal headed.1
    obtain ⟨back, rerolled, again⟩ := guards.reroll
    generalize (s.withSupply bodied.2.2).mark = laid at scanned guards rerolled
    generalize laid.2.unify goal headed.1 = tried at scanned guards rerolled
    split at scanned
    · have begun := Query.new_anchored F bodied.1 tried.2
      cases answer : resume (.new bodied.1) tried.2 with
      | none => simp [answer] at scanned
      | some inner =>
        have settled := keeps _ _ _ inner begun answer
        rw [answer] at scanned
        obtain ⟨e | (_ | _ | _), body, state⟩ := inner
        · obtain rfl := Option.some.inj scanned
          refine ⟨settled.1, fun loose => ?_⟩
          exact guards.grow (Query.Anchored.grows body (settled.2 loose))
        · obtain rfl := Option.some.inj scanned
          exact ⟨_, guards, settled⟩
        · obtain rfl := Option.some.inj scanned
          exact ⟨_, guards, settled⟩
        · obtain ⟨left, undone, reached⟩ := (guards.grow (F.grows settled)).reroll
          dsimp only at scanned undone
          rw [undone] at scanned
          exact ih _ left reached scanned
    · rw [rerolled] at scanned
      exact ih _ back again scanned

theorem scanFacts_settles (keeps : resume.Keeps F) (goal : Term) (group : Group) (next : Nat)
    (facts : List Term) (s : State) (reached : F.reaches base s) (reply)
    (scanned : scanFacts ctx resume goal group next facts s = some reply) :
    reply.SettlesSearch F base := by
  induction facts generalizing next s with
  | nil => exact scanRules_settles keeps goal group 0 _ s reached reply scanned
  | cons fact rest ih =>
    simp only [scanFacts] at scanned
    have guards := attempt_guards reached (renameApart_marks fact [] s.platform.supply) goal
      (fact.renameApart [] s.platform.supply).1
    obtain ⟨back, rerolled, again⟩ := guards.reroll
    split at scanned
    · obtain rfl := Option.some.inj scanned
      exact guards
    · rw [rerolled] at scanned
      exact ih _ back again scanned

theorem groupOf_raises {scope : Scope} {goal : Term} {e : Halt}
    (failed : groupOf scope goal = .error e) : ctx.Raises e := by
  unfold groupOf at failed
  split at failed
  · obtain rfl := Except.error.inj failed
    exact .instantiation _
  · split at failed
    · simp at failed
    · obtain rfl := Except.error.inj failed
      exact .invalidGoal _

theorem scan_settles (keeps : resume.Keeps F) (goal : Term) (s : State) (cursor : Cursor)
    (reached : F.reaches base s) (reply)
    (scanned : scan ctx resume goal s cursor = some reply) : reply.SettlesSearch F base := by
  cases cursor with
  | start =>
    simp only [scan] at scanned
    split at scanned
    · rename_i e failed
      obtain rfl := Option.some.inj scanned
      exact ⟨groupOf_raises failed, fun _ => reached⟩
    · exact scanFacts_settles keeps goal _ _ _ s reached reply scanned
  | facts group next => exact scanFacts_settles keeps goal group _ _ s reached reply scanned
  | rules group next => exact scanRules_settles keeps goal group _ _ s reached reply scanned
  | finished =>
    obtain rfl := Option.some.inj scanned
    exact reached

theorem undoAndScan_settles (keeps : resume.Keeps F) (goal : Term) (cursor : Cursor)
    (mark : Option Choicepoint) (guards : GuardsIf F base s mark) (reply)
    (scanned : undoAndScan ctx resume goal cursor mark s = some reply) :
    reply.SettlesSearch F base := by
  obtain ⟨back, rerolled, reached⟩ := guards.reroll
  rw [undoAndScan, rerolled] at scanned
  exact scan_settles keeps goal back cursor reached reply scanned

theorem resumeBody_settles (keeps : resume.Keeps F) (goal : Term) (cursor : Cursor)
    (body : Query) {entered : State} (guards : Guards F base c entered)
    (anchored : body.Anchored F entered s) (reply)
    (resumed : resumeBody ctx resume goal cursor c body s = some reply) :
    reply.SettlesSearch F base := by
  cases answer : resume body s with
  | none => simp [resumeBody, answer] at resumed
  | some inner =>
    have settled := keeps body entered s inner anchored answer
    simp only [resumeBody, answer] at resumed
    obtain ⟨e | (_ | _ | _), next, state⟩ := inner
    · obtain rfl := Option.some.inj resumed
      exact ⟨settled.1, fun loose => ⟨entered, guards, settled.2 loose⟩⟩
    · obtain rfl := Option.some.inj resumed
      exact ⟨entered, guards, settled⟩
    · obtain rfl := Option.some.inj resumed
      exact ⟨entered, guards, settled⟩
    · exact undoAndScan_settles keeps goal cursor (some c) (guards.grow (F.grows settled)) reply
        resumed

/-- Where the right conjunct stands: above a solution of the left one, or not begun. -/
def RightAnchored (F : Footing ctx) (base s : State) (left : Query) : Option Query → Prop
  | some right => ∃ found, left.Anchored F base found ∧ right.Anchored F found s
  | none => left.Anchored F base s

/-- After a solution of the left conjunct the right one is begun, once the clock has been read. -/
theorem rightAnchored_new (rightGoal : Term) {left : Query} (anchored : left.Anchored F base s) :
    RightAnchored F base s.readClock.2 left (some (.new rightGoal)) := by
  have read : Returns s s.readClock.2 := .of_unchanged rfl rfl (Nat.le_refl _)
  exact ⟨s, anchored, F.begins rightGoal _, F.returns read⟩

theorem resumeConj_settles (keeps : resume.Keeps F) (rightGoal : Term) (limit : Nat)
    (left : Query) (right : Option Query) (s : State)
    (anchored : RightAnchored F base s left right) (reply)
    (resumed : resumeConj resume rightGoal limit left right s = some reply) :
    reply.SettlesSearch F base := by
  induction limit generalizing left right s with
  | zero => simp [resumeConj] at resumed
  | succ limit ih =>
    cases right with
    | some right =>
      obtain ⟨found, outer, inner⟩ := anchored
      cases answer : resume right s with
      | none => simp [resumeConj, answer] at resumed
      | some first =>
        have settled := keeps right found s first inner answer
        simp only [resumeConj, answer] at resumed
        obtain ⟨e | (_ | _ | _), next, state⟩ := first
        · obtain rfl := Option.some.inj resumed
          exact ⟨settled.1, fun loose => ⟨found, outer, settled.2 loose⟩⟩
        · obtain rfl := Option.some.inj resumed
          exact ⟨found, outer, settled⟩
        · obtain rfl := Option.some.inj resumed
          exact ⟨found, outer, settled⟩
        · exact ih left none state (Query.Anchored.later left outer settled) resumed
    | none =>
      cases answer : resume left s with
      | none => simp [resumeConj, answer] at resumed
      | some first =>
        have settled := keeps left base s first anchored answer
        simp only [resumeConj, answer] at resumed
        obtain ⟨e | (_ | _ | _), next, state⟩ := first
        · obtain rfl := Option.some.inj resumed
          exact settled
        · have stands := rightAnchored_new rightGoal settled
          dsimp only at resumed
          split at resumed
          · obtain rfl := Option.some.inj resumed
            exact stands
          · exact ih next _ _ stands resumed
        · obtain rfl := Option.some.inj resumed
          exact settled
        · obtain rfl := Option.some.inj resumed
          exact settled

theorem resumeDisjRight_settles (keeps : resume.Keeps F) (right : Query)
    (anchored : right.Anchored F base s) (reply)
    (resumed : resumeDisjRight resume right s = some reply) : reply.SettlesSearch F base := by
  cases answer : resume right s with
  | none => simp [resumeDisjRight, answer] at resumed
  | some inner =>
    have settled := keeps right base s inner anchored answer
    simp only [resumeDisjRight, answer, Option.some.injEq] at resumed
    subst reply
    exact settled

theorem resumeDisj_settles (keeps : resume.Keeps F) (left : Query) (rightGoal : Term)
    (anchored : left.Anchored F base s) (reply)
    (resumed : resumeDisj resume left rightGoal s = some reply) :
    reply.SettlesSearch F base := by
  cases answer : resume left s with
  | none => simp [resumeDisj, answer] at resumed
  | some inner =>
    have settled := keeps left base s inner anchored answer
    simp only [resumeDisj, answer] at resumed
    obtain ⟨e | (_ | _ | _), next, state⟩ := inner
    · obtain rfl := Option.some.inj resumed
      exact settled
    · obtain rfl := Option.some.inj resumed
      exact settled
    · obtain rfl := Option.some.inj resumed
      exact settled
    · exact resumeDisjRight_settles keeps (.new rightGoal) ⟨F.begins rightGoal _, settled⟩ reply
        resumed

/-- The negated goal may be left in the middle: what it has laid above the guard goes with it. -/
theorem resumeNegation_settles (keeps : resume.Keeps F) (inner : Query) {entered : State}
    (guards : Guards F base c entered) (anchored : inner.Anchored F entered s) (reply)
    (resumed : resumeNegation resume inner c s = some reply) : reply.SettlesSearch F base := by
  cases answer : resume inner s with
  | none => simp [resumeNegation, answer] at resumed
  | some first =>
    have settled := keeps inner entered s first anchored answer
    simp only [resumeNegation, answer] at resumed
    obtain ⟨e | (_ | _ | _), next, state⟩ := first
    · obtain rfl := Option.some.inj resumed
      exact ⟨settled.1, fun loose => ⟨entered, guards, settled.2 loose⟩⟩
    · obtain rfl := Option.some.inj resumed
      exact afterReroll_settles (guards.grow (Query.Anchored.grows next settled)) (.inl rfl)
    · obtain rfl := Option.some.inj resumed
      exact ⟨entered, guards, settled⟩
    · obtain rfl := Option.some.inj resumed
      exact afterReroll_settles (guards.grow (F.grows settled)) (.inr rfl)

theorem advance_settles (keeps : resume.Keeps F) (limit : Nat) (search : Search)
    (anchored : search.Anchored F base s) (reply)
    (advanced : search.advance ctx resume limit s = some reply) : reply.SettlesSearch F base := by
  cases search with
  | planned plan =>
    obtain ⟨raises, tidy, reached⟩ := anchored
    exact runPlan_settles keeps limit plan raises tidy reached reply advanced
  | held c =>
    obtain rfl := Option.some.inj advanced
    exact afterReroll_settles anchored (.inl rfl)
  | choosing target rest mark =>
    obtain ⟨back, rerolled, reached⟩ := GuardsIf.reroll anchored
    simp only [advance, rerolled, Option.some.injEq] at advanced
    subst reply
    exact choose_settles target rest back reached
  | spent =>
    obtain rfl := Option.some.inj advanced
    exact anchored
  | recalling goal cursor mark =>
    exact undoAndScan_settles keeps goal cursor mark anchored reply advanced
  | applying goal cursor c body =>
    obtain ⟨entered, guards, inner⟩ := anchored
    exact resumeBody_settles keeps goal cursor body guards inner reply advanced
  | conj left rightGoal =>
    exact resumeConj_settles keeps rightGoal limit left none s anchored reply advanced
  | conjRight left rightGoal right =>
    exact resumeConj_settles keeps rightGoal limit left (some right) s anchored reply advanced
  | disj left rightGoal => exact resumeDisj_settles keeps left rightGoal anchored reply advanced
  | disjRight right => exact resumeDisjRight_settles keeps right anchored reply advanced
  | negation inner mark =>
    cases mark with
    | some c =>
      obtain ⟨entered, guards, below⟩ := anchored
      exact resumeNegation_settles keeps inner guards below reply advanced
    | none =>
      cases inner with
      | pending goal =>
        exact resumeNegation_settles keeps (.pending goal) (Guards.mark anchored)
          (Query.new_anchored F goal _) reply advanced
      | running goal search => exact anchored.elim
      | done goal => exact anchored.elim

theorem call_anchored (reached : F.reaches base s) {name : String} {args : List Term}
    {search : Search} (called : call ctx name args = .ok search) : search.Anchored F base s := by
  unfold call at called
  split at called
  · rename_i action registered
    obtain rfl := Except.ok.inj called
    refine ⟨fun e raised => .action registered raised, ?_, reached⟩
    exact F.offers.imp_left fun tidy => tidy name args action registered
  · simp at called

theorem ofGoal_anchored (reached : F.reaches base s) {goal : Term} {search : Search}
    (begun : ofGoal ctx s.scope goal = .ok search) : search.Anchored F base s := by
  have constant (deed : Deed) : (Search.planned (.once fun _ => .ok deed)).Anchored F base s := by
    refine ⟨?_, .inl trivial, reached⟩
    rintro e ⟨view, failed⟩
    simp [Plan.RaisesIn, Plan.once, Script.Raises] at failed
  have begins (goal : Term) : (Query.new goal).Anchored F base s := ⟨F.begins goal s, reached⟩
  unfold ofGoal at begun
  split at begun
  case h_8 functor args annots _ _ _ _ _ _ _ =>
    split at begun
    · exact call_anchored reached begun
    · obtain rfl := Except.ok.inj begun
      exact reached
  all_goals first
    | (obtain rfl := Except.ok.inj begun
       first | exact constant _ | exact begins _ | exact reached)
    | simp at begun

theorem ofGoal_raises {scope : Scope} {goal : Term} {e : Halt}
    (failed : ofGoal ctx scope goal = .error e) : ctx.Raises e := by
  unfold ofGoal at failed
  split at failed
  case h_1 =>
    obtain rfl := Except.error.inj failed
    exact .instantiation _
  case h_8 functor args annots _ _ _ _ _ _ _ =>
    split at failed
    · unfold call at failed
      split at failed
      · simp at failed
      · obtain rfl := Except.error.inj failed
        exact .unknownAction _ _
    · simp at failed
  case h_9 =>
    obtain rfl := Except.error.inj failed
    exact .invalidGoal _
  all_goals simp at failed

end Search

namespace Query

/-- The part of a settled reply that depends on the stage alone. -/
def StandsAfter (F : Footing ctx) (base : State) (reply : Reply Query) : Prop :=
  Settles F base reply.state (reply.next.Stands F base reply.state) reply.result

theorem ofSearch_stands (goal : Term) {reply : Reply Search}
    (settled : reply.SettlesSearch F base) : StandsAfter F base (ofSearch goal reply) := by
  obtain ⟨e | (_ | _ | _), next, state⟩ := reply <;> exact settled

theorem advance_stands (keeps : resume.Keeps F) (limit : Nat) (q : Query)
    (anchored : q.Anchored F base s) (reply)
    (advanced : q.advance ctx resume limit s = some reply) : StandsAfter F base reply := by
  cases q with
  | pending goal =>
    simp only [advance] at advanced
    split at advanced
    · rename_i e failed
      obtain rfl := Option.some.inj advanced
      exact ⟨Search.ofGoal_raises failed, fun _ => anchored.2⟩
    · rename_i search begun
      obtain ⟨inner, searched, rfl⟩ := Option.map_eq_some_iff.mp advanced
      exact ofSearch_stands goal (Search.advance_settles keeps limit search
        (Search.ofGoal_anchored anchored.2 begun) inner searched)
  | running goal search =>
    obtain ⟨inner, searched, rfl⟩ := Option.map_eq_some_iff.mp advanced
    exact ofSearch_stands goal (Search.advance_settles keeps limit search anchored.2 inner searched)
  | done goal =>
    obtain rfl := Option.some.inj advanced
    exact anchored.2

/-- Resuming keeps every query anchored, in every sense of a footing. -/
theorem resume_keeps (F : Footing ctx) (limit : Nat) :
    Resumption.Keeps F (Query.resume ctx limit) := by
  induction limit with
  | zero =>
    intro q base s reply _ resumed
    simp [Query.resume] at resumed
  | succ limit ih =>
    intro q base s reply anchored resumed
    have stands := advance_stands ih limit q anchored reply resumed
    have known := anchored.underWay
    obtain ⟨e | (_ | _ | _), next, state⟩ := reply
    · exact ⟨stands.1, fun loose =>
        (stands.2 loose).anchored (F.failed loose known ⟨limit + 1, resumed⟩)⟩
    · exact Stands.anchored stands (F.resumed known ⟨limit + 1, resumed⟩)
    · exact Stands.anchored stands (F.resumed known ⟨limit + 1, resumed⟩)
    · exact stands

theorem resume_exhausted {limit : Nat} {q next : Query} {s' : State}
    (resumed : q.resume ctx limit s = some ⟨.ok .exhausted, next, s'⟩) :
    ∃ goal, next = .done goal := by
  have search (goal : Term) (reply : Reply Search)
      (same : ofSearch goal reply = ⟨.ok .exhausted, next, s'⟩) : ∃ goal, next = .done goal := by
    obtain ⟨e | (_ | _ | _), stage, state⟩ := reply <;> simp [ofSearch] at same
    exact ⟨goal, same.1.symm⟩
  cases limit with
  | zero => simp [Query.resume] at resumed
  | succ limit =>
    cases q with
    | pending goal =>
      simp only [Query.resume, advance] at resumed
      split at resumed
      · simp at resumed
      · obtain ⟨reply, -, same⟩ := Option.map_eq_some_iff.mp resumed
        exact search goal reply same
    | running goal stage =>
      obtain ⟨reply, -, same⟩ := Option.map_eq_some_iff.mp resumed
      exact search goal reply same
    | done goal =>
      simp only [Query.resume, advance, Option.some.injEq, Reply.mk.injEq] at resumed
      exact ⟨goal, resumed.2.1.symm⟩

/-- The contract without a limit. An exhausted query stays anchored too, at the base. -/
theorem Resumes.settles {q : Query} {reply : Reply Query} (resumes : q.Resumes ctx s reply)
    (anchored : q.Anchored F base s) :
    (∀ event, reply.result = .ok event → reply.next.Anchored F base reply.state) ∧
      (reply.result = .ok .exhausted → F.reaches base reply.state) ∧
      ∀ e, reply.result = .error e →
        ctx.Raises e ∧ (F.loose → reply.next.Anchored F base reply.state) := by
  obtain ⟨limit, resumed⟩ := resumes
  have settled := resume_keeps F limit q base s reply anchored resumed
  obtain ⟨e | (_ | _ | _), next, state⟩ := reply
  · refine ⟨by simp, by simp, ?_⟩
    intro other same
    obtain rfl := Except.error.inj same
    exact settled
  · exact ⟨fun _ _ => settled, by simp, by simp⟩
  · exact ⟨fun _ _ => settled, by simp, by simp⟩
  · refine ⟨fun _ _ => ?_, fun _ => settled, by simp⟩
    obtain ⟨goal, rfl⟩ := resume_exhausted resumed
    exact ⟨F.resumed anchored.underWay ⟨limit, resumed⟩, settled⟩

end Query

end Deliberation
