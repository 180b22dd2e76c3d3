import Deliberation.Proofs.PairedActions
import Deliberation.Proofs.ResumptionRules

/-! Echoes. A query echoes a reply if it gives the same event, or fails with the same kind of error,
and is paired again with what the reply leaves. Suspensions are its own: where one side gives control
back the other may go on at once, since the clocks differ. A stage around a query echoes as that
query does. -/
namespace Deliberation

variable {P P' : Pairing}

/-- The same event at paired stages, with new pairs where fresh numbers were taken, or errors of the
same kind. -/
inductive Reply.Paired {σ : Type} (stages : Pairing → σ → σ → Prop) (P : Pairing) :
    Reply σ → Reply σ → Prop where
  | ok {P' : Pairing} {event : Event} {next next' : σ} {s s' : State} (more : P.Extends P')
      (nexts : stages P' next next') (states : s.Paired P' s') :
      Paired stages P ⟨.ok event, next, s⟩ ⟨.ok event, next', s'⟩
  | error {e e' : Halt} {next next' : σ} {s s' : State} (kind : e.kind = e'.kind) :
      Paired stages P ⟨.error e, next, s⟩ ⟨.error e', next', s'⟩

theorem Reply.Paired.weaken {σ : Type} {stages : Pairing → σ → σ → Prop} (more : P.Extends P')
    {reply reply' : Reply σ} (paired : reply.Paired stages P' reply') :
    reply.Paired stages P reply' := by
  cases paired with
  | ok more' nexts states => exact .ok (more.trans more') nexts states
  | error kind => exact .error kind

theorem Reply.Paired.ofSearch {reply reply' : Reply Search}
    (paired : reply.Paired Search.Paired P reply') (g g' : Term) :
    (Query.ofSearch g reply).Paired Query.Paired P (Query.ofSearch g' reply') := by
  cases paired with
  | @ok _ event _ _ _ _ more nexts states =>
    cases event with
    | exhausted => exact .ok more .done states
    | _ => exact .ok more (.running nexts) states
  | error kind => exact .error kind

structure Context.Paired (P : Pairing) (ctx ctx' : Context) : Prop where
  mind : ctx.mind.Paired P ctx'.mind
  actions : ctx'.actions = ctx.actions
  calls : ∀ {name arity action}, P.literals name arity →
    ctx.actions.lookup name arity = some action → action.Steady

theorem Context.Paired.mono (more : P.Extends P') {ctx ctx' : Context}
    (paired : ctx.Paired P ctx') : ctx.Paired P' ctx' :=
  ⟨paired.mind.mono more, paired.actions, fun known => paired.calls (more.literals ▸ known)⟩

namespace Search

variable {s s' : State} {ctx ctx' : Context}

theorem afterReroll_paired (states : s.Paired P s') {c d : Choicepoint} (same : P.marks c d)
    (event : Event) {next next' : Search} (nexts : next.Paired P next') :
    (afterReroll s c event next).Paired Search.Paired P (afterReroll s' d event next') := by
  have undone := states.reroll same
  unfold afterReroll
  generalize s.reroll c = r at undone
  generalize s'.reroll d = r' at undone
  cases undone with
  | ok states => exact .ok (.refl P) nexts states
  | error kind => exact .error kind

theorem holdOrUndo_paired {c d : Choicepoint} (same : P.marks c d) {done done' : Bool × State}
    (answers : done.1 = done'.1) (states : done.2.Paired P done'.2) :
    (holdOrUndo c done).Paired Search.Paired P (holdOrUndo d done') := by
  obtain ⟨holds, s⟩ := done
  obtain ⟨holds', s'⟩ := done'
  obtain rfl : holds = holds' := answers
  cases holds with
  | true => exact .ok (.refl P) (.held same) states
  | false => exact afterReroll_paired states same .exhausted .spent

theorem conclude_paired {c d : Choicepoint} (same : P.marks c d)
    {done done' : Except Halt Bool × State} (answers : done.1 = done'.1)
    (states : done.2.Paired P done'.2) :
    (conclude c done).Paired Search.Paired P (conclude d done') := by
  obtain ⟨result, s⟩ := done
  obtain ⟨result', s'⟩ := done'
  obtain rfl : result = result' := answers
  cases result with
  | error e => exact .error rfl
  | ok holds => exact holdOrUndo_paired same rfl states

/-- Nothing that is paired depends on what a look shows of the calendar and of chance. -/
theorem look_paired (contexts : ctx.Paired P ctx') (states : s.Paired P s') :
    (look ctx s).1.Paired P (look ctx' s').1 ∧ (look ctx s).2.Paired P (look ctx' s').2 :=
  ⟨⟨contexts.mind, states.bindings.scope⟩, states.bindings, states.fits⟩

theorem runAct_paired (contexts : ctx.Paired P ctx') (states : s.Paired P s')
    {decide decide' : View → Except Halt Deed}
    (alike : ∀ {P' view view'}, P.Extends P' → view.Paired P' view' →
      Agree (Deed.Paired P') (decide view) (decide' view')) :
    (runAct ctx (fun view => .done (decide view)) s).Paired Search.Paired P
      (runAct ctx' (fun view => .done (decide' view)) s') := by
  obtain ⟨P', more, same, marked⟩ := states.mark
  obtain ⟨views, looked⟩ := look_paired (contexts.mono more) marked
  have deeds := alike more views
  simp only [runAct]
  generalize look ctx s.mark.2 = seen at *
  generalize look ctx' s'.mark.2 = seen' at *
  simp only [Script.run]
  generalize decide seen.1 = deed at deeds
  generalize decide' seen'.1 = deed' at deeds
  cases deeds with
  | error kind => exact .error kind
  | ok deeds =>
    obtain ⟨answers, performed⟩ := looked.perform deeds ctx.mind ctx'.mind
    exact (conclude_paired same answers performed).weaken more

end Search

/-- Attempts to unify paired terms, each under a fresh choicepoint, both succeed, or both fail and
are undone. -/
theorem State.Paired.attempt {s s' : State} (states : s.Paired P s')
    {left left' right right' : Term} (lefts : left.Paired P left')
    (rights : right.Paired P right') :
    ∃ P', P.Extends P' ∧ P'.marks s.mark.1 s'.mark.1 ∧
      ((∃ t t', s.mark.2.unify left right = (true, t) ∧ s'.mark.2.unify left' right' = (true, t') ∧
        t.Paired P' t') ∨
      ∃ t t' back back', s.mark.2.unify left right = (false, t) ∧
        s'.mark.2.unify left' right' = (false, t') ∧ t.reroll s.mark.1 = .ok back ∧
        t'.reroll s'.mark.1 = .ok back' ∧ back.Paired P' back') := by
  obtain ⟨P', more, same, marked⟩ := states.mark
  obtain ⟨answers, unified⟩ := marked.unify (lefts.mono more) (rights.mono more)
  have undo := unified.reroll same
  refine ⟨P', more, same, ?_⟩
  generalize attempted : s.mark.2.unify left right = tried at *
  generalize s'.mark.2.unify left' right' = tried' at *
  obtain ⟨holds, t⟩ := tried
  obtain ⟨back, undone, -⟩ := State.reroll_of_unify attempted
  obtain ⟨holds', t'⟩ := tried'
  obtain rfl : holds = holds' := answers
  cases holds with
  | true => exact .inl ⟨t, t', rfl, rfl, unified⟩
  | false =>
    rw [undone] at undo
    generalize undone' : t'.reroll s'.mark.1 = r at undo
    cases undo with
    | @ok _ back' states => exact .inr ⟨t, t', back, back', rfl, rfl, undone, undone', states⟩

namespace Search

variable {s s' : State} {ctx ctx' : Context}

/-- Choosing, with the search for the next candidate on its own. -/
theorem choose_eq (target : Term) (rest : Candidates) (s : State) :
    choose target rest s = match rest.next? with
      | none => ⟨.ok .exhausted, .spent, s⟩
      | some (candidate, more) =>
        match s.mark.2.unify target candidate with
        | (true, s') => ⟨.ok .solution, .choosing target more (some s.mark.1), s'⟩
        | (false, s') =>
          match s'.reroll s.mark.1 with
          | .error e => ⟨.error e, .choosing target more none, s'⟩
          | .ok back => choose target more back := by
  rw [choose]
  split
  · rename_i finished
    rw [finished]
  · rename_i offered
    exact offered ▸ rfl

theorem choose_paired {target target' : Term} (targets : target.Paired P target')
    {rest rest' : Candidates} (offers : rest.Paired P rest') (states : s.Paired P s') :
    (choose target rest s).Paired Search.Paired P (choose target' rest' s') := by
  induction size : rest.remaining using Nat.strongRecOn generalizing P rest rest' s s' with
  | _ n ih =>
    rw [choose_eq, choose_eq]
    have nexts := offers.next?
    cases offered : rest.next? with
    | none =>
      rw [offered] at nexts
      generalize rest'.next? = next' at nexts
      cases nexts
      exact .ok (.refl P) .spent states
    | some offer =>
      obtain ⟨candidate, later⟩ := offer
      rw [offered] at nexts
      generalize rest'.next? = next' at nexts
      cases nexts with
      | some both =>
        obtain ⟨candidates, laters⟩ := both
        obtain ⟨P', more, same, ⟨t, t', tried, tried', unified⟩ |
          ⟨t, t', back, back', tried, tried', undone, undone', states⟩⟩ :=
          states.attempt targets candidates
        · simp only [tried, tried']
          exact .ok more (.choosing (targets.mono more) (laters.mono more) (.some same)) unified
        · have smaller := Candidates.remaining_of_next? offered
          simp only [tried, tried', undone, undone']
          exact (ih _ (size ▸ smaller) (targets.mono more) (laters.mono more) states
            rfl).weaken more

theorem accept_paired {target target' : Term} (targets : target.Paired P target')
    {offer offer' : Offer} (offers : offer.Paired P offer') (states : s.Paired P s') :
    (accept target offer s).Paired Search.Paired P (accept target' offer' s') := by
  cases offers with
  | of rests => exact choose_paired targets rests ⟨states.bindings, states.fits⟩

theorem runOffer_paired (contexts : ctx.Paired P ctx') (states : s.Paired P s')
    {target target' : Term} (targets : target.Paired P target')
    {candidates candidates' : View → Except Halt Offer}
    (alike : ∀ {P' view view'}, P.Extends P' → view.Paired P' view' →
      Agree (Offer.Paired P') (candidates view) (candidates' view')) :
    (runOffer ctx target (fun view => .done (candidates view)) s).Paired Search.Paired P
      (runOffer ctx' target' (fun view => .done (candidates' view)) s') := by
  obtain ⟨views, looked⟩ := look_paired contexts states
  have offers := alike (.refl P) views
  simp only [runOffer]
  generalize look ctx s = seen at *
  generalize look ctx' s' = seen' at *
  simp only [Script.run]
  generalize candidates seen.1 = offer at offers
  generalize candidates' seen'.1 = offer' at offers
  cases offers with
  | error kind => exact .error kind
  | ok offers => exact accept_paired targets offers looked

end Search

namespace Query

variable {ctx : Context} {q q' : Query} {s s' : State} {reply : Reply Query} {g : Term}

/-- After some suspensions, whatever happens to the rest of the system meanwhile. -/
inductive Eventually (ctx : Context) (goal : Query → State → Prop) : Query → State → Prop where
  | now {q : Query} {s : State} (reached : goal q s) : Eventually ctx goal q s
  | suspended {q next : Query} {s s' : State}
      (answered : q.Resumes ctx s ⟨.ok .suspended, next, s'⟩)
      (later : ∀ s'', State.Undisturbed s' s'' → Eventually ctx goal next s'') :
      Eventually ctx goal q s

/-- A query answers as a reply has it, or it goes on as the stage that the reply has suspended. -/
inductive Echoes (ctx : Context) (P : Pairing) : Reply Query → Query → State → Prop where
  | answers {reply reply' : Reply Query} {q : Query} {s : State}
      (answered : q.Resumes ctx s reply') (paired : reply.Paired Query.Paired P reply') :
      Echoes ctx P reply q s
  | lags {P' : Pairing} {next q q' : Query} {t s s' : State} (mimics : q.Mimics ctx s q' s')
      (more : P.Extends P') (nexts : next.Paired P' q') (states : t.Paired P' s') :
      Echoes ctx P ⟨.ok .suspended, next, t⟩ q s

/-- A query comes to echo a reply. -/
def Echo (ctx : Context) (P : Pairing) (reply : Reply Query) : Query → State → Prop :=
  Eventually ctx (Echoes ctx P reply)

theorem Mimics.refl (ctx : Context) (q : Query) (s : State) : q.Mimics ctx s q s :=
  fun _ answered => answered.gives

theorem Eventually.bind {goal goal' : Query → State → Prop} (eventually : Eventually ctx goal q s)
    (onward : ∀ q s, goal q s → Eventually ctx goal' q s) : Eventually ctx goal' q s := by
  induction eventually with
  | now reached => exact onward _ _ reached
  | suspended answered _ ih => exact .suspended answered ih

namespace Echo

theorem of_resumes {reply' : Reply Query} (answered : q.Resumes ctx s reply')
    (paired : reply.Paired Query.Paired P reply') : Echo ctx P reply q s :=
  .now (.answers answered paired)

theorem of_mimics (mimics : q.Mimics ctx s q' s') (echo : Echo ctx P reply q' s') :
    Echo ctx P reply q s := by
  cases echo with
  | now reached =>
    refine .now ?_
    cases reached with
    | lags inner more nexts states => exact .lags (mimics.trans inner) more nexts states
    | answers answered paired =>
      cases paired with
      | ok more nexts states => exact .answers (mimics.resumes answered) (.ok more nexts states)
      | error kind =>
        obtain ⟨last, outer, -⟩ := mimics _ answered
        exact .answers outer (.error kind)
  | suspended answered later => exact .suspended (mimics.resumes answered) later

theorem weaken (more : P.Extends P') (echo : Echo ctx P' reply q s) : Echo ctx P reply q s := by
  refine Eventually.bind echo fun q s reached => .now ?_
  cases reached with
  | answers answered paired => exact .answers answered (paired.weaken more)
  | lags mimics more' nexts states => exact .lags mimics (more.trans more') nexts states

/-- A search that needs no inner query to answer. -/
theorem of_advance {found : Reply Search} (found' : Reply Search) {search : Search} {n : Nat}
    {g' : Term} (advanced : search.advance ctx (Query.resume ctx n) n s = some found')
    (paired : found.Paired Search.Paired P found') :
    Echo ctx P (ofSearch g found) (running g' search) s :=
  of_resumes (running_resumes found' n advanced) (paired.ofSearch g g')

end Echo

end Query

/-- A stage that begins by resuming a query inside it, and hands its suspensions and errors on. -/
structure Search.Around (ctx : Context) (stage : Query → Search) where
  go : Nat → Reply Query → Option (Reply Search)
  begins : ∀ n q s, (stage q).advance ctx (Query.resume ctx n) n s =
    (Query.resume ctx n q s).bind (go n)
  suspended : ∀ n next s, go n ⟨.ok .suspended, next, s⟩ = some ⟨.ok .suspended, stage next, s⟩
  error : ∀ n e next s, ∃ last, go n ⟨.error e, next, s⟩ = some ⟨.error e, last, s⟩

namespace Search.Around

open Query

variable {ctx : Context} {stage : Query → Search} (around : Around ctx stage) {q q' next : Query}
  {s s' : State} {g : Term}
include around

theorem resumes {reply : Reply Query} {found : Reply Search} (answered : q.Resumes ctx s reply)
    (went : ∀ n, around.go n reply = some found) :
    (running g (stage q)).Resumes ctx s (ofSearch g found) := by
  obtain ⟨n, resumed⟩ := answered
  refine running_resumes found n ?_
  rw [around.begins, resumed, Option.bind_some, went]

theorem suspends (answered : q.Resumes ctx s ⟨.ok .suspended, next, s'⟩) :
    (running g (stage q)).Resumes ctx s ⟨.ok .suspended, running g (stage next), s'⟩ :=
  around.resumes answered fun n => around.suspended n next s'

theorem fails {e : Halt} (answered : q.Resumes ctx s ⟨.error e, next, s'⟩) :
    ∃ last, (running g (stage q)).Resumes ctx s ⟨.error e, running g last, s'⟩ := by
  obtain ⟨n, resumed⟩ := answered
  obtain ⟨last, failed⟩ := around.error n e next s'
  refine ⟨last, running_resumes ⟨.error e, last, s'⟩ n ?_⟩
  rw [around.begins, resumed, Option.bind_some, failed]

/-- A stage around a query goes on as the stage around another that the query goes on as. -/
theorem mimics (inner : q.Mimics ctx s q' s') :
    (running g (stage q)).Mimics ctx s (running g (stage q')) s' := by
  intro reply answered
  obtain ⟨n, advanced⟩ := running_resumes_iff.mp answered
  obtain ⟨found, entered, rfl⟩ := Option.map_eq_some_iff.mp advanced
  have begun := entered
  rw [around.begins] at begun
  obtain ⟨first, resumed, -⟩ := Option.bind_eq_some_iff.mp begun
  obtain ⟨last, ⟨m, resumed'⟩, same⟩ := inner first ⟨n, resumed⟩
  -- Both queries answer under the greater limit.
  have more := resume_mono ctx (Nat.le_max_left n m)
  have went := Search.advance_mono more (Nat.le_max_left n m) ctx s' _ found entered
  rw [around.begins, more q' s' first resumed, Option.bind_some] at went
  have resumes := resume_mono ctx (Nat.le_max_right n m) q s _ resumed'
  obtain ⟨result, stage', state⟩ := first
  cases result with
  | ok event =>
    obtain rfl := same event rfl
    refine ⟨_, running_resumes found (max n m) ?_, fun _ _ => rfl⟩
    rw [around.begins, resumes, Option.bind_some, went]
  | error e =>
    obtain ⟨_, failed⟩ := around.error (max n m) e stage' state
    obtain rfl := Option.some.inj (failed.symm.trans went)
    obtain ⟨last', failed'⟩ := around.fails (g := g) ⟨max n m, resumes⟩
    exact ⟨_, failed', nofun⟩

theorem echo_suspended {outer : Query → Search} {g' : Term} {t : State}
    (echo : Echo ctx P ⟨.ok .suspended, next, t⟩ q s)
    (stages : ∀ {P' next next'}, P.Extends P' → next.Paired P' next' →
      (outer next).Paired P' (stage next')) :
    Echo ctx P ⟨.ok .suspended, running g' (outer next), t⟩ (running g (stage q)) s := by
  generalize inner : Reply.mk (.ok .suspended) next t = reply at echo
  induction echo with
  | suspended answered _ ih => exact .suspended (around.suspends answered) ih
  | now reached =>
    subst inner
    refine .now ?_
    cases reached with
    | lags mimics more nexts states =>
      exact .lags (around.mimics mimics) more (.running (stages more nexts)) states
    | answers answered paired =>
      cases paired with
      | ok more nexts states =>
        exact .answers (around.suspends answered) (.ok more (.running (stages more nexts)) states)

theorem echo_error {e : Halt} {last : Query} {t : State}
    (echo : Echo ctx P ⟨.error e, next, t⟩ q s) :
    Echo ctx P ⟨.error e, last, t⟩ (running g (stage q)) s := by
  generalize inner : Reply.mk (.error e) next t = reply at echo
  induction echo with
  | suspended answered _ ih => exact .suspended (around.suspends answered) ih
  | now reached =>
    subst inner
    cases reached with
    | answers answered paired =>
      cases paired with
      | error kind =>
        obtain ⟨last, failed⟩ := around.fails answered
        exact .now (.answers failed (.error kind))

/-- What is done with another event is left to the stage. -/
theorem echo_onward {event : Event} {t : State} {reply : Reply Query}
    (echo : Echo ctx P ⟨.ok event, next, t⟩ q s) (other : event ≠ .suspended)
    (onward : ∀ {P' q s next' s'}, P.Extends P' → next.Paired P' next' → t.Paired P' s' →
      q.Resumes ctx s ⟨.ok event, next', s'⟩ → Echo ctx P' reply (running g (stage q)) s) :
    Echo ctx P reply (running g (stage q)) s := by
  generalize inner : Reply.mk (.ok event) next t = reply' at echo
  induction echo with
  | suspended answered _ ih => exact .suspended (around.suspends answered) ih
  | now reached =>
    subst inner
    cases reached with
    | lags => exact absurd rfl other
    | answers answered paired =>
      cases paired with
      | ok more nexts states => exact (onward more nexts states answered).weaken more

end Search.Around

namespace Search

variable {ctx : Context} {goal r : Term} {left : Query} {cursor : Cursor} {c : Choicepoint}

def aroundConj : Around ctx (.conj · r) where
  go n
    | ⟨.ok .solution, left, s⟩ =>
      if s.readClock.2.intention.isWaiting s.readClock.1 then
        some ⟨.ok .suspended, .conjRight left r (.new r), s.readClock.2⟩
      else resumeConj (Query.resume ctx n) r (n - 1) left (some (.new r)) s.readClock.2
    | ⟨result, left, s⟩ => some ⟨result, .conj left r, s⟩
  begins n q s := by
    cases n with
    | zero => rfl
    | succ n =>
      simp only [advance, resumeConj]
      rcases Query.resume ctx (n + 1) q s with _ | ⟨_ | (_ | _ | _), next, s'⟩ <;> rfl
  suspended _ _ _ := rfl
  error _ _ _ _ := ⟨_, rfl⟩

def aroundConjRight : Around ctx (.conjRight left r ·) where
  go n
    | ⟨.ok .exhausted, _, s⟩ => resumeConj (Query.resume ctx n) r (n - 1) left none s
    | ⟨result, right, s⟩ => some ⟨result, .conjRight left r right, s⟩
  begins n q s := by
    cases n with
    | zero => rfl
    | succ n =>
      simp only [advance, resumeConj]
      rcases Query.resume ctx (n + 1) q s with _ | ⟨_ | (_ | _ | _), next, s'⟩ <;> rfl
  suspended _ _ _ := rfl
  error _ _ _ _ := ⟨_, rfl⟩

def aroundBody : Around ctx (.applying goal cursor c ·) where
  go n
    | ⟨.ok .exhausted, _, s⟩ => undoAndScan ctx (Query.resume ctx n) goal cursor (some c) s
    | ⟨result, body, s⟩ => some ⟨result, .applying goal cursor c body, s⟩
  begins n q s := by
    simp only [advance, resumeBody]
    rcases Query.resume ctx n q s with _ | ⟨_ | (_ | _ | _), next, s'⟩ <;> rfl
  suspended _ _ _ := rfl
  error _ _ _ _ := ⟨_, rfl⟩

def aroundDisj : Around ctx (.disj · r) where
  go n
    | ⟨.ok .exhausted, _, s⟩ => resumeDisjRight (Query.resume ctx n) (.new r) s
    | ⟨result, left, s⟩ => some ⟨result, .disj left r, s⟩
  begins n q s := by
    simp only [advance, resumeDisj]
    rcases Query.resume ctx n q s with _ | ⟨_ | (_ | _ | _), next, s'⟩ <;> rfl
  suspended _ _ _ := rfl
  error _ _ _ _ := ⟨_, rfl⟩

def aroundDisjRight : Around ctx .disjRight where
  go _ := fun ⟨result, right, s⟩ => some ⟨result, .disjRight right, s⟩
  begins n q s := by
    simp only [advance, resumeDisjRight]
    rcases Query.resume ctx n q s with _ | ⟨_ | (_ | _ | _), next, s'⟩ <;> rfl
  suspended _ _ _ := rfl
  error _ _ _ _ := ⟨_, rfl⟩

def aroundNegation : Around ctx (.negation · (some c)) where
  go _
    | ⟨.ok .solution, _, s⟩ => some (afterReroll s c .exhausted .spent)
    | ⟨.ok .exhausted, _, s⟩ => some (afterReroll s c .solution .spent)
    | ⟨result, inner, s⟩ => some ⟨result, .negation inner (some c), s⟩
  begins n q s := by
    simp only [advance, resumeNegation]
    rcases Query.resume ctx n q s with _ | ⟨_ | (_ | _ | _), next, s'⟩ <;> rfl
  suspended _ _ _ := rfl
  error _ _ _ _ := ⟨_, rfl⟩

end Search

end Deliberation
