import Deliberation.Proofs.AcyclicCourses
import Deliberation.Proofs.IndexedSearch
import Deliberation.Proofs.UnificationCalls

/-! The annotations of a goal. Connectives and actions are recognised by functor and arguments, and
the clauses of the beliefs unify with a literal whatever it is annotated with. So goals that differ in
their annotations are searched for in the same way, but for the two constants: with annotations they
are looked up in the beliefs. -/
namespace Deliberation

variable {functor : String} {args annots annots' : List Term}

/-- Two literals unify by their functors and arguments. -/
theorem Bindings.unify_lit {b : Bindings} (acyclic : b.scope.Acyclic) {t : Term} {g : Group}
    (keyed : t.group? = some g) :
    b.unify (.lit functor args annots) t = b.unify (.lit functor args annots') t := by
  obtain ⟨args', annots'', rfl, -⟩ := Term.eq_lit_of_group? keyed
  rw [unify_eq_answer acyclic, unify_eq_answer acyclic]
  rfl

theorem State.unify_lit {s : State} (straight : s.Straight) {t : Term} {g : Group}
    (keyed : t.group? = some g) :
    s.unify (.lit functor args annots) t = s.unify (.lit functor args annots') t := by
  have same := @Bindings.unify_lit functor args annots annots' s.bindings straight.acyclic t g keyed
  rw [State.unify, State.unify, same]

/-- The resumption leaves straight states behind in straight states. -/
def Resumption.KeepsStraight (resume : Resumption) : Prop :=
  ∀ q s reply, s.Straight → resume q s = some reply → reply.state.Straight

theorem Query.resume_keepsStraight (ctx : Context) (limit : Nat) :
    Resumption.KeepsStraight (resume ctx limit) := by
  intro q s reply straight resumed
  obtain ⟨trace, course⟩ := resume_follows ctx limit q s reply resumed
  exact (course.straight straight).state

namespace Search

/-- Stages that differ in the annotations of the goal at most. -/
inductive Reannotated (functor : String) (args annots annots' : List Term) : Search → Search → Prop
  where
  | same (search : Search) : Reannotated functor args annots annots' search search
  | recalling (cursor : Cursor) (mark : Option Choicepoint) :
    Reannotated functor args annots annots' (.recalling (.lit functor args annots) cursor mark)
      (.recalling (.lit functor args annots') cursor mark)
  | applying (cursor : Cursor) (mark : Choicepoint) (body : Query) :
    Reannotated functor args annots annots' (.applying (.lit functor args annots) cursor mark body)
      (.applying (.lit functor args annots') cursor mark body)

section

variable {ctx : Context} {resume : Resumption} (keeps : resume.KeepsStraight)
include keeps

theorem scanRules_reannotated {group : Group} {rest : List Rule}
    (keyed : ∀ rule ∈ rest, rule.head.group? = some group) (i : Nat) {s : State}
    (straight : s.Straight) :
    Option.Rel (Reply.Like (Reannotated functor args annots annots'))
      (scanRules resume (.lit functor args annots) group i rest s)
      (scanRules resume (.lit functor args annots') group i rest s) := by
  induction rest generalizing i s with
  | nil => exact .some ⟨rfl, rfl, fun more => absurd rfl more⟩
  | cons rule rest ih =>
    obtain ⟨here, later⟩ := List.forall_mem_cons.mp keyed
    have headed := Term.group?_renameApart here [] s.platform.supply
    simp only [scanRules]
    generalize rule.head.renameApart [] s.platform.supply = head at headed ⊢
    generalize rule.body.renameApart head.2.1 head.2.2 = body
    have taken := (straight.withSupply body.2.2).mark
    generalize (s.withSupply body.2.2).mark = marked at taken ⊢
    have alike : marked.2.unify (.lit functor args annots) head.1 =
      marked.2.unify (.lit functor args annots') head.1 := State.unify_lit taken headed
    have tried := taken.unify (.lit functor args annots') head.1
    -- Both attempts end in one state, and from there on nothing but the goal that is kept differs.
    rw [alike]
    generalize marked.2.unify (.lit functor args annots') head.1 = attempt at tried ⊢
    obtain ⟨ok, t⟩ := attempt
    cases ok with
    | false =>
      dsimp only
      cases undone : t.reroll marked.1 with
      | error e => exact .some ⟨rfl, rfl, fun _ => .recalling _ _⟩
      | ok back => exact ih later (i + 1) (tried.reroll undone)
    | true =>
      dsimp only
      cases ran : resume (.new body.1) t with
      | none => exact .none
      | some reply =>
        have after := keeps _ _ _ tried ran
        obtain ⟨e | (_ | _ | _), inner, u⟩ := reply
        · exact .some ⟨rfl, rfl, fun _ => .recalling _ _⟩
        · exact .some ⟨rfl, rfl, fun _ => .applying _ _ _⟩
        · exact .some ⟨rfl, rfl, fun _ => .applying _ _ _⟩
        · dsimp only
          cases undone : u.reroll marked.1 with
          | error e => exact .some ⟨rfl, rfl, fun _ => .recalling _ _⟩
          | ok back => exact ih later (i + 1) (after.reroll undone)

section

variable (indexed : ∀ group, ∀ clause ∈ Sweep.own ctx group, clause.group? = some group)
include indexed

theorem scanFacts_reannotated {group : Group} {rest : List Term}
    (keyed : ∀ fact ∈ rest, fact.group? = some group) (i : Nat) {s : State}
    (straight : s.Straight) :
    Option.Rel (Reply.Like (Reannotated functor args annots annots'))
      (scanFacts ctx resume (.lit functor args annots) group i rest s)
      (scanFacts ctx resume (.lit functor args annots') group i rest s) := by
  induction rest generalizing i s with
  | nil =>
    refine scanRules_reannotated keeps (fun rule member => ?_) 0 straight
    exact indexed group (.rule rule) (List.mem_append_right _ (List.mem_map_of_mem member))
  | cons fact rest ih =>
    obtain ⟨here, later⟩ := List.forall_mem_cons.mp keyed
    have copied := Term.group?_renameApart here [] s.platform.supply
    simp only [scanFacts]
    generalize fact.renameApart [] s.platform.supply = copy at copied ⊢
    have taken := (straight.withSupply copy.2.2).mark
    generalize (s.withSupply copy.2.2).mark = marked at taken ⊢
    have alike : marked.2.unify (.lit functor args annots) copy.1 =
      marked.2.unify (.lit functor args annots') copy.1 := State.unify_lit taken copied
    have tried := taken.unify (.lit functor args annots') copy.1
    rw [alike]
    generalize marked.2.unify (.lit functor args annots') copy.1 = attempt at tried ⊢
    obtain ⟨ok, t⟩ := attempt
    cases ok with
    | true => exact .some ⟨rfl, rfl, fun _ => .recalling _ _⟩
    | false =>
      dsimp only
      cases undone : t.reroll marked.1 with
      | error e => exact .some ⟨rfl, rfl, fun _ => .recalling _ _⟩
      | ok back => exact ih later (i + 1) (tried.reroll undone)

theorem undoAndScan_reannotated (cursor : Cursor) (mark : Option Choicepoint) {s : State}
    (straight : s.Straight) :
    Option.Rel (Reply.Like (Reannotated functor args annots annots'))
      (undoAndScan ctx resume (.lit functor args annots) cursor mark s)
      (undoAndScan ctx resume (.lit functor args annots') cursor mark s) := by
  have facts (group : Group) (i : Nat) : ∀ fact ∈ (ctx.mind.beliefs.lookup group).drop i,
      fact.group? = some group := fun fact member => indexed group (.fact fact)
    (List.mem_append_left _ (List.mem_map_of_mem (List.mem_of_mem_drop member)))
  have rules (group : Group) (i : Nat) : ∀ rule ∈ (ctx.mind.beliefs.rules group).drop i,
      rule.head.group? = some group := fun rule member => indexed group (.rule rule)
    (List.mem_append_right _ (List.mem_map_of_mem (List.mem_of_mem_drop member)))
  have back {t : State} (undone : s.rerollIf mark = .ok t) : t.Straight := by
    cases mark with
    | none =>
      obtain rfl := Except.ok.inj undone
      exact straight
    | some c => exact straight.reroll undone
  simp only [undoAndScan]
  cases undone : s.rerollIf mark with
  | error e => exact .some ⟨rfl, rfl, fun _ => .recalling _ _⟩
  | ok t =>
    have straight := back undone
    cases cursor with
    | start => exact scanFacts_reannotated keeps indexed (facts _ 0) 0 straight
    | facts group next => exact scanFacts_reannotated keeps indexed (facts group next) next straight
    | rules group next => exact scanRules_reannotated keeps (rules group next) next straight
    | finished => exact .some ⟨rfl, rfl, fun more => absurd rfl more⟩

theorem advance_reannotated {search search' : Search}
    (same : Reannotated functor args annots annots' search search') (limit : Nat) {s : State}
    (straight : s.Straight) :
    Option.Rel (Reply.Like (Reannotated functor args annots annots'))
      (search.advance ctx resume limit s) (search'.advance ctx resume limit s) := by
  cases same with
  | same =>
    cases search.advance ctx resume limit s with
    | none => exact .none
    | some reply => exact .some ⟨rfl, rfl, fun _ => .same _⟩
  | recalling cursor mark => exact undoAndScan_reannotated keeps indexed cursor mark straight
  | applying cursor mark body =>
    simp only [advance, resumeBody]
    cases ran : resume body s with
    | none => exact .none
    | some reply =>
      have after := keeps _ _ _ straight ran
      obtain ⟨e | (_ | _ | _), inner, t⟩ := reply
      · exact .some ⟨rfl, rfl, fun _ => .applying _ _ _⟩
      · exact .some ⟨rfl, rfl, fun _ => .applying _ _ _⟩
      · exact .some ⟨rfl, rfl, fun _ => .applying _ _ _⟩
      · exact undoAndScan_reannotated keeps indexed cursor (some mark) after

end

end

/-- What is neither a connective nor a constant is called or looked up. -/
theorem ofGoal_ordinary (ctx : Context) (scope : Scope)
    (notAnd : ∀ left right, functor = "&" → args = [left, right] → False)
    (notOr : ∀ left right, functor = "|" → args = [left, right] → False)
    (notNot : ∀ inner, functor = "not" → args = [inner] → False)
    (notEquation : ∀ left right, functor = "=" → args = [left, right] → False)
    (notTrue : functor = "true" → args = [] → annots = [] → False)
    (notFalse : functor = "false" → args = [] → annots = [] → False) :
    ofGoal ctx scope (.lit functor args annots) =
      if isActionName functor then call ctx functor args
      else .ok (.recalling (.lit functor args annots) .start none) := by
  rw [ofGoal, show scope.walk (.lit functor args annots) = .lit functor args annots from rfl]
  split
  case h_1 same => cases same
  case h_2 same =>
    obtain ⟨rfl, rfl, rfl⟩ := Term.lit.inj same
    exact (notTrue rfl rfl rfl).elim
  case h_3 same =>
    obtain ⟨rfl, rfl, rfl⟩ := Term.lit.inj same
    exact (notFalse rfl rfl rfl).elim
  case h_4 same =>
    obtain ⟨rfl, rfl, rfl⟩ := Term.lit.inj same
    exact (notAnd _ _ rfl rfl).elim
  case h_5 same =>
    obtain ⟨rfl, rfl, rfl⟩ := Term.lit.inj same
    exact (notOr _ _ rfl rfl).elim
  case h_6 same =>
    obtain ⟨rfl, rfl, rfl⟩ := Term.lit.inj same
    exact (notNot _ rfl rfl).elim
  case h_7 same =>
    obtain ⟨rfl, rfl, rfl⟩ := Term.lit.inj same
    exact (notEquation _ _ rfl rfl).elim
  case h_8 same =>
    obtain ⟨rfl, rfl, rfl⟩ := Term.lit.inj same
    rfl
  case h_9 literal => exact absurd rfl (literal functor args annots)

/-- Both goals are recognised as the same constant, connective or action, or are both looked up. -/
theorem ofGoal_reannotated (ctx : Context) (scope : Scope)
    (apart : functor ∈ ["true", "false"] → args = [] → (annots = [] ↔ annots' = [])) :
    (∃ e, ofGoal ctx scope (.lit functor args annots) = .error e ∧
      ofGoal ctx scope (.lit functor args annots') = .error e) ∨
    ∃ search search', ofGoal ctx scope (.lit functor args annots) = .ok search ∧
      ofGoal ctx scope (.lit functor args annots') = .ok search' ∧
      Reannotated functor args annots annots' search search' := by
  rw [ofGoal, show scope.walk (.lit functor args annots) = .lit functor args annots from rfl]
  split
  case h_1 same => cases same
  case h_2 same | h_3 same =>
    obtain ⟨rfl, rfl, rfl⟩ := Term.lit.inj same
    obtain rfl := (apart (by simp) rfl).mp rfl
    exact .inr ⟨_, _, rfl, rfl, .same _⟩
  case h_4 same | h_5 same | h_6 same | h_7 same =>
    obtain ⟨rfl, rfl, rfl⟩ := Term.lit.inj same
    exact .inr ⟨_, _, rfl, rfl, .same _⟩
  case h_8 same =>
    obtain ⟨rfl, rfl, rfl⟩ := Term.lit.inj same
    rename_i notAnd notOr notNot notEquation notTrue notFalse
    rw [ofGoal_ordinary ctx scope notAnd notOr notNot notEquation
      (fun named none bare => notTrue named none ((apart (by simp [named]) none).mpr bare))
      (fun named none bare => notFalse named none ((apart (by simp [named]) none).mpr bare))]
    split
    · cases call ctx functor args with
      | error e => exact .inl ⟨e, rfl, rfl⟩
      | ok search => exact .inr ⟨_, _, rfl, rfl, .same _⟩
    · exact .inr ⟨_, _, rfl, rfl, .recalling _ _⟩
  case h_9 literal => exact absurd rfl (literal functor args annots)

end Search

namespace Query

variable {ctx : Context}

/-- Queries that differ in the annotations of their goals at most. -/
inductive Reannotated (functor : String) (args annots annots' : List Term) : Query → Query → Prop
  where
  | pending : Reannotated functor args annots annots' (.new (.lit functor args annots))
      (.new (.lit functor args annots'))
  | running {g g' : Term} {search search' : Search}
    (same : search.Reannotated functor args annots annots' search') :
    Reannotated functor args annots annots' (.running g search) (.running g' search')

theorem ofSearch_reannotated {g g' : Term} {found found' : Reply Search}
    (like : Reply.Like (Search.Reannotated functor args annots annots') found found') :
    Reply.Like (Reannotated functor args annots annots') (ofSearch g found) (ofSearch g' found') := by
  obtain ⟨result, search, s⟩ := found
  obtain ⟨result', search', s'⟩ := found'
  obtain ⟨rfl, rfl, next⟩ := like
  by_cases last : result = .ok .exhausted
  · subst last
    exact ⟨rfl, rfl, fun more => absurd rfl more⟩
  · rw [ofSearch_of_ne last, ofSearch_of_ne last]
    exact ⟨rfl, rfl, fun _ => .running (next last)⟩

theorem resume_reannotated (indexed : ∀ group, ∀ clause ∈ Sweep.own ctx group,
      clause.group? = some group)
    (apart : functor ∈ ["true", "false"] → args = [] → (annots = [] ↔ annots' = []))
    {q q' : Query} (same : Reannotated functor args annots annots' q q') (limit : Nat) {s : State}
    (straight : s.Straight) :
    Option.Rel (Reply.Like (Reannotated functor args annots annots')) (resume ctx limit q s)
      (resume ctx limit q' s) := by
  cases limit with
  | zero => exact .none
  | succ limit =>
    have searched {g g' : Term} {search search' : Search}
        (same : search.Reannotated functor args annots annots' search') :
        Option.Rel (Reply.Like (Reannotated functor args annots annots'))
          ((search.advance ctx (resume ctx limit) limit s).map (ofSearch g))
          ((search'.advance ctx (resume ctx limit) limit s).map (ofSearch g')) := by
      have like := Search.advance_reannotated (resume_keepsStraight ctx limit) indexed same limit
        straight
      generalize search.advance ctx (resume ctx limit) limit s = found at like ⊢
      generalize search'.advance ctx (resume ctx limit) limit s = found' at like ⊢
      cases like with
      | none => exact .none
      | some like => exact .some (ofSearch_reannotated like)
    cases same with
    | running same => exact searched same
    | pending =>
      simp only [resume, new, advance]
      rcases Search.ofGoal_reannotated ctx s.scope apart with
        ⟨e, failed, failed'⟩ | ⟨search, search', begun, begun', same⟩
      · rw [failed, failed']
        exact .some ⟨rfl, rfl, fun _ => .pending⟩
      · rw [begun, begun']
        exact searched same

/-- Straight away resumed after each solution, a query comes to straight states only. -/
theorem solutions_straight {limit n : Nat} {q : Query} {s : State} {states : List State}
    (found : solutions (resume ctx limit) n q s = some states) (straight : s.Straight) :
    ∀ t ∈ states, t.Straight := by
  induction n generalizing q s states with
  | zero =>
    obtain rfl := Option.some.inj found
    simp
  | succ n ih =>
    simp only [solutions] at found
    split at found
    · rename_i next t answered
      obtain ⟨rest, more, rfl⟩ := Option.map_eq_some_iff.mp found
      have here := resume_keepsStraight ctx limit q s _ straight answered
      exact List.forall_mem_cons.mpr ⟨here, ih more here⟩
    · simp at found

/-- Goals that differ in their annotations only are answered alike: the same events and errors in the
same states, number by number, however the query is resumed. Only a constant is told from the same
name with annotations, which is looked up in the beliefs. -/
theorem goal_annotations_take_no_part (changes : List BeliefBase.Change) (ctx : Context)
    (kept : ctx.mind.beliefs = .after {} changes) (functor : String)
    (args annots annots' : List Term)
    (apart : functor ∈ ["true", "false"] → args = [] → (annots = [] ↔ annots' = []))
    (s : State) (straight : s.Straight) (limit : Nat) :
    (∀ exchanges, (∀ exchange ∈ exchanges, exchange.again.Straight) →
      (Yields (resume ctx limit) (.new (.lit functor args annots)) s exchanges ↔
        Yields (resume ctx limit) (.new (.lit functor args annots')) s exchanges)) ∧
    ∀ n, solutions (resume ctx limit) n (.new (.lit functor args annots)) s =
      solutions (resume ctx limit) n (.new (.lit functor args annots')) s := by
  have keeps : ctx.mind.beliefs.Keeps (Ledger.after {} changes) :=
    kept ▸ BeliefBase.start_keeps.after changes
  have indexed (group : Group) : ∀ clause ∈ Sweep.own ctx group, clause.group? = some group := by
    intro clause member
    rw [own_eq_within keeps] at member
    simpa using (List.mem_filter.mp member).2
  have alike (exchanges : List Exchange) (later : ∀ exchange ∈ exchanges, exchange.again.Straight) :
      Yields (resume ctx limit) (.new (.lit functor args annots)) s exchanges ↔
        Yields (resume ctx limit) (.new (.lit functor args annots')) s exchanges := by
    refine yields_iff_of_like_in State.Straight (Reannotated functor args annots annots')
      (fun q q' t here same => ?_) .pending straight later
    exact resume_reannotated indexed apart same limit here
  have each {states : List State} (known : ∀ t ∈ states, t.Straight) :
      ∀ exchange ∈ states.map fun t => (⟨.ok .solution, t, t⟩ : Exchange),
        exchange.again.Straight := by
    simpa using known
  refine ⟨alike, fun n => Option.ext fun states => ⟨fun found => ?_, fun found => ?_⟩⟩
  · obtain ⟨length, yields⟩ := solutions_eq_some_iff.mp found
    exact solutions_eq_some_iff.mpr
      ⟨length, (alike _ (each (solutions_straight found straight))).mp yields⟩
  · obtain ⟨length, yields⟩ := solutions_eq_some_iff.mp found
    exact solutions_eq_some_iff.mpr
      ⟨length, (alike _ (each (solutions_straight found straight))).mpr yields⟩

/-- The goals `p(Y)[u]` and `p(Y)[1, W]` have the two solutions of `p(Y)`. -/
theorem goal_annotations_take_no_part_facts :
    let run (annots : List Term) := solutions (resume (believing interleaved) 2) 2
      (.new (.lit "p" [.var ⟨1⟩] annots)) (startingWith {} 3)
    (run []).isSome = true ∧ run [.atom "u"] = run [] ∧ run [.int 1, .var ⟨2⟩] = run [] := by
  have straight : (startingWith {} 3).Straight := ⟨Scope.empty_acyclic, List.nodup_nil⟩
  have same (annots : List Term) := (goal_annotations_take_no_part interleaved
    (believing interleaved) rfl "p" [.var ⟨1⟩] annots [] (by simp) _ straight 2).2 2
  exact ⟨by decide +kernel, same _, same _⟩

/-- The constant `true` has a solution. With an annotation it is a goal for the beliefs, and where
there are none it has no solution. -/
theorem annotated_constant_is_no_constant :
    ¬∀ (changes : List BeliefBase.Change) (ctx : Context), ctx.mind.beliefs = .after {} changes →
      ∀ (functor : String) (args annots annots' : List Term) (s : State), s.Straight →
      ∀ limit n, (solutions (resume ctx limit) n (.new (.lit functor args annots)) s).isSome =
        (solutions (resume ctx limit) n (.new (.lit functor args annots')) s).isSome := by
  intro always
  have straight : (startingWith {} 0).Straight := ⟨Scope.empty_acyclic, List.nodup_nil⟩
  have same := always [] (believing []) rfl "true" [] [] [.atom "a"] _ straight 1 1
  exact absurd same (by decide +kernel)

end Query

end Deliberation
