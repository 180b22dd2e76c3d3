import Deliberation.Library
import Deliberation.Proofs.BeliefLedger
import Deliberation.Proofs.OwnVariables

/-! Looking under one group only. A query of the beliefs reads the group off its goal once and tries
the facts and rules of that group, while bindings come and go. A search through any list of clauses
is written down here beside it. Through the clauses of the group it is the query itself, and through
the whole ledger it finds the same: as long as the goal stands for a literal of its group, it does
not unify with anything else. -/
namespace Deliberation

namespace Term

theorem eq_lit_of_group? {t : Term} {g : Group} (grouped : t.group? = some g) :
    ∃ args annots, t = .lit g.functor args annots ∧ args.length = g.arity := by
  cases t with
  | lit functor args annots =>
    obtain rfl := Option.some.inj grouped
    exact ⟨args, annots, rfl, rfl⟩
  | _ => simp [group?] at grouped

theorem group?_subst {t : Term} {g : Group} (grouped : t.group? = some g) (f : Var → Term) :
    (t.subst f).group? = some g := by
  obtain ⟨args, annots, rfl, length⟩ := eq_lit_of_group? grouped
  simp [group?, length]

/-- A copy of a literal is a literal of the same group. -/
theorem group?_renameApart {t : Term} {g : Group} (keyed : t.group? = some g) (names : Renaming)
    (supply : Supply) : (t.renameApart names supply).1.group? = some g := by
  rw [renameApart_eq]
  exact group?_subst keyed _

end Term

/-- A literal stands for itself. -/
theorem Scope.walk_group? {s : Scope} {t : Term} {g : Group} (grouped : t.group? = some g) :
    (s.walk t).group? = some g := by
  obtain ⟨args, annots, rfl, -⟩ := Term.eq_lit_of_group? grouped
  exact grouped

/-- Literals of different groups do not unify, and nothing is bound. -/
theorem Bindings.unify_of_groups {b : Bindings} {left right : Term} {g h : Group}
    (one : (b.scope.walk left).group? = some g) (other : (b.scope.walk right).group? = some h)
    (different : g ≠ h) : b.unify left right = (false, b) := by
  obtain ⟨args, annots, ended, length⟩ := Term.eq_lit_of_group? one
  obtain ⟨args', annots', ended', length'⟩ := Term.eq_lit_of_group? other
  have apart : ¬(g.functor = h.functor ∧ args.length = args'.length) := by
    rintro ⟨functors, lengths⟩
    cases g
    cases h
    simp_all
  have answered : unifyWithin usualDepth left right b = some (false, b) := by
    rw [usualDepth, unifyWithin, ended, ended']
    exact if_neg apart
  rw [unify, answered]

namespace Clause

/-- The literal that goals are unified with. -/
def head : Clause → Term
  | fact t => t
  | rule r => r.head

def group? (clause : Clause) : Option Group := clause.head.group?

/-- A copy of the clause with fresh variables: its head and the goal in its body, if it has one, and
the state after the variables have been taken. -/
def copy (s : State) : Clause → Term × Option Term × State
  | fact t =>
    let (head, s) := Query.factTry s t
    (head, none, s)
  | rule r =>
    let (head, body, s) := Query.ruleTry s r
    (head, some body, s)

variable {s : State} {clause : Clause}

theorem scope_copy : (clause.copy s).2.2.scope = s.scope := by
  cases clause <;> rfl

theorem group?_copy {g : Group} (grouped : clause.group? = some g) :
    (clause.copy s).1.group? = some g := by
  cases clause <;> exact Term.group?_renameApart grouped [] s.platform.supply

/-- An attempt at a clause of another group fails and binds nothing. -/
theorem unify_copy {goal : Term} {g h : Group} (still : (s.scope.walk goal).group? = some g)
    (grouped : clause.group? = some h) (different : g ≠ h) :
    (clause.copy s).2.2.mark.2.unify goal (clause.copy s).1 =
      (false, (clause.copy s).2.2.mark.2) := by
  have same : (clause.copy s).2.2.mark.2.bindings.scope = s.scope := scope_copy
  have ended : ((clause.copy s).2.2.mark.2.bindings.scope.walk (clause.copy s).1).group? =
      some h := Scope.walk_group? (group?_copy grouped)
  rw [State.unify, Bindings.unify_of_groups (same ▸ still) ended different]
  rfl

end Clause

/-- How far a search through clauses has come: the clauses that are left, and the choicepoint of the
last solution or the running body of a rule with its choicepoint. -/
inductive Sweep where
  | trying (rest : List Clause) (mark : Option Choicepoint)
  | applying (rest : List Clause) (mark : Choicepoint) (body : Query)

namespace Sweep

section

variable (fits : State → Bool) (resume : Resumption) (goal : Term) (group : Group)

/-- Tries clauses in order, each where the search has come to. An attempt at a clause of another
group hands its numbers back, so that searches through more and fewer clauses can be compared number
by number. In a state that does not fit, the search gives nothing. -/
def scan : List Clause → State → Option (Reply Sweep)
  | [], s => if fits s then some ⟨.ok .exhausted, .trying [] none, s⟩ else none
  | clause :: rest, s =>
    if fits s then
      let (head, body, tried) := clause.copy s
      let (c, tried) := tried.mark
      let (ok, tried) := tried.unify goal head
      if ok then
        match body with
        | none => some ⟨.ok .solution, .trying rest (some c), tried⟩
        | some body =>
          match resume (.new body) tried with
          | none => none
          | some ⟨.error e, _, t⟩ => some ⟨.error e, .trying rest (some c), t⟩
          | some ⟨.ok .exhausted, _, t⟩ =>
            match t.reroll c with
            | .error e => some ⟨.error e, .trying rest none, t⟩
            | .ok back => scan rest back
          | some ⟨.ok event, body, t⟩ => some ⟨.ok event, .applying rest c body, t⟩
      else
        match tried.reroll c with
        | .error e => some ⟨.error e, .trying rest none, tried⟩
        | .ok back => scan rest (if clause.group? = some group then back else s)
    else none

def undoAndScan (rest : List Clause) (mark : Option Choicepoint) (s : State) :
    Option (Reply Sweep) :=
  match s.rerollIf mark with
  | .error e => some ⟨.error e, .trying rest none, s⟩
  | .ok s => scan fits resume goal group rest s

/-- Goes on to the next event, given the way to resume the bodies of rules. -/
def advance : Sweep → State → Option (Reply Sweep)
  | trying rest mark, s => undoAndScan fits resume goal group rest mark s
  | applying rest c body, s =>
    match resume body s with
    | none => none
    | some ⟨.error e, body, s⟩ => some ⟨.error e, .applying rest c body, s⟩
    | some ⟨.ok .exhausted, _, s⟩ => undoAndScan fits resume goal group rest (some c) s
    | some ⟨.ok event, body, s⟩ => some ⟨.ok event, .applying rest c body, s⟩

end

end Sweep

/-- The same result in the same state, with stages that are related unless the search is over. -/
structure Reply.Like {σ τ : Type} (R : σ → τ → Prop) (one : Reply σ) (other : Reply τ) : Prop where
  result : one.result = other.result
  state : one.state = other.state
  next : one.result ≠ .ok .exhausted → R one.next other.next

/-- The answer to one resumption, the state that it comes with, and the state in which the caller
resumes again, whatever has been done in between. -/
structure Exchange where
  result : Except Halt Event
  after : State
  again : State

/-- The answers of a search from a stage and a state on, up to its exhaustion or any earlier one. -/
def Yields {σ : Type} (run : σ → State → Option (Reply σ)) : σ → State → List Exchange → Prop
  | _, _, [] => True
  | stage, s, exchange :: rest => ∃ next,
    run stage s = some ⟨exchange.result, next, exchange.after⟩ ∧
      (exchange.result = .ok .exhausted → rest = []) ∧ Yields run next exchange.again rest

/-- Runs that answer alike in certain states give the same answers if they are resumed in such
states. -/
theorem yields_iff_of_like_in {σ τ : Type} {run : σ → State → Option (Reply σ)}
    {run' : τ → State → Option (Reply τ)} (P : State → Prop) (R : σ → τ → Prop)
    (step : ∀ stage stage' s, P s → R stage stage' →
      Option.Rel (Reply.Like R) (run stage s) (run' stage' s))
    {stage : σ} {stage' : τ} (related : R stage stage') {s : State} (here : P s)
    {exchanges : List Exchange} (later : ∀ exchange ∈ exchanges, P exchange.again) :
    Yields run stage s exchanges ↔ Yields run' stage' s exchanges := by
  induction exchanges generalizing stage stage' s with
  | nil => exact Iff.rfl
  | cons exchange rest ih =>
    obtain ⟨again, later⟩ := List.forall_mem_cons.mp later
    have answers := step stage stage' s here related
    simp only [Yields]
    generalize run stage s = answer at answers
    generalize run' stage' s = answer' at answers
    cases answers with
    | none => simp
    | @some one other like =>
      obtain ⟨result, next, after⟩ := one
      obtain ⟨result', next', after'⟩ := other
      obtain ⟨rfl, rfl, onward⟩ := like
      simp only [Option.some.injEq, Reply.mk.injEq]
      have rest_iff (same : result = exchange.result)
          (closes : result = .ok .exhausted → rest = []) :
          Yields run next exchange.again rest ↔ Yields run' next' exchange.again rest := by
        by_cases last : result = .ok .exhausted
        · rw [closes last]
          exact Iff.rfl
        · exact ih (onward last) again later
      constructor
      · rintro ⟨_, ⟨rfl, rfl, rfl⟩, closes, yields⟩
        exact ⟨next', ⟨rfl, rfl, rfl⟩, closes, (rest_iff rfl closes).mp yields⟩
      · rintro ⟨_, ⟨rfl, rfl, rfl⟩, closes, yields⟩
        exact ⟨next, ⟨rfl, rfl, rfl⟩, closes, (rest_iff rfl closes).mpr yields⟩

theorem yields_iff_of_like {σ τ : Type} {run : σ → State → Option (Reply σ)}
    {run' : τ → State → Option (Reply τ)} (R : σ → τ → Prop)
    (step : ∀ stage stage' s, R stage stage' →
      Option.Rel (Reply.Like R) (run stage s) (run' stage' s))
    {stage : σ} {stage' : τ} (related : R stage stage') (s : State) (exchanges : List Exchange) :
    Yields run stage s exchanges ↔ Yields run' stage' s exchanges :=
  yields_iff_of_like_in (fun _ => True) R (fun stage stage' s _ => step stage stage' s) related
    trivial fun _ _ => trivial

/-- A run that answers wherever the other one does gives the answers that the other one gives. -/
theorem Yields.mono {σ : Type} {run run' : σ → State → Option (Reply σ)}
    (more : ∀ stage s reply, run stage s = some reply → run' stage s = some reply) {stage : σ}
    {s : State} {exchanges : List Exchange} (yields : Yields run stage s exchanges) :
    Yields run' stage s exchanges := by
  induction exchanges generalizing stage s with
  | nil => trivial
  | cons exchange rest ih =>
    obtain ⟨next, answered, closes, later⟩ := yields
    exact ⟨next, more stage s _ answered, closes, ih later⟩

/-- The states of the next solutions, if as many are found when each is followed by the next
resumption straight away. -/
def solutions {σ : Type} (run : σ → State → Option (Reply σ)) :
    Nat → σ → State → Option (List State)
  | 0, _, _ => some []
  | n + 1, stage, s =>
    match run stage s with
    | some ⟨.ok .solution, next, t⟩ => (solutions run n next t).map (t :: ·)
    | _ => none

theorem solutions_eq_some_iff {σ : Type} {run : σ → State → Option (Reply σ)} {n : Nat} {stage : σ}
    {s : State} {states : List State} :
    solutions run n stage s = some states ↔
      states.length = n ∧ Yields run stage s (states.map fun t => ⟨.ok .solution, t, t⟩) := by
  induction n generalizing stage s states with
  | zero => cases states <;> simp [solutions, Yields]
  | succ n ih =>
    simp only [solutions]
    constructor
    · intro found
      split at found
      · rename_i next t answered
        obtain ⟨rest, more, rfl⟩ := Option.map_eq_some_iff.mp found
        obtain ⟨length, yields⟩ := ih.mp more
        exact ⟨congrArg (· + 1) length, next, answered, nofun, yields⟩
      · simp at found
    · rintro ⟨length, yields⟩
      cases states with
      | nil => simp at length
      | cons t rest =>
        obtain ⟨next, answered, -, more⟩ := yields
        have later := ih.mpr ⟨Nat.succ.inj length, more⟩
        simp only [answered, later, Option.map_some]

namespace Sweep

variable {ctx : Context} {resume : Resumption} {goal : Term} {group : Group} {fits : State → Bool}
  {bindings : Bindings}

/-- The stages of a query of the beliefs as stages of a search through the clauses of its group. -/
inductive Traces (ctx : Context) (goal : Term) (group : Group) : Search → Sweep → Prop where
  | facts {i : Nat} {mark : Option Choicepoint} {rest : List Term}
      (dropped : (ctx.mind.beliefs.lookup group).drop i = rest) :
      Traces ctx goal group (.recalling goal (.facts group i) mark)
        (.trying (rest.map .fact ++ (ctx.mind.beliefs.rules group).map .rule) mark)
  | rules {i : Nat} {mark : Option Choicepoint} {rest : List Rule}
      (dropped : (ctx.mind.beliefs.rules group).drop i = rest) :
      Traces ctx goal group (.recalling goal (.rules group i) mark)
        (.trying (rest.map .rule) mark)
  | applying {i : Nat} {c : Choicepoint} {body : Query} {rest : List Rule}
      (dropped : (ctx.mind.beliefs.rules group).drop i = rest) :
      Traces ctx goal group (.applying goal (.rules group i) c body)
        (.applying (rest.map .rule) c body)

/-- The clauses that a search under the group goes through. -/
def own (ctx : Context) (group : Group) : List Clause :=
  (ctx.mind.beliefs.lookup group).map .fact ++ (ctx.mind.beliefs.rules group).map .rule

section

variable (indexed : ∀ clause ∈ own ctx group, clause.group? = some group)
include indexed

theorem scanRules_like {i : Nat} {rest : List Rule}
    (dropped : (ctx.mind.beliefs.rules group).drop i = rest) (s : State) :
    Option.Rel (Reply.Like (Traces ctx goal group)) (Search.scanRules resume goal group i rest s)
      (scan (fun _ => true) resume goal group (rest.map .rule) s) := by
  induction rest generalizing i s with
  | nil => exact .some ⟨rfl, rfl, fun more => absurd rfl more⟩
  | cons rule rest ih =>
    have next := Query.drop_succ_of_cons dropped
    have here : (Clause.rule rule).group? = some group := by
      apply indexed
      have member : rule ∈ ctx.mind.beliefs.rules group :=
        List.mem_of_mem_drop (dropped ▸ List.mem_cons_self)
      exact List.mem_append_right _ (List.mem_map_of_mem member)
    simp only [Search.scanRules, List.map_cons, scan, Clause.copy, Query.ruleTry, here, if_true]
    generalize rule.head.renameApart [] s.platform.supply = headed
    generalize rule.body.renameApart headed.2.1 headed.2.2 = bodied
    generalize (s.withSupply bodied.2.2).mark = marked
    generalize marked.2.unify goal headed.1 = tried
    obtain ⟨ok, tried⟩ := tried
    cases ok with
    | true =>
      cases resume (.new bodied.1) tried with
      | none => exact .none
      | some reply =>
        obtain ⟨e | (_ | _ | _), body, t⟩ := reply
        · exact .some ⟨rfl, rfl, fun _ => .rules next⟩
        · exact .some ⟨rfl, rfl, fun _ => .applying next⟩
        · exact .some ⟨rfl, rfl, fun _ => .applying next⟩
        · simp only [if_true]
          cases t.reroll marked.1 with
          | error e => exact .some ⟨rfl, rfl, fun _ => .rules next⟩
          | ok back => exact ih next back
    | false =>
      simp only [Bool.false_eq_true, if_false]
      cases tried.reroll marked.1 with
      | error e => exact .some ⟨rfl, rfl, fun _ => .rules next⟩
      | ok back => exact ih next back

theorem scanFacts_like {i : Nat} {rest : List Term}
    (dropped : (ctx.mind.beliefs.lookup group).drop i = rest) (s : State) :
    Option.Rel (Reply.Like (Traces ctx goal group))
      (Search.scanFacts ctx resume goal group i rest s)
      (scan (fun _ => true) resume goal group
        (rest.map .fact ++ (ctx.mind.beliefs.rules group).map .rule) s) := by
  induction rest generalizing i s with
  | nil => exact scanRules_like indexed (List.drop_zero) s
  | cons fact rest ih =>
    have next := Query.drop_succ_of_cons dropped
    have here : (Clause.fact fact).group? = some group := by
      apply indexed
      have member : fact ∈ ctx.mind.beliefs.lookup group :=
        List.mem_of_mem_drop (dropped ▸ List.mem_cons_self)
      exact List.mem_append_left _ (List.mem_map_of_mem member)
    simp only [Search.scanFacts, List.map_cons, List.cons_append, scan, Clause.copy, Query.factTry,
      here, if_true]
    generalize fact.renameApart [] s.platform.supply = copied
    generalize (s.withSupply copied.2.2).mark = marked
    generalize marked.2.unify goal copied.1 = tried
    obtain ⟨ok, tried⟩ := tried
    cases ok with
    | true => exact .some ⟨rfl, rfl, fun _ => .facts next⟩
    | false =>
      simp only [Bool.false_eq_true, if_false]
      cases tried.reroll marked.1 with
      | error e => exact .some ⟨rfl, rfl, fun _ => .facts next⟩
      | ok back => exact ih next back

theorem advance_like {search : Search} {w : Sweep} (traces : Traces ctx goal group search w)
    (limit : Nat) (s : State) :
    Option.Rel (Reply.Like (Traces ctx goal group)) (search.advance ctx resume limit s)
      (w.advance (fun _ => true) resume goal group s) := by
  cases traces with
  | @facts i mark rest dropped =>
    simp only [Search.advance, Search.undoAndScan, advance, undoAndScan]
    cases s.rerollIf mark with
    | error e => exact .some ⟨rfl, rfl, fun _ => .facts dropped⟩
    | ok s =>
      simp only [Search.scan, dropped]
      exact scanFacts_like indexed dropped s
  | @rules i mark rest dropped =>
    simp only [Search.advance, Search.undoAndScan, advance, undoAndScan]
    cases s.rerollIf mark with
    | error e => exact .some ⟨rfl, rfl, fun _ => .rules dropped⟩
    | ok s =>
      simp only [Search.scan, dropped]
      exact scanRules_like indexed dropped s
  | @applying i c body rest dropped =>
    simp only [Search.advance, Search.resumeBody, advance]
    cases resume body s with
    | none => exact .none
    | some reply =>
      obtain ⟨e | (_ | _ | _), body, t⟩ := reply
      · exact .some ⟨rfl, rfl, fun _ => .applying dropped⟩
      · exact .some ⟨rfl, rfl, fun _ => .applying dropped⟩
      · exact .some ⟨rfl, rfl, fun _ => .applying dropped⟩
      · simp only [Search.undoAndScan, undoAndScan]
        cases t.rerollIf (some c) with
        | error e => exact .some ⟨rfl, rfl, fun _ => .rules dropped⟩
        | ok t =>
          simp only [Search.scan, dropped]
          exact scanRules_like indexed dropped t

end

/-- Every fact is tried with the bindings that there were before the first one: an attempt is undone
before the next one, whether or not it has been a solution. -/
theorem scan_facts (fitting : ∀ t, t.bindings = bindings → fits t = true) (facts : List Term)
    {s : State} (same : s.bindings = bindings) :
    ∃ reply, scan fits resume goal group (facts.map .fact) s = some reply ∧
      scan (fun _ => true) resume goal group (facts.map .fact) s = some reply ∧
      (reply.result = .ok .solution →
        ∃ (rest : List Term) (mark : Option Choicepoint) (back : State),
          reply.next = .trying (rest.map .fact) mark ∧ reply.state.rerollIf mark = .ok back ∧
            back.bindings = bindings) := by
  induction facts generalizing s with
  | nil =>
    refine ⟨_, ?_, rfl, nofun⟩
    simp only [List.map_nil, scan, fitting s same, if_true]
  | cons fact rest ih =>
    rcases unified : (Query.factTry s fact).2.mark.2.unify goal (Query.factTry s fact).1 with
      ⟨ok, tried⟩
    obtain ⟨back, undone, kept, -⟩ := State.reroll_of_unify unified
    have returned : back.bindings = bindings := kept.trans same
    simp only [List.map_cons, scan, Clause.copy, fitting s same, if_true, unified]
    cases ok with
    | true => exact ⟨_, rfl, rfl, fun _ => ⟨rest, _, back, rfl, undone, returned⟩⟩
    | false =>
      simp only [Bool.false_eq_true, if_false, undone]
      apply ih
      split
      · exact returned
      · exact same

theorem solutions_of_facts (fitting : ∀ t, t.bindings = bindings → fits t = true) (n : Nat)
    (facts : List Term) {mark : Option Choicepoint} {s back : State}
    (undone : s.rerollIf mark = .ok back) (same : back.bindings = bindings) :
    solutions (advance fits resume goal group) n (.trying (facts.map .fact) mark) s =
      solutions (advance (fun _ => true) resume goal group) n (.trying (facts.map .fact) mark)
        s := by
  induction n generalizing facts mark s back with
  | zero => rfl
  | succ n ih =>
    obtain ⟨⟨result, next, t⟩, fit, all, onward⟩ := @scan_facts resume goal group fits bindings
      fitting facts back same
    simp only [solutions, advance, undoAndScan, undone, fit, all]
    obtain e | (_ | _ | _) := result
    · rfl
    · obtain ⟨rest, mark, back, rfl, undone, same⟩ := onward rfl
      exact congrArg (Option.map (t :: ·)) (ih rest undone same)
    · rfl
    · rfl

/-- Clauses of the group, in the order of the list. -/
def within (group : Group) (clauses : List Clause) : List Clause :=
  clauses.filter fun clause => clause.group? = some group

/-- The stages of a search through the clauses of a group as stages of one through all clauses. -/
inductive Thins (group : Group) : Sweep → Sweep → Prop where
  | trying {rest : List Clause} {mark : Option Choicepoint}
      (keyed : ∀ clause ∈ rest, ∃ g, clause.group? = some g) :
      Thins group (.trying (within group rest) mark) (.trying rest mark)
  | applying {rest : List Clause} {c : Choicepoint} {body : Query}
      (keyed : ∀ clause ∈ rest, ∃ g, clause.group? = some g) :
      Thins group (.applying (within group rest) c body) (.applying rest c body)

theorem scan_of_unfit {s : State} (unfit : ¬fits s = true) (rest : List Clause) :
    scan fits resume goal group rest s = none := by
  cases rest <;> exact if_neg unfit

/-- What a search finds in states that fit it finds without asking whether they do. -/
theorem scan_of_fits {rest : List Clause} {s : State} {reply : Reply Sweep}
    (found : scan fits resume goal group rest s = some reply) :
    scan (fun _ => true) resume goal group rest s = some reply := by
  induction rest generalizing s with
  | nil =>
    simp only [scan, if_true] at found ⊢
    exact (Option.ite_none_right_eq_some.mp found).2
  | cons clause rest ih =>
    simp only [scan, if_true] at found ⊢
    replace found := (Option.ite_none_right_eq_some.mp found).2
    generalize (clause.copy s).2.2.mark.2.unify goal (clause.copy s).1 = tried at found ⊢
    obtain ⟨ok, tried⟩ := tried
    cases ok with
    | false =>
      simp only [Bool.false_eq_true, if_false] at found ⊢
      split at found
      · exact found
      · exact ih found
    | true =>
      simp only [if_true] at found ⊢
      split at found
      · exact found
      · split at found
        · exact found
        · exact found
        · split at found
          · exact found
          · exact ih found
        · exact found

theorem advance_of_fits {w : Sweep} {s : State} {reply : Reply Sweep}
    (found : w.advance fits resume goal group s = some reply) :
    w.advance (fun _ => true) resume goal group s = some reply := by
  have undo {rest : List Clause} {mark : Option Choicepoint} {s : State}
      (found : undoAndScan fits resume goal group rest mark s = some reply) :
      undoAndScan (fun _ => true) resume goal group rest mark s = some reply := by
    unfold undoAndScan at found ⊢
    split at found
    · exact found
    · exact scan_of_fits found
  cases w with
  | trying rest mark => exact undo found
  | applying rest c body =>
    simp only [advance] at found ⊢
    split at found
    · exact found
    · exact found
    · exact undo found
    · exact found

section

variable (fitting : ∀ s, fits s = true → (s.scope.walk goal).group? = some group)
include fitting

/-- Where the goal stands for a literal of its group, a clause of another group is passed over. -/
theorem scan_of_other {clause : Clause} {g : Group} {s : State} (fit : fits s = true)
    (keyed : clause.group? = some g) (other : ¬clause.group? = some group) (rest : List Clause) :
    scan fits resume goal group (clause :: rest) s = scan fits resume goal group rest s := by
  have different : group ≠ g := by
    rintro rfl
    exact other keyed
  have failed := Clause.unify_copy (fitting s fit) keyed different
  obtain ⟨back, undone, -⟩ := State.reroll_of_unify failed
  simp only [scan, fit, if_true, failed, Bool.false_eq_true, if_false, undone, other]

theorem scan_thins {rest : List Clause} (keyed : ∀ clause ∈ rest, ∃ g, clause.group? = some g)
    (s : State) :
    Option.Rel (Reply.Like (Thins group)) (scan fits resume goal group (within group rest) s)
      (scan fits resume goal group rest s) := by
  induction rest generalizing s with
  | nil =>
    by_cases fit : fits s = true
    · simp only [within, List.filter_nil, scan, fit, if_true]
      exact .some ⟨rfl, rfl, fun more => absurd rfl more⟩
    · rw [scan_of_unfit fit, scan_of_unfit fit]
      exact .none
  | cons clause rest ih =>
    obtain ⟨⟨g, grouped⟩, later⟩ := List.forall_mem_cons.mp keyed
    have ih := ih later
    by_cases fit : fits s = true
    swap
    · rw [scan_of_unfit fit, scan_of_unfit fit]
      exact .none
    by_cases here : clause.group? = some group
    swap
    · rw [scan_of_other fitting fit grouped here, within,
        List.filter_cons_of_neg (by simpa using here)]
      exact ih s
    rw [within, List.filter_cons_of_pos (by simpa using here), ← within]
    simp only [scan, fit, here, if_true]
    generalize clause.copy s = copied
    generalize copied.2.2.mark = marked
    generalize marked.2.unify goal copied.1 = tried
    obtain ⟨head, body, taken⟩ := copied
    obtain ⟨ok, tried⟩ := tried
    cases ok with
    | false =>
      simp only [Bool.false_eq_true, if_false]
      cases tried.reroll marked.1 with
      | error e => exact .some ⟨rfl, rfl, fun _ => .trying later⟩
      | ok back => exact ih back
    | true =>
      cases body with
      | none => exact .some ⟨rfl, rfl, fun _ => .trying later⟩
      | some body =>
        simp only [if_true]
        cases resume (.new body) tried with
        | none => exact .none
        | some reply =>
          obtain ⟨e | (_ | _ | _), body, t⟩ := reply
          · exact .some ⟨rfl, rfl, fun _ => .trying later⟩
          · exact .some ⟨rfl, rfl, fun _ => .applying later⟩
          · exact .some ⟨rfl, rfl, fun _ => .applying later⟩
          · dsimp only
            cases t.reroll marked.1 with
            | error e => exact .some ⟨rfl, rfl, fun _ => .trying later⟩
            | ok back => exact ih back

theorem advance_thins {w w' : Sweep} (thins : Thins group w w') (s : State) :
    Option.Rel (Reply.Like (Thins group)) (w.advance fits resume goal group s)
      (w'.advance fits resume goal group s) := by
  have undo {rest : List Clause} (keyed : ∀ clause ∈ rest, ∃ g, clause.group? = some g)
      (mark : Option Choicepoint) (s : State) :
      Option.Rel (Reply.Like (Thins group))
        (undoAndScan fits resume goal group (within group rest) mark s)
        (undoAndScan fits resume goal group rest mark s) := by
    simp only [undoAndScan]
    cases s.rerollIf mark with
    | error e => exact .some ⟨rfl, rfl, fun _ => .trying keyed⟩
    | ok s => exact scan_thins fitting keyed s
  cases thins with
  | trying keyed => exact undo keyed _ s
  | applying keyed =>
    simp only [advance]
    cases resume _ s with
    | none => exact .none
    | some reply =>
      obtain ⟨e | (_ | _ | _), body, t⟩ := reply
      · exact .some ⟨rfl, rfl, fun _ => .applying keyed⟩
      · exact .some ⟨rfl, rfl, fun _ => .applying keyed⟩
      · exact .some ⟨rfl, rfl, fun _ => .applying keyed⟩
      · exact undo keyed _ t

/-- Where the goal stands for a literal of the group in all states that fit, the clauses of the
group are enough. -/
theorem yields_within_iff {clauses : List Clause}
    (keyed : ∀ clause ∈ clauses, ∃ g, clause.group? = some g) (s : State)
    (exchanges : List Exchange) :
    Yields (advance fits resume goal group) (.trying (within group clauses) none) s exchanges ↔
      Yields (advance fits resume goal group) (.trying clauses none) s exchanges :=
  yields_iff_of_like (Thins group) (fun _ _ s thins => advance_thins fitting thins s)
    (.trying keyed) s exchanges

end

end Sweep

/-- The facts of a ledger and then its rules, each in the order of their insertion. -/
def Ledger.clauses (flat : Ledger) : List Clause :=
  flat.facts.map .fact ++ flat.rules.map .rule

/-- All that is kept belongs to some group. -/
theorem BeliefBase.Keeps.keyed {base : BeliefBase} {flat : Ledger} (keeps : base.Keeps flat) :
    ∀ clause ∈ flat.clauses, ∃ g, clause.group? = some g := by
  intro clause member
  rcases List.mem_append.mp member with fact | rule
  · obtain ⟨t, inside, rfl⟩ := List.mem_map.mp fact
    exact Option.isSome_iff_exists.mp (keeps.facts.keyed t inside)
  · obtain ⟨r, inside, rfl⟩ := List.mem_map.mp rule
    exact Option.isSome_iff_exists.mp (keeps.rules.keyed r inside)

namespace Query

open Sweep (Traces Thins own within)

variable {ctx : Context} {goal : Term} {group : Group}

theorem own_eq_within {flat : Ledger} (keeps : ctx.mind.beliefs.Keeps flat) :
    own ctx group = within group flat.clauses := by
  simp only [own, BeliefBase.lookup, BeliefBase.rules, keeps.facts.members, keeps.rules.members,
    within, Ledger.clauses, List.filter_append, List.filter_map]
  rfl

theorem groupOf_of_group? {scope : Scope} (grouped : (scope.walk goal).group? = some group) :
    Search.groupOf scope goal = .ok group := by
  obtain ⟨args, annots, ended, length⟩ := Term.eq_lit_of_group? grouped
  simp [Search.groupOf, ended, Term.group?, length]

theorem like_ofSearch {found : Reply Search} {found' : Reply Sweep}
    (like : Reply.Like (Traces ctx goal group) found found') :
    Reply.Like (fun q w => ∃ search, q = running goal search ∧ Traces ctx goal group search w)
      (ofSearch goal found) found' := by
  obtain ⟨result, search, s⟩ := found
  obtain ⟨same, state, next⟩ := like
  by_cases last : result = .ok .exhausted
  · subst last
    exact ⟨same, state, fun more => absurd rfl more⟩
  · rw [ofSearch_of_ne last]
    exact ⟨same, state, fun _ => ⟨search, rfl, next last⟩⟩

/-- A query of the beliefs is a search through the clauses of the group of its goal. -/
theorem ofBeliefs_yields_iff (indexed : ∀ clause ∈ own ctx group, clause.group? = some group)
    {s : State} (grouped : (s.scope.walk goal).group? = some group) (limit : Nat)
    (exchanges : List Exchange) :
    Yields (resume ctx (limit + 1)) (ofBeliefs goal) s exchanges ↔
      Yields (Sweep.advance (fun _ => true) (resume ctx limit) goal group)
        (.trying (own ctx group) none) s exchanges := by
  have started : resume ctx (limit + 1) (ofBeliefs goal) s =
      resume ctx (limit + 1) (running goal (.recalling goal (.facts group 0) none)) s := by
    simp only [resume, ofBeliefs, advance, Search.advance, Search.undoAndScan, State.rerollIf,
      Search.scan, groupOf_of_group? grouped, List.drop_zero]
  have first : Yields (resume ctx (limit + 1)) (ofBeliefs goal) s exchanges ↔
      Yields (resume ctx (limit + 1)) (running goal (.recalling goal (.facts group 0) none)) s
        exchanges := by
    cases exchanges with
    | nil => exact Iff.rfl
    | cons exchange rest => simp only [Yields, started]
  rw [first]
  refine yields_iff_of_like
    (fun q w => ∃ search, q = running goal search ∧ Traces ctx goal group search w) ?_
    ⟨_, rfl, .facts List.drop_zero⟩ s exchanges
  rintro _ w s ⟨search, rfl, traces⟩
  have like : Option.Rel (Reply.Like (Traces ctx goal group))
      (search.advance ctx (resume ctx limit) limit s)
      (w.advance (fun _ => true) (resume ctx limit) goal group s) :=
    Sweep.advance_like indexed traces limit s
  change Option.Rel _ ((search.advance ctx (resume ctx limit) limit s).map (ofSearch goal)) _
  generalize search.advance ctx (resume ctx limit) limit s = found at like ⊢
  generalize w.advance _ (resume ctx limit) goal group s = found' at like ⊢
  cases like with
  | none => exact .none
  | some like => exact .some (like_ofSearch like)

/-- Looking under the group of a goal loses no match. Where the goal stands for a literal of a
group, it unifies with no copy of a fact or of the head of a rule of another group. So the query,
which is a search through the clauses of the group, answers as a search through all clauses does,
facts before rules and each in the order of insertion, as long as the goal still stands for a
literal of the group whenever the search goes on. A goal that is a literal itself always does. All
facts are tried with the bindings there were before the query, if it is resumed straight after each
solution. -/
theorem index_loses_no_match (changes : List BeliefBase.Change) (ctx : Context)
    (kept : ctx.mind.beliefs = .after {} changes) (goal : Term) (group : Group) (s : State)
    (grouped : (s.scope.walk goal).group? = some group) :
    let flat := Ledger.after {} changes
    let still (s : State) : Bool := (s.scope.walk goal).group? = some group
    (∀ clause ∈ flat.clauses, clause.group? ≠ some group → ∀ (b : Bindings) (names : Renaming),
      (b.scope.walk goal).group? = some group →
        b.unify goal (clause.head.renamed names) = (false, b)) ∧
    ∀ limit,
      let search (fits : State → Bool) := Sweep.advance fits (resume ctx limit) goal group
      (∀ exchanges,
        (Yields (resume ctx (limit + 1)) (.ofBeliefs goal) s exchanges ↔
          Yields (search fun _ => true) (.trying (within group flat.clauses) none) s exchanges) ∧
        (Yields (search still) (.trying (within group flat.clauses) none) s exchanges ↔
          Yields (search still) (.trying flat.clauses none) s exchanges) ∧
        (Yields (search still) (.trying flat.clauses none) s exchanges →
          Yields (resume ctx (limit + 1)) (.ofBeliefs goal) s exchanges ∧
            Yields (search fun _ => true) (.trying flat.clauses none) s exchanges) ∧
        (goal.group? = some group →
          (Yields (resume ctx (limit + 1)) (.ofBeliefs goal) s exchanges ↔
            Yields (search fun _ => true) (.trying flat.clauses none) s exchanges))) ∧
      ∀ (fits : State → Bool) (n : Nat), (∀ t, t.bindings = s.bindings → fits t = true) →
        solutions (search fits) n (.trying (flat.facts.map .fact) none) s =
          solutions (search fun _ => true) n (.trying (flat.facts.map .fact) none) s := by
  intro flat still
  have keeps : ctx.mind.beliefs.Keeps flat := kept ▸ BeliefBase.start_keeps.after changes
  have filed : own ctx group = within group flat.clauses := own_eq_within keeps
  have indexed : ∀ clause ∈ own ctx group, clause.group? = some group := by
    intro clause member
    rw [filed] at member
    simpa using (List.mem_filter.mp member).2
  refine ⟨fun clause member other b names stands => ?_, fun limit => ⟨fun exchanges => ?_, ?_⟩⟩
  · obtain ⟨g, known⟩ := keeps.keyed clause member
    have renamed : (b.scope.walk (clause.head.renamed names)).group? = some g :=
      Scope.walk_group? (Term.group?_subst known _)
    exact Bindings.unify_of_groups stands renamed fun same => other (same ▸ known)
  · have searched := ofBeliefs_yields_iff indexed grouped limit exchanges
    rw [filed] at searched
    have alike : Yields (Sweep.advance still (resume ctx limit) goal group)
          (.trying (within group flat.clauses) none) s exchanges ↔
        Yields (Sweep.advance still (resume ctx limit) goal group)
          (.trying flat.clauses none) s exchanges :=
      Sweep.yields_within_iff (by simp [still]) keeps.keyed s exchanges
    have unguarded {w : Sweep} :
        Yields (Sweep.advance still (resume ctx limit) goal group) w s exchanges →
          Yields (Sweep.advance (fun _ => true) (resume ctx limit) goal group) w s exchanges :=
      Yields.mono fun _ _ _ => Sweep.advance_of_fits
    refine ⟨searched, alike, fun yields => ?_, fun literal => searched.trans ?_⟩
    · exact ⟨searched.mpr (unguarded (alike.mpr yields)), unguarded yields⟩
    · exact Sweep.yields_within_iff (fun _ _ => Scope.walk_group? literal) keeps.keyed s exchanges
  · exact fun fits n fitting => Sweep.solutions_of_facts fitting n flat.facts rfl rfl

/-- A fact about `q` between two about `p`. -/
def interleaved : List BeliefBase.Change :=
  [.add (.lit "p" [.int 1] []), .add (.lit "q" [.int 2] []), .add (.lit "p" [.int 3] [])]

def believing (changes : List BeliefBase.Change) : Context where
  actions := Library.standard
  mind := { id := ⟨1⟩, name := "a", beliefs := .after {} changes }

/-- Some bindings and the number of the next variable. -/
def startingWith (bindings : Bindings) (nextVar : Nat) : State where
  intention := { id := ⟨1⟩, bindings }
  platform := { supply := { nextVar } }

/-- The goal `p(Y)` has two solutions, under its group and among all facts. -/
theorem index_loses_no_match_between :
    let goal : Term := .lit "p" [.var ⟨1⟩] []
    let s := startingWith {} 2
    ∃ states, solutions (resume (believing interleaved) 2) 2 (.ofBeliefs goal) s = some states ∧
      solutions (Sweep.advance (fun _ => true) (resume (believing interleaved) 1) goal ⟨"p", 1⟩) 2
        (.trying (Ledger.after {} interleaved).clauses none) s = some states := by
  intro goal s
  have found : (solutions (resume (believing interleaved) 2) 2
      (.ofBeliefs (.lit "p" [.var ⟨1⟩] [])) (startingWith {} 2)).isSome = true := by
    decide +kernel
  obtain ⟨states, found⟩ := Option.isSome_iff_exists.mp found
  obtain ⟨length, yields⟩ := solutions_eq_some_iff.mp found
  have lossless :=
    index_loses_no_match interleaved (believing interleaved) rfl goal ⟨"p", 1⟩ s rfl
  obtain ⟨-, -, -, alike⟩ := (lossless.2 1).1 (states.map fun t => ⟨.ok .solution, t, t⟩)
  exact ⟨states, found, solutions_eq_some_iff.mpr ⟨length, (alike rfl).mp yields⟩⟩

/-- The rules for `p` come before one for `q`, and the first body drops all bindings. -/
def forgetful : List BeliefBase.Change :=
  [.rule ⟨.lit "p" [.int 1] [], .atom ".unbind_all"⟩, .rule ⟨.lit "p" [.int 2] [], .atom "true"⟩,
    .rule ⟨.lit "q" [.int 3] [], .atom "true"⟩]

/-- A variable that stood for `p(1)` stands for itself once all bindings have been dropped. The
query goes on under `p`, where there are two solutions, and a search through all rules has three. -/
theorem index_misses_unbound_goal :
    ¬∀ (changes : List BeliefBase.Change) (ctx : Context) (goal : Term) (group : Group) (s : State),
      ctx.mind.beliefs = .after {} changes → (s.scope.walk goal).group? = some group →
      ∀ limit exchanges,
        Yields (resume ctx (limit + 1)) (.ofBeliefs goal) s exchanges ↔
          Yields (Sweep.advance (fun _ => true) (resume ctx limit) goal group)
            (.trying (Ledger.after {} changes).clauses none) s exchanges := by
  intro always
  let ctx := believing forgetful
  let s := startingWith (({} : Bindings).assign ⟨1⟩ (.lit "p" [.int 1] [])) 2
  have three : (solutions (Sweep.advance (fun _ => true) (resume (believing forgetful) 3) (.var ⟨1⟩)
      ⟨"p", 1⟩) 3 (.trying (Ledger.after {} forgetful).clauses none)
      (startingWith (({} : Bindings).assign ⟨1⟩ (.lit "p" [.int 1] [])) 2)).isSome = true := by
    decide +kernel
  have fewer : solutions (resume (believing forgetful) 4) 3 (.ofBeliefs (.var ⟨1⟩))
      (startingWith (({} : Bindings).assign ⟨1⟩ (.lit "p" [.int 1] [])) 2) = none := by
    rw [← Option.not_isSome_iff_eq_none]
    decide +kernel
  obtain ⟨states, found⟩ := Option.isSome_iff_exists.mp three
  obtain ⟨length, yields⟩ := solutions_eq_some_iff.mp found
  have same := (always forgetful ctx (.var ⟨1⟩) ⟨"p", 1⟩ s rfl rfl 3 _).mpr yields
  have contrary := solutions_eq_some_iff.mpr ⟨length, same⟩
  rw [fewer] at contrary
  simp at contrary

end Query

end Deliberation
