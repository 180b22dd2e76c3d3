import Deliberation.Form.System
import Deliberation.Proofs.BeliefLedger
import Deliberation.Proofs.WrittenNames
import Mathlib.Data.List.Forall2

/-! Agents as they are written. Every belief, every rule and every goal is a namespace: its names
become variables that no other one has, neither of the same agent nor of another. An agent is built
if all atoms and functors have names and beliefs and heads of rules are literals, and then it holds
what was written, in the order in which it was written. -/
namespace Deliberation

section Threads

variable {σ φ ι ε : Type}

/-- Items that lead from one state to another. -/
def Threads (next : σ → ι → σ → Prop) : σ → List ι → σ → Prop
  | s, [], s' => s = s'
  | s, item :: rest, s' => ∃ between, next s item between ∧ Threads next between rest s'

/-- A loop over forms makes one item of each form, or it meets a form with a fault. -/
theorem foldlM_builds {step : σ → φ → Except ε σ} {fault : φ → Prop} {made : φ → ι → Prop}
    {next : σ → ι → σ → Prop}
    (each : ∀ s form, Builds (fault form) (fun s' => ∃ item, made form item ∧ next s item s')
      (step s form)) (forms : List φ) (s : σ) :
    Builds (∃ form ∈ forms, fault form)
      (fun s' => ∃ items, List.Forall₂ made forms items ∧ Threads next s items s')
      (forms.foldlM step s) := by
  induction forms generalizing s with
  | nil => exact ⟨by simp, [], .nil, rfl⟩
  | cons form rest ih =>
    rw [List.foldlM_cons]
    apply ((each s form).bind fun between _ => ih between).imp (by simp)
    rintro s' ⟨between, ⟨item, one, here⟩, items, more, path⟩
    exact ⟨item :: items, .cons one more, between, here, path⟩

theorem Threads.imp {next next' : σ → ι → σ → Prop}
    (more : ∀ s item s', next s item s' → next' s item s') {s s' : σ} {items : List ι}
    (path : Threads next s items s') : Threads next' s items s' := by
  induction items generalizing s with
  | nil => exact path
  | cons item rest ih =>
    obtain ⟨between, here, later⟩ := path
    exact ⟨between, more s item between here, ih later⟩

/-- What each item does to a part of the state, all of them do in turn. -/
theorem Threads.foldl {β : Type} {next : σ → ι → σ → Prop} (view : σ → β) (act : β → ι → β)
    (each : ∀ s item s', next s item s' → view s' = act (view s) item) {s s' : σ} {items : List ι}
    (path : Threads next s items s') : view s' = items.foldl act (view s) := by
  induction items generalizing s with
  | nil => exact congrArg view path.symm
  | cons item rest ih =>
    obtain ⟨between, here, later⟩ := path
    rw [List.foldl_cons, ← each s item between here]
    exact ih later

/-- Groups that have no member in common, with the numbers of all members in one stretch. -/
structure Apart {α : Type} (number : α → Nat) (low high : Nat) (groups : List (List α)) : Prop where
  rising : low ≤ high
  taken : ∀ group ∈ groups, ∀ a ∈ group, low ≤ number a ∧ number a < high
  disjoint : groups.Pairwise List.Disjoint

theorem Apart.append {α : Type} {number : α → Nat} {low middle high : Nat}
    {one other : List (List α)} (first : Apart number low middle one)
    (second : Apart number middle high other) : Apart number low high (one ++ other) := by
  have rising := first.rising
  have rising' := second.rising
  refine ⟨by omega, ?_, ?_⟩
  · intro group member a inside
    rcases List.mem_append.mp member with front | back
    · have := first.taken group front a inside
      omega
    · have := second.taken group back a inside
      omega
  · apply List.pairwise_append.mpr ⟨first.disjoint, second.disjoint, ?_⟩
    intro group front group' back a inside inside'
    have := first.taken group front a inside
    have := second.taken group' back a inside'
    omega

theorem Threads.apart {α : Type} {number : α → Nat} {next : σ → ι → σ → Prop} (level : σ → Nat)
    (groups : ι → List (List α))
    (each : ∀ s item s', next s item s' → Apart number (level s) (level s') (groups item))
    {s s' : σ} {items : List ι} (path : Threads next s items s') :
    Apart number (level s) (level s') (items.flatMap groups) := by
  induction items generalizing s with
  | nil =>
    obtain rfl : s = s' := path
    exact ⟨Nat.le_refl _, by simp, .nil⟩
  | cons item rest ih =>
    obtain ⟨between, here, later⟩ := path
    exact (each s item between here).append (ih later)

end Threads

def TermForm.isLiteral : TermForm → Bool
  | atom _ => true
  | lit _ _ _ => true
  | _ => false

/-- The term looks like the form, and the form names its variables. -/
def TermForm.Reads (form : TermForm) (t : Term) : Prop :=
  form.shapes t = true ∧ Named form.names t.vars

def Rule.vars (rule : Rule) : List Var := rule.head.vars ++ rule.body.vars

/-- Head and body share their names. -/
def RuleForm.Reads (form : RuleForm) (rule : Rule) : Prop :=
  form.head.shapes rule.head = true ∧ form.body.shapes rule.body = true ∧
    Named (form.head.names ++ form.body.names) rule.vars

/-- The goal is pursued in an intention of its own, which has not begun. -/
def GoalForm.Reads (form : GoalForm) (c : Commitment) : Prop :=
  ∃ id goal, form.goal.Reads goal ∧
    c = { intention := { id }, goal, policy := form.policy, query := .new goal }

/-- An agent with the terms and the rules that were read for it. -/
structure Reading where
  agent : Agent
  beliefs : List Term
  rules : List Rule

/-- The variables of every belief, rule and goal. -/
def Reading.spaces (r : Reading) : List (List Var) :=
  r.beliefs.map Term.vars ++ r.rules.map Rule.vars ++ r.agent.commitments.map (·.goal.vars)

namespace AgentForm

/-- The agent holds what is written: of the beliefs each one that is equal to no earlier one that
is kept, all rules and all goals, in their order. -/
structure Makes (form : AgentForm) (r : Reading) : Prop where
  name : r.agent.name = form.name
  beliefs : List.Forall₂ TermForm.Reads form.beliefs r.beliefs
  rules : List.Forall₂ RuleForm.Reads form.rules r.rules
  goals : List.Forall₂ GoalForm.Reads form.goals r.agent.commitments
  intentions : (r.agent.commitments.map (·.id)).Nodup
  believed (g : Group) : r.agent.beliefs.lookup g =
    (r.beliefs.eraseDupsBy Term.equals).filter fun belief => belief.group? = some g
  concluded (g : Group) : r.agent.beliefs.rules g =
    r.rules.filter fun rule => rule.head.group? = some g

/-- All terms that are written for the agent. -/
def forms (form : AgentForm) : List TermForm :=
  form.beliefs ++ form.rules.flatMap (fun rule => [rule.head, rule.body]) ++
    form.goals.map (·.goal)

/-- What has to be a literal. -/
def literals (form : AgentForm) : List TermForm := form.beliefs ++ form.rules.map (·.head)

/-- An atom or functor is empty, or a belief or the head of a rule is no literal. -/
def Faulty (form : AgentForm) : Prop :=
  (∃ written ∈ form.forms, "" ∈ written.symbols) ∨
    ∃ written ∈ form.literals, written.isLiteral = false

end AgentForm

theorem TermForm.isSome_group? {form : TermForm} {t : Term} (shaped : form.shapes t = true) :
    t.group?.isSome = form.isLiteral := by
  cases form <;> cases t <;> first | rfl | simp [shapes] at shaped

theorem TermForm.buildAlone_reads (form : TermForm) (supply : Supply) :
    Builds ("" ∈ form.symbols)
      (fun r => form.Reads r.1 ∧ Apart Var.id supply.nextVar r.2.nextVar [r.1.vars] ∧
        r.2.nextIntention = supply.nextIntention) (form.buildAlone supply) := by
  have stages : Builds ("" ∈ form.symbols ∨ False)
      (fun r => ∃ a, form.Becomes [] supply a ∧ r = (a.1, a.2.2)) (form.buildAlone supply) :=
    (form.build_becomes [] supply).bind fun a _ => ⟨not_false, rfl⟩
  apply stages.imp (by simp)
  rintro _ ⟨a, ⟨shaped, interned⟩, rfl⟩
  obtain ⟨named, rising, taken⟩ := Named.of_internAll interned
  have kept := Names.nextIntention_internAll [] supply form.names
  rw [interned] at kept
  exact ⟨⟨shaped, named⟩, ⟨rising, by simpa using taken, List.pairwise_singleton _ _⟩, kept⟩

/-- The rule of a form; its names are met in the head first. -/
def RuleForm.build (form : RuleForm) (supply : Supply) : Except TermFault (Rule × Supply) := do
  let (head, names, supply) ← form.head.build [] supply
  let (body, _, supply) ← form.body.build names supply
  return (Rule.mk head body, supply)

theorem RuleForm.build_reads (form : RuleForm) (supply : Supply) :
    Builds ("" ∈ form.head.symbols ∨ "" ∈ form.body.symbols)
      (fun r => form.Reads r.1 ∧ Apart Var.id supply.nextVar r.2.nextVar [r.1.vars])
      (form.build supply) := by
  have stages : Builds ("" ∈ form.head.symbols ∨ "" ∈ form.body.symbols ∨ False)
      (fun r => ∃ a, form.head.Becomes [] supply a ∧ ∃ b, form.body.Becomes a.2.1 a.2.2 b ∧
        r = (⟨a.1, b.1⟩, b.2.2)) (form.build supply) :=
    (form.head.build_becomes [] supply).bind fun a _ =>
      (form.body.build_becomes a.2.1 a.2.2).bind fun b _ => ⟨not_false, rfl⟩
  apply stages.imp (by simp)
  rintro _ ⟨a, ⟨shaped, interned⟩, b, ⟨shaped', interned'⟩, rfl⟩
  obtain ⟨named, rising, taken⟩ := Named.of_internAll (Names.internAll_append interned interned')
  refine ⟨⟨shaped, shaped', named⟩, rising, ?_, List.pairwise_singleton _ _⟩
  simpa [Rule.vars] using taken

/-- The agent after a change to its beliefs, which has no effect if it is refused. -/
def Agent.changed (a : Agent) (change : BeliefBase.Change) : Agent :=
  a.withBeliefs ((a.beliefs.change? change).getD a.beliefs)

def Agent.committed (a : Agent) (c : Commitment) : Agent :=
  { a with commitments := a.commitments ++ [c] }

namespace AgentForm

/-- An item is added to the agent, and its variables are taken from the supply. -/
def Adds {ι : Type} (act : Agent → ι → Agent) (vars : ι → List Var) (s : Agent × Platform)
    (item : ι) (s' : Agent × Platform) : Prop :=
  s'.1 = act s.1 item ∧ Apart Var.id s.2.supply.nextVar s'.2.supply.nextVar [vars item]

/-- A goal is added, and the number of its intention is taken from the supply too. -/
def Commits (s : Agent × Platform) (c : Commitment) (s' : Agent × Platform) : Prop :=
  Adds Agent.committed (fun c => c.goal.vars) s c s' ∧
    Apart IntentionId.id s.2.supply.nextIntention s'.2.supply.nextIntention [[c.id]]

theorem addBelief_adds (s : Agent × Platform) (form : TermForm) :
    Builds ("" ∈ form.symbols ∨ form.isLiteral = false)
      (fun s' => ∃ belief, (form.Reads belief ∧ belief.group?.isSome) ∧
        Adds (fun a t => a.changed (.add t)) Term.vars s belief s')
      (addBelief s.1 form s.2) := by
  have read := form.buildAlone_reads s.2.supply
  unfold addBelief
  cases built : form.buildAlone s.2.supply with
  | error fault =>
    rw [built] at read
    exact .inl read
  | ok result =>
    obtain ⟨belief, supply'⟩ := result
    rw [built] at read
    obtain ⟨proper, reads, apart, -⟩ := read
    have grouped := TermForm.isSome_group? reads.1
    cases literal : form.isLiteral with
    | true =>
      have present : belief.group?.isNone = false := by simpa [literal] using grouped
      simp only [present, Bool.false_eq_true, if_false]
      cases added : s.1.beliefs.add? belief with
      | some beliefs =>
        refine ⟨by simp [proper], belief, ⟨reads, by simp [grouped, literal]⟩, ?_, apart⟩
        simp [Agent.changed, BeliefBase.change?, added]
      | none =>
        refine ⟨by simp [proper], belief, ⟨reads, by simp [grouped, literal]⟩, ?_, apart⟩
        simp only [Agent.changed, BeliefBase.change?, added]
        rfl
    | false =>
      have absent : belief.group?.isNone = true := by simpa [literal] using grouped
      simp only [absent, if_true]
      exact .inr trivial

theorem addRule_adds (s : Agent × Platform) (form : RuleForm) :
    Builds (("" ∈ form.head.symbols ∨ "" ∈ form.body.symbols) ∨ form.head.isLiteral = false)
      (fun s' => ∃ rule, (form.Reads rule ∧ rule.head.group?.isSome) ∧
        Adds (fun a r => a.changed (.rule r)) Rule.vars s rule s')
      (addRule s.1 form s.2) := by
  have read := form.build_reads s.2.supply
  cases built : form.build s.2.supply with
  | error fault =>
    rw [built] at read
    rw [RuleForm.build] at built
    rw [addRule, built]
    exact .inl read
  | ok result =>
    obtain ⟨rule, supply'⟩ := result
    rw [built] at read
    obtain ⟨proper, reads, apart⟩ := read
    have grouped := TermForm.isSome_group? reads.1
    rw [RuleForm.build] at built
    rw [addRule, built]
    cases group : rule.head.group? with
    | some g =>
      have literal : form.head.isLiteral = true := by simpa [group] using grouped.symm
      simp only [BeliefBase.addRule?, group]
      refine ⟨by simpa [literal] using proper, rule, ⟨reads, by simp [group]⟩, ?_, apart⟩
      simp [Agent.changed, BeliefBase.change?, BeliefBase.addRule?, group]
    | none =>
      simp only [BeliefBase.addRule?, group]
      exact .inr (by simpa [group] using grouped.symm)

theorem addGoal_adds (s : Agent × Platform) (form : GoalForm) :
    Builds ("" ∈ form.goal.symbols)
      (fun s' => ∃ c, form.Reads c ∧ Commits s c s') (addGoal s.1 form s.2) := by
  have read := form.goal.buildAlone_reads s.2.supply
  unfold addGoal
  cases built : form.goal.buildAlone s.2.supply with
  | error fault =>
    rw [built] at read
    exact read
  | ok result =>
    obtain ⟨goal, supply'⟩ := result
    rw [built] at read
    obtain ⟨proper, reads, apart, kept⟩ := read
    have number : Apart IntentionId.id s.2.supply.nextIntention (supply'.nextIntention + 1)
        [[⟨supply'.nextIntention⟩]] := by
      rw [kept]
      exact ⟨Nat.le_succ _, by simp, List.pairwise_singleton _ _⟩
    exact ⟨proper, _, ⟨_, goal, reads, rfl⟩, ⟨rfl, apart⟩, number⟩

theorem addEach_eq {φ : Type} (add : Agent → φ → Platform → Except BuildFailure (Agent × Platform))
    (forms : List φ) (s : Agent × Platform) :
    addEach add forms s.1 s.2 = forms.foldlM (fun s form => add s.1 form s.2) s := by
  induction forms generalizing s with
  | nil => rfl
  | cons form rest ih =>
    rw [List.foldlM_cons]
    exact congrArg _ (funext fun s' => ih s')

/-- The forms of one kind are added in their order, up to the first that cannot be built. -/
theorem addEach_threads {φ ι : Type}
    {add : Agent → φ → Platform → Except BuildFailure (Agent × Platform)} {fault : φ → Prop}
    {made : φ → ι → Prop} {next : Agent × Platform → ι → Agent × Platform → Prop}
    (each : ∀ s form, Builds (fault form) (fun s' => ∃ item, made form item ∧ next s item s')
      (add s.1 form s.2)) (forms : List φ) (s : Agent × Platform) :
    Builds (∃ form ∈ forms, fault form)
      (fun s' => ∃ items, List.Forall₂ made forms items ∧ Threads next s items s')
      (addEach add forms s.1 s.2) := by
  rw [addEach_eq]
  exact foldlM_builds each forms s

/-- All items have been added, and no two of them have a variable in common. -/
theorem adds_all {ι : Type} {act : Agent → ι → Agent} {vars : ι → List Var}
    {s s' : Agent × Platform} {items : List ι} (path : Threads (Adds act vars) s items s') :
    s'.1 = items.foldl act s.1 ∧
      Apart Var.id s.2.supply.nextVar s'.2.supply.nextVar (items.map vars) := by
  have held := path.foldl Prod.fst act fun s item s' adds => adds.1
  have apart := path.apart (fun s => s.2.supply.nextVar) (fun item => [vars item])
    fun s item s' adds => adds.2
  rw [← List.map_eq_flatMap] at apart
  exact ⟨held, apart⟩

theorem commits_all {s s' : Agent × Platform} {cs : List Commitment}
    (path : Threads Commits s cs s') :
    Threads (Adds Agent.committed fun c => c.goal.vars) s cs s' ∧ (cs.map (·.id)).Nodup := by
  constructor
  · exact path.imp fun _ _ _ commits => commits.1
  · have apart := path.apart (fun s => s.2.supply.nextIntention) (fun c => [[c.id]])
      fun s c s' commits => commits.2
    rw [← List.map_eq_flatMap] at apart
    apply List.pairwise_map.mpr
    apply (List.pairwise_map.mp apart.disjoint).imp
    intro c c' disjoint same
    simp [same] at disjoint

end AgentForm

namespace Ledger

/-- Of beliefs that are added one after the other those are left out that are equal to an earlier
one. -/
theorem after_adds (flat : Ledger) (beliefs : List Term)
    (grouped : ∀ belief ∈ beliefs, belief.group?.isSome) :
    flat.after (beliefs.map .add) =
      { flat with facts := List.eraseDupsBy.loop Term.equals beliefs flat.facts.reverse } := by
  induction beliefs generalizing flat with
  | nil => simp [after, List.eraseDupsBy.loop]
  | cons belief rest ih =>
    have later := ih ((flat.change? (.add belief)).getD flat)
      fun other member => grouped other (List.mem_cons_of_mem _ member)
    have literal := grouped belief List.mem_cons_self
    have first : flat.after ((belief :: rest).map .add) =
        ((flat.change? (.add belief)).getD flat).after (rest.map .add) := rfl
    rw [first, later, List.eraseDupsBy.loop]
    by_cases new : ∀ fact ∈ flat.facts, fact.equals belief = false
    · have kept : flat.change? (.add belief) = some { flat with facts := flat.facts ++ [belief] } :=
        if_pos ⟨literal, new⟩
      have different : flat.facts.reverse.any (belief.equals ·) = false := by
        simpa [Term.equals_comm belief] using new
      simp [kept, different]
    · have refused : flat.change? (.add belief) = none := if_neg fun both => new both.2
      have same : flat.facts.reverse.any (belief.equals ·) = true := by
        simpa [Term.equals_comm belief] using new
      simp [refused, same]

theorem after_rules (flat : Ledger) (rules : List Rule)
    (grouped : ∀ rule ∈ rules, rule.head.group?.isSome) :
    flat.after (rules.map .rule) = { flat with rules := flat.rules ++ rules } := by
  induction rules generalizing flat with
  | nil => simp [after]
  | cons rule rest ih =>
    have later := ih ((flat.change? (.rule rule)).getD flat)
      fun other member => grouped other (List.mem_cons_of_mem _ member)
    have first : flat.after ((rule :: rest).map .rule) =
        ((flat.change? (.rule rule)).getD flat).after (rest.map .rule) := rfl
    rw [first, later]
    simp [change?, grouped rule List.mem_cons_self]

end Ledger

/-- A base to which beliefs and then rules have been added keeps the different beliefs and all
rules. -/
theorem BeliefBase.keeps_written {beliefs : List Term} {rules : List Rule}
    (grouped : ∀ belief ∈ beliefs, belief.group?.isSome)
    (grouped' : ∀ rule ∈ rules, rule.head.group?.isSome) :
    ((({} : BeliefBase).after (beliefs.map .add)).after (rules.map .rule)).Keeps
      { facts := beliefs.eraseDupsBy Term.equals, rules } := by
  have keeps := (start_keeps.after (beliefs.map .add)).after (rules.map .rule)
  rw [Ledger.after_adds _ beliefs grouped, Ledger.after_rules _ rules grouped'] at keeps
  exact keeps

namespace Agent

theorem foldl_changed (a : Agent) (changes : List BeliefBase.Change) :
    changes.foldl changed a = a.withBeliefs (a.beliefs.after changes) := by
  induction changes generalizing a with
  | nil => rfl
  | cons change rest ih =>
    rw [List.foldl_cons, ih]
    rfl

theorem foldl_committed (a : Agent) (cs : List Commitment) :
    cs.foldl committed a = { a with commitments := a.commitments ++ cs } := by
  induction cs generalizing a with
  | nil => simp
  | cons c rest ih =>
    rw [List.foldl_cons, ih]
    simp [committed]

end Agent

theorem forall_mem_of_forall₂ {α β : Type} {R : α → β → Prop} {P : β → Prop} {xs : List α}
    {ys : List β} (related : List.Forall₂ R xs ys) (each : ∀ x y, R x y → P y) : ∀ y ∈ ys, P y := by
  induction related with
  | nil => simp
  | cons first _ ih => exact List.forall_mem_cons.mpr ⟨each _ _ first, ih⟩

namespace AgentForm

theorem faulty_iff (form : AgentForm) :
    (∃ belief ∈ form.beliefs, "" ∈ belief.symbols ∨ belief.isLiteral = false) ∨
      (∃ rule ∈ form.rules, ("" ∈ rule.head.symbols ∨ "" ∈ rule.body.symbols) ∨
        rule.head.isLiteral = false) ∨
      (∃ goal ∈ form.goals, "" ∈ goal.goal.symbols) ↔ form.Faulty := by
  simp only [Faulty, forms, literals, List.mem_append, List.mem_flatMap, List.mem_map]
  grind

theorem build_makes (form : AgentForm) (p : Platform) :
    Builds form.Faulty
      (fun built => ∃ r, form.Makes r ∧ r.agent = built.1 ∧
        Apart Var.id p.supply.nextVar built.2.supply.nextVar r.spaces) (form.build p) := by
  have stages := (addEach_threads addBelief_adds form.beliefs (Agent.create form.name p)).bind
    fun s _ => (addEach_threads addRule_adds form.rules s).bind
      fun s _ => addEach_threads addGoal_adds form.goals s
  apply Builds.imp stages form.faulty_iff
  rintro ⟨a, p'⟩ ⟨s, ⟨beliefs, read, path⟩, s', ⟨rules, read', path'⟩, cs, goals, path''⟩
  obtain ⟨adds, distinct⟩ := commits_all path''
  obtain ⟨held, apart⟩ := adds_all path
  obtain ⟨held', apart'⟩ := adds_all path'
  obtain ⟨held'', apart''⟩ := adds_all adds
  rw [← List.foldl_map, Agent.foldl_changed] at held held'
  rw [Agent.foldl_committed, held', held] at held''
  obtain rfl : _ = a := held''.symm
  have keeps := BeliefBase.keeps_written (forall_mem_of_forall₂ read fun _ _ both => both.2)
    (forall_mem_of_forall₂ read' fun _ _ both => both.2)
  refine ⟨⟨_, beliefs, rules⟩, ?_, rfl, (apart.append apart').append apart''⟩
  exact {
    name := rfl
    beliefs := read.imp fun _ _ both => both.1
    rules := read'.imp fun _ _ both => both.1
    goals := goals
    intentions := distinct
    believed := keeps.facts.members
    concluded := keeps.rules.members }

end AgentForm

namespace Scheduler

theorem addForms_eq (s : Scheduler) (forms : List AgentForm) :
    s.addForms forms = forms.foldlM addForm s := by
  induction forms generalizing s with
  | nil => rfl
  | cons form rest ih =>
    rw [List.foldlM_cons]
    exact congrArg _ (funext fun s' => ih s')

/-- An agent is added at the end, with variables that none had before. -/
def Gains (s : Scheduler) (r : Reading) (s' : Scheduler) : Prop :=
  s'.agents = s.agents ++ [r.agent] ∧
    Apart Var.id s.platform.supply.nextVar s'.platform.supply.nextVar r.spaces

theorem addForm_makes (s : Scheduler) (form : AgentForm) :
    Builds form.Faulty (fun s' => ∃ r, form.Makes r ∧ s.Gains r s') (s.addForm form) := by
  have stages : Builds (form.Faulty ∨ False)
      (fun s' => ∃ built : Agent × Platform, (∃ r, form.Makes r ∧ r.agent = built.1 ∧
        Apart Var.id s.platform.supply.nextVar built.2.supply.nextVar r.spaces) ∧
        s' = { s with platform := built.2 }.addAgent built.1) (s.addForm form) :=
    (form.build_makes s.platform).bind fun built _ => ⟨not_false, rfl⟩
  apply stages.imp (by simp)
  rintro _ ⟨built, ⟨r, makes, same, apart⟩, rfl⟩
  exact ⟨r, makes, by rw [same]; rfl, apart⟩

theorem addForms_makes (s : Scheduler) (forms : List AgentForm) :
    Builds (∃ form ∈ forms, form.Faulty)
      (fun s' => ∃ rs, List.Forall₂ AgentForm.Makes forms rs ∧
        s'.agents = s.agents ++ rs.map (·.agent) ∧
        (rs.flatMap Reading.spaces).Pairwise List.Disjoint) (s.addForms forms) := by
  rw [addForms_eq]
  apply (foldlM_builds addForm_makes forms s).imp Iff.rfl
  rintro s' ⟨rs, made, path⟩
  have agents := path.foldl agents (fun agents r => agents ++ [r.agent])
    fun s r s' gains => gains.1
  have apart := path.apart (fun s => s.platform.supply.nextVar) Reading.spaces
    fun s r s' gains => gains.2
  rw [List.foldl_append_eq_append, ← List.flatMap_def, ← List.map_eq_flatMap] at agents
  exact ⟨rs, made, agents, apart.disjoint⟩

end Scheduler

/-- An agent is built unless its form is faulty, and a system unless the form of some agent is. The
agents then hold what is written for them. In every belief, rule and goal two variables are the same
where they have the same name, other than `_`, and no two of these have a variable in common. -/
theorem build_namespaces :
    (∀ (form : AgentForm) (p : Platform), Builds form.Faulty
      (fun built => ∃ r, form.Makes r ∧ r.agent = built.1 ∧ r.spaces.Pairwise List.Disjoint)
      (form.build p)) ∧
    ∀ (form : SystemForm) (start : Scheduler), Builds (∃ written ∈ form.agents, written.Faulty)
      (fun s => ∃ rs, List.Forall₂ AgentForm.Makes form.agents rs ∧
        s.agents = start.agents ++ rs.map (·.agent) ∧
        (rs.flatMap Reading.spaces).Pairwise List.Disjoint) (form.build start) := by
  constructor
  · intro form p
    apply (form.build_makes p).imp Iff.rfl
    rintro built ⟨r, makes, same, apart⟩
    exact ⟨r, makes, same, apart.disjoint⟩
  · intro form start
    have stages : Builds ((∃ written ∈ form.agents, written.Faulty) ∨ False)
        (fun s => ∃ s' : Scheduler, (∃ rs, List.Forall₂ AgentForm.Makes form.agents rs ∧
          s'.agents = start.agents ++ rs.map (·.agent) ∧
          (rs.flatMap Reading.spaces).Pairwise List.Disjoint) ∧ s.agents = s'.agents)
        (form.build start) :=
      (Scheduler.addForms_makes { start with config := form.config } form.agents).bind
        fun s' _ => ⟨not_false, rfl⟩
    apply stages.imp (by simp)
    rintro s ⟨s', ⟨rs, made, agents, disjoint⟩, same⟩
    exact ⟨rs, made, same.trans agents, disjoint⟩

end Deliberation
