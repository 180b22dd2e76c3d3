import Deliberation.Goal.Resume

/-! The limit of a resumption is no part of its answer: a limit that suffices gives the answer that
every higher limit gives. So resuming is a partial function of the query and the state, and
`Resumes` speaks of it without a limit. -/
namespace Deliberation

/-- The second way to resume answers at least where the first does, and alike. -/
def Resumption.Below (resume more : Resumption) : Prop :=
  ∀ q s reply, resume q s = some reply → more q s = some reply

namespace Search

variable {resume more : Resumption}

theorem gather_mono (below : resume.Below more) (pattern : Term) {n m : Nat} (less : n ≤ m)
    (q : Query) (names : Renaming) (found : List Term) (s : State) (result)
    (gathered : gather resume pattern n q names found s = some result) :
    gather more pattern m q names found s = some result := by
  induction n generalizing m q names found s with
  | zero => simp [gather] at gathered
  | succ n ih =>
    obtain ⟨m, rfl⟩ := Nat.exists_eq_add_of_le' less
    have rest : n ≤ m + n := Nat.le_add_left n m
    cases answer : resume q s with
    | none => simp [gather, answer] at gathered
    | some reply =>
      simp only [gather, answer] at gathered
      simp only [gather, below q s reply answer]
      obtain ⟨_ | (_ | _ | _), next, state⟩ := reply
      · exact gathered
      · exact ih rest _ _ _ _ gathered
      · exact ih rest _ _ _ _ gathered
      · exact gathered

theorem runPlan_mono (below : resume.Below more) {n m : Nat} (less : n ≤ m) (ctx : Context)
    (s : State) (plan : Plan) (reply) (ran : runPlan ctx resume n s plan = some reply) :
    runPlan ctx more m s plan = some reply := by
  cases plan with
  | act steps => exact ran
  | offer target steps => exact ran
  | collect pattern goal result =>
    simp only [runPlan, runCollect] at ran ⊢
    cases gathered : gather resume pattern n (.new goal) [] [] s.mark.2 with
    | none => simp [gathered] at ran
    | some outcome =>
      rw [gathered] at ran
      rw [gather_mono below pattern less _ _ _ _ _ gathered]
      exact ran

theorem scanRules_mono (below : resume.Below more) (goal : Term) (group : Group) (next : Nat)
    (rules : List Rule) (s : State) (reply)
    (scanned : scanRules resume goal group next rules s = some reply) :
    scanRules more goal group next rules s = some reply := by
  induction rules generalizing next s with
  | nil => exact scanned
  | cons rule rest ih =>
    simp only [scanRules] at scanned ⊢
    split at scanned
    · rename_i unified
      rw [if_pos unified]
      split at scanned
      · simp at scanned
      · rename_i answer
        rw [below _ _ _ answer]
        exact scanned
      · rename_i answer
        rw [below _ _ _ answer]
        dsimp only
        split at scanned
        · exact scanned
        · exact ih _ _ scanned
      · rename_i event body state other answer
        rw [below _ _ _ answer]
        cases event with
        | exhausted => exact (other rfl).elim
        | _ => exact scanned
    · rename_i failed
      rw [if_neg failed]
      split at scanned
      · exact scanned
      · exact ih _ _ scanned

theorem scanFacts_mono (below : resume.Below more) (ctx : Context) (goal : Term) (group : Group)
    (next : Nat) (facts : List Term) (s : State) (reply)
    (scanned : scanFacts ctx resume goal group next facts s = some reply) :
    scanFacts ctx more goal group next facts s = some reply := by
  induction facts generalizing next s with
  | nil => exact scanRules_mono below goal group 0 _ s reply scanned
  | cons fact rest ih =>
    simp only [scanFacts] at scanned ⊢
    split at scanned
    · rename_i unified
      rw [if_pos unified]
      exact scanned
    · rename_i failed
      rw [if_neg failed]
      split at scanned
      · exact scanned
      · exact ih _ _ scanned

theorem scan_mono (below : resume.Below more) (ctx : Context) (goal : Term) (s : State)
    (cursor : Cursor) (reply) (scanned : scan ctx resume goal s cursor = some reply) :
    scan ctx more goal s cursor = some reply := by
  cases cursor with
  | start =>
    simp only [scan] at scanned ⊢
    split at scanned
    · exact scanned
    · exact scanFacts_mono below _ _ _ _ _ _ _ scanned
  | facts group next => exact scanFacts_mono below _ _ _ _ _ _ _ scanned
  | rules group next => exact scanRules_mono below _ _ _ _ _ _ scanned
  | finished => exact scanned

theorem undoAndScan_mono (below : resume.Below more) (ctx : Context) (goal : Term)
    (cursor : Cursor) (mark : Option Choicepoint) (s : State) (reply)
    (scanned : undoAndScan ctx resume goal cursor mark s = some reply) :
    undoAndScan ctx more goal cursor mark s = some reply := by
  simp only [undoAndScan] at scanned ⊢
  split at scanned
  · exact scanned
  · exact scan_mono below _ _ _ _ _ scanned

theorem resumeBody_mono (below : resume.Below more) (ctx : Context) (goal : Term)
    (cursor : Cursor) (c : Choicepoint) (body : Query) (s : State) (reply)
    (resumed : resumeBody ctx resume goal cursor c body s = some reply) :
    resumeBody ctx more goal cursor c body s = some reply := by
  cases answer : resume body s with
  | none => simp [resumeBody, answer] at resumed
  | some inner =>
    simp only [resumeBody, answer, below body s inner answer] at resumed ⊢
    obtain ⟨_ | (_ | _ | _), next, state⟩ := inner
    · exact resumed
    · exact resumed
    · exact resumed
    · exact undoAndScan_mono below _ _ _ _ _ _ resumed

theorem resumeConj_mono (below : resume.Below more) (rightGoal : Term) {n m : Nat} (less : n ≤ m)
    (left : Query) (right : Option Query) (s : State) (reply)
    (resumed : resumeConj resume rightGoal n left right s = some reply) :
    resumeConj more rightGoal m left right s = some reply := by
  induction n generalizing m left right s with
  | zero => simp [resumeConj] at resumed
  | succ n ih =>
    obtain ⟨m, rfl⟩ := Nat.exists_eq_add_of_le' less
    have rest : n ≤ m + n := Nat.le_add_left n m
    cases right with
    | some right =>
      cases answer : resume right s with
      | none => simp [resumeConj, answer] at resumed
      | some inner =>
        simp only [resumeConj, answer, below right s inner answer] at resumed ⊢
        obtain ⟨_ | (_ | _ | _), next, state⟩ := inner
        · exact resumed
        · exact resumed
        · exact resumed
        · exact ih rest _ _ _ resumed
    | none =>
      cases answer : resume left s with
      | none => simp [resumeConj, answer] at resumed
      | some inner =>
        simp only [resumeConj, answer, below left s inner answer] at resumed ⊢
        obtain ⟨_ | (_ | _ | _), next, state⟩ := inner
        · exact resumed
        · dsimp only at resumed ⊢
          split at resumed
          · rename_i waiting
            rw [if_pos waiting]
            exact resumed
          · rename_i awake
            rw [if_neg awake]
            exact ih rest _ _ _ resumed
        · exact resumed
        · exact resumed

theorem resumeDisjRight_mono (below : resume.Below more) (right : Query) (s : State) (reply)
    (resumed : resumeDisjRight resume right s = some reply) :
    resumeDisjRight more right s = some reply := by
  cases answer : resume right s with
  | none => simp [resumeDisjRight, answer] at resumed
  | some inner =>
    simpa only [resumeDisjRight, answer, below right s inner answer] using resumed

theorem resumeDisj_mono (below : resume.Below more) (left : Query) (rightGoal : Term) (s : State)
    (reply) (resumed : resumeDisj resume left rightGoal s = some reply) :
    resumeDisj more left rightGoal s = some reply := by
  cases answer : resume left s with
  | none => simp [resumeDisj, answer] at resumed
  | some inner =>
    simp only [resumeDisj, answer, below left s inner answer] at resumed ⊢
    obtain ⟨_ | (_ | _ | _), next, state⟩ := inner
    · exact resumed
    · exact resumed
    · exact resumed
    · exact resumeDisjRight_mono below _ _ _ resumed

theorem resumeNegation_mono (below : resume.Below more) (inner : Query) (c : Choicepoint)
    (s : State) (reply) (resumed : resumeNegation resume inner c s = some reply) :
    resumeNegation more inner c s = some reply := by
  cases answer : resume inner s with
  | none => simp [resumeNegation, answer] at resumed
  | some first =>
    simpa only [resumeNegation, answer, below inner s first answer] using resumed

theorem advance_mono (below : resume.Below more) {n m : Nat} (less : n ≤ m) (ctx : Context)
    (s : State) (search : Search) (reply) (advanced : search.advance ctx resume n s = some reply) :
    search.advance ctx more m s = some reply := by
  cases search with
  | planned plan => exact runPlan_mono below less _ _ _ _ advanced
  | held c => exact advanced
  | choosing target rest mark => exact advanced
  | spent => exact advanced
  | recalling goal cursor mark => exact undoAndScan_mono below _ _ _ _ _ _ advanced
  | applying goal cursor c body => exact resumeBody_mono below _ _ _ _ _ _ _ advanced
  | conj left rightGoal => exact resumeConj_mono below _ less _ _ _ _ advanced
  | conjRight left rightGoal right => exact resumeConj_mono below _ less _ _ _ _ advanced
  | disj left rightGoal => exact resumeDisj_mono below _ _ _ _ advanced
  | disjRight right => exact resumeDisjRight_mono below _ _ _ advanced
  | negation inner mark => cases mark <;> exact resumeNegation_mono below _ _ _ _ advanced

end Search

namespace Query

theorem advance_mono {resume more : Resumption} (below : resume.Below more) {n m : Nat}
    (less : n ≤ m) (ctx : Context) (s : State) (q : Query) (reply)
    (advanced : q.advance ctx resume n s = some reply) :
    q.advance ctx more m s = some reply := by
  have search (goal : Term) (search : Search)
      (mapped : (search.advance ctx resume n s).map (ofSearch goal) = some reply) :
      (search.advance ctx more m s).map (ofSearch goal) = some reply := by
    obtain ⟨inner, searched, rfl⟩ := Option.map_eq_some_iff.mp mapped
    rw [Search.advance_mono below less ctx s search inner searched]
    rfl
  cases q with
  | pending goal =>
    simp only [advance] at advanced ⊢
    split at advanced
    · exact advanced
    · exact search goal _ advanced
  | running goal inner => exact search goal inner advanced
  | done goal => exact advanced

/-- A higher limit gives the same answer. -/
theorem resume_mono (ctx : Context) {n m : Nat} (less : n ≤ m) :
    Resumption.Below (resume ctx n) (resume ctx m) := by
  induction n generalizing m with
  | zero =>
    intro q s reply resumed
    simp [resume] at resumed
  | succ n ih =>
    obtain ⟨m, rfl⟩ := Nat.exists_eq_add_of_le' less
    intro q s reply resumed
    exact advance_mono (ih (Nat.le_add_left n m)) (Nat.le_add_left n m) ctx s q reply resumed

/-- Resuming a query gives a reply, whatever limit is high enough for it. -/
def Resumes (ctx : Context) (q : Query) (s : State) (reply : Reply Query) : Prop :=
  ∃ limit, q.resume ctx limit s = some reply

theorem Resumes.unique {ctx : Context} {q : Query} {s : State} {first second : Reply Query}
    (one : Resumes ctx q s first) (other : Resumes ctx q s second) : first = second := by
  obtain ⟨n, one⟩ := one
  obtain ⟨m, other⟩ := other
  have left := resume_mono ctx (Nat.le_max_left n m) q s first one
  have right := resume_mono ctx (Nat.le_max_right n m) q s second other
  exact Option.some.inj (left.symm.trans right)

end Query

end Deliberation
