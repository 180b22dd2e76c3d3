import Deliberation.Proofs.Echoes
import Deliberation.Proofs.Likeness

/-! States in lockstep. Two lines of reasoning that see the same clock, the same chance and the same
deadline go on side by side, each above records of its own that the other does not have. Whatever the
one does up there the other does, too: nothing depends on what lies beneath, nor on which numbers
have been handed out. -/
namespace Deliberation

variable {P P' : Pairing} {below below' : Trail}

/-- What unification does above some records it does above any others. -/
theorem Bindings.frame {op : Bindings → Bool × Bindings} (assigns : ∀ b, Assigns b (op b).2)
    (sees : ∀ {b b' : Bindings}, b.scope = b'.scope → seen (op b) = seen (op b')) (b : Bindings) :
    ∃ added, (op b).2.trail = added ++ b.trail ∧
      ∀ trail, op ⟨b.scope, trail⟩ = ((op b).1, ⟨(op b).2.scope, added ++ trail⟩) := by
  obtain ⟨added, extended, -⟩ := (assigns b).extends
  refine ⟨added.map (.binding ·.1), by rw [extended]; rfl, fun trail => ?_⟩
  obtain ⟨added', extended', -⟩ := (assigns ⟨b.scope, trail⟩).extends
  obtain ⟨answer, scopes⟩ := Prod.mk.inj (@sees ⟨b.scope, trail⟩ b rfl)
  rw [extended', extended] at scopes
  obtain rfl : added' = added := List.append_cancel_right (congrArg Scope.bindings scopes)
  rw [extended]
  exact Prod.ext answer extended'

namespace State

/-- The same bindings above other records. -/
def withTrail (s : State) (trail : Trail) : State := s.withBindings ⟨s.scope, trail⟩

/-- The operation adds records, and does the same above any others. -/
def Frames {α : Type} (op : State → α × State) (s : State) : Prop :=
  ∃ added, (op s).2.trail = added ++ s.trail ∧
    ∀ trail, op (s.withTrail trail) = ((op s).1, (op s).2.withTrail (added ++ trail))

theorem unify_frames (s : State) (left right : Term) : Frames (·.unify left right) s := by
  obtain ⟨added, kept, above⟩ := Bindings.frame (Bindings.unify_assigns left right)
    (Bindings.unify_seen left right) s.bindings
  refine ⟨added, kept, fun trail => ?_⟩
  exact congrArg (fun r => (r.1, s.withBindings r.2)) (above trail)

theorem perform_frames (s : State) (mind : Mind) (deed : Deed) : Frames (deed.perform mind) s := by
  cases deed with
  | unify pairs =>
    obtain ⟨added, kept, above⟩ := Bindings.frame (Bindings.unifyEach_assigns pairs)
      (Bindings.unifyEach_seen pairs) s.bindings
    refine ⟨added, kept, fun trail => ?_⟩
    exact congrArg (fun r => (Except.ok r.1, s.withBindings r.2)) (above trail)
  | delay duration millis =>
    simp only [Frames, perform_delay]
    split <;> exact ⟨[], rfl, fun _ => rfl⟩
  | _ => exact ⟨[], rfl, fun _ => rfl⟩

/-- What comes from outside is the same. -/
structure SameWorld (s s' : State) : Prop where
  deadline : s'.intention.deadline = s.intention.deadline
  resets : s'.resets = s.resets
  clock : s'.platform.clock = s.platform.clock
  calendar : s'.platform.calendar = s.platform.calendar
  chance : s'.platform.chance = s.platform.chance

/-- The states are paired but for the records beneath, of whose choicepoints the pairing knows
none. -/
structure InStep (below below' : Trail) (P : Pairing) (s s' : State) : Prop
    extends SameWorld s s' where
  paired : ∃ above above', s.trail = above ++ below ∧ s'.trail = above' ++ below' ∧
    (s.withTrail above).Paired P (s'.withTrail above')
  beneath : ∀ c, .mark c ∈ below → c.id < s.nextMark ∧ ∀ d, ¬P.marks c d

variable {s s' t t' : State}

theorem InStep.scope (states : s.InStep below below' P s') : s.scope.Paired P s'.scope := by
  obtain ⟨above, above', -, -, paired⟩ := states.paired
  exact paired.bindings.scope

theorem InStep.fits (states : s.InStep below below' P s') :
    P.Fits s.platform.supply s'.platform.supply := by
  obtain ⟨above, above', -, -, paired⟩ := states.paired
  exact paired.fits

/-- Nothing has happened but that numbers were handed out. -/
theorem InStep.later (states : s.InStep below below' P s') (left : Undisturbed s t)
    (right : Undisturbed s' t') (world : SameWorld t t') : t.InStep below below' P t' := by
  obtain ⟨above, above', split, split', paired⟩ := states.paired
  refine ⟨world, ⟨above, above', ?_, ?_, paired.later ⟨?_, left.supply⟩ ⟨?_, right.supply⟩⟩, ?_⟩
  · rw [← split]
    exact congrArg Bindings.trail left.bindings
  · rw [← split']
    exact congrArg Bindings.trail right.bindings
  · exact congrArg (fun b => (⟨b.scope, above⟩ : Bindings)) left.bindings
  · exact congrArg (fun b => (⟨b.scope, above'⟩ : Bindings)) right.bindings
  · intro c member
    obtain ⟨issued, apart⟩ := states.beneath c member
    exact ⟨Nat.lt_of_lt_of_le issued left.supply.choicepoints, apart⟩

/-- More variables are paired, and numbers may have been handed out. -/
theorem InStep.takes (states : s.InStep below below' P s') (more : P.ExtendsVars P')
    {supply supply' : Supply} (fits : P'.Fits supply supply')
    (grown : s.platform.supply.Before supply) :
    (s.withSupply supply).InStep below below' P' (s'.withSupply supply') := by
  obtain ⟨above, above', split, split', paired⟩ := states.paired
  refine ⟨⟨states.deadline, states.resets, states.clock, states.calendar, states.chance⟩,
    ⟨above, above', split, split', paired.bindings.mono more.toExtends, fits⟩, fun c member => ?_⟩
  obtain ⟨issued, apart⟩ := states.beneath c member
  exact ⟨Nat.lt_of_lt_of_le issued grown.choicepoints, more.sameMarks ▸ apart⟩

theorem InStep.mark (states : s.InStep below below' P s') :
    ∃ P', P.Extends P' ∧ P'.marks s.mark.1 s'.mark.1 ∧ s.mark.2.InStep below below' P' s'.mark.2 := by
  obtain ⟨above, above', split, split', paired⟩ := states.paired
  obtain ⟨P', more, fresh, fits, only⟩ := paired.fits.freshChoicepoint
  refine ⟨P', more, fresh,
    ⟨states.deadline, states.resets, states.clock, states.calendar, states.chance⟩,
    ⟨.mark s.mark.1 :: above, .mark s'.mark.1 :: above', ?_, ?_,
      (paired.bindings.mono more).mark fresh, fits⟩, fun c member => ?_⟩
  · exact congrArg (TrailEntry.mark s.mark.1 :: ·) split
  · exact congrArg (TrailEntry.mark s'.mark.1 :: ·) split'
  · obtain ⟨issued, apart⟩ := states.beneath c member
    refine ⟨Nat.lt_succ_of_lt issued, fun d same => ?_⟩
    rcases only c d same with old | new
    · exact apart d old
    · exact absurd (new ▸ issued) (Nat.lt_irrefl _)

/-- An operation that is the same on paired states is the same on states in step. -/
theorem InStep.frame {α : Type} {op op' : State → α × State}
    (states : s.InStep below below' P s')
    (frames : Frames op s) (frames' : Frames op' s')
    (alike : ∀ {r r' : State}, r.Paired P r' →
      (op r).1 = (op' r').1 ∧ (op r).2.Paired P (op' r').2)
    (world : SameWorld (op s).2 (op' s').2) (marks : s.nextMark ≤ (op s).2.nextMark) :
    (op s).1 = (op' s').1 ∧ (op s).2.InStep below below' P (op' s').2 := by
  obtain ⟨above, above', split, split', paired⟩ := states.paired
  obtain ⟨added, kept, same⟩ := frames
  obtain ⟨added', kept', same'⟩ := frames'
  obtain ⟨answers, after⟩ := alike paired
  rw [same above, same' above'] at answers after
  refine ⟨answers, world, ⟨added ++ above, added' ++ above', ?_, ?_, after⟩, fun c member => ?_⟩
  · rw [kept, split, List.append_assoc]
  · rw [kept', split', List.append_assoc]
  · obtain ⟨issued, apart⟩ := states.beneath c member
    exact ⟨Nat.lt_of_lt_of_le issued marks, apart⟩

theorem InStep.unify (states : s.InStep below below' P s') {left left' right right' : Term}
    (lefts : left.Paired P left') (rights : right.Paired P right') :
    (s.unify left right).1 = (s'.unify left' right').1 ∧
      (s.unify left right).2.InStep below below' P (s'.unify left' right').2 :=
  states.frame (s.unify_frames left right) (s'.unify_frames left' right')
    (fun paired => paired.unify lefts rights)
    ⟨states.deadline, states.resets, states.clock, states.calendar, states.chance⟩ (Nat.le_refl _)

theorem SameWorld.perform (world : SameWorld s s') {deed deed' : Deed} (deeds : deed.Paired P deed')
    (mind mind' : Mind) : SameWorld (deed.perform mind s).2 (deed'.perform mind' s').2 := by
  obtain ⟨deadline, resets, clock, calendar, chance⟩ := world
  cases deeds with
  | forget => exact ⟨deadline, congrArg Nat.succ resets, clock, calendar, chance⟩
  | stop =>
    simp only [Deed.perform, Platform.requestStop]
    split <;> split <;> exact ⟨deadline, resets, clock, calendar, chance⟩
  | delay duration millis =>
    have now := congrArg (fun c => some (c.read.1 + duration)) clock
    have read := congrArg (·.read.2) clock
    rw [perform_delay, perform_delay]
    split
    · exact ⟨now, resets, read, calendar, chance⟩
    · exact ⟨deadline, resets, read, calendar, chance⟩
  | _ => exact ⟨deadline, resets, clock, calendar, chance⟩

theorem InStep.perform (states : s.InStep below below' P s') {deed deed' : Deed}
    (deeds : deed.Paired P deed') (mind mind' : Mind) :
    (deed.perform mind s).1 = (deed'.perform mind' s').1 ∧
      (deed.perform mind s).2.InStep below below' P (deed'.perform mind' s').2 :=
  states.frame (s.perform_frames mind deed) (s'.perform_frames mind' deed')
    (fun paired => paired.perform deeds mind mind') (states.toSameWorld.perform deeds mind mind')
    (perform_grows mind s deed).marks

theorem InStep.readClock (states : s.InStep below below' P s') :
    s'.readClock.1 = s.readClock.1 ∧ s.readClock.2.InStep below below' P s'.readClock.2 := by
  refine ⟨congrArg (·.read.1) states.clock, states.later s.readClock_undisturbed
    s'.readClock_undisturbed ⟨states.deadline, states.resets, ?_, states.calendar,
    states.chance⟩⟩
  exact congrArg (·.read.2) states.clock

/-- What is undone above some records is undone above any others. -/
theorem reroll_above {c : Choicepoint} {above : Trail} {back : State}
    (undone : (s.withTrail above).reroll c = .ok back) (split : s.trail = above ++ below) :
    s.reroll c = .ok (back.withTrail (back.trail ++ below)) := by
  obtain ⟨records, rest, laid, absent, rfl⟩ := reroll_eq_ok_iff.mp undone
  refine reroll_eq_ok_iff.mpr ⟨records, rest ++ below, ?_, absent, rfl⟩
  rw [split, show above = records ++ .mark c :: rest from laid, List.append_assoc,
    List.cons_append]

/-- What the pairing knows lies above. -/
theorem InStep.reroll (states : s.InStep below below' P s') {c d : Choicepoint}
    (same : P.marks c d) {back : State} (undone : s.reroll c = .ok back) :
    ∃ back', s'.reroll d = .ok back' ∧ back.InStep below below' P back' := by
  obtain ⟨above, above', split, split', paired⟩ := states.paired
  obtain ⟨records, rest, laid, -, -⟩ := reroll_eq_ok_iff.mp undone
  have present : TrailEntry.mark c ∈ above ++ below := by
    rw [← split, laid]
    simp
  have inside : TrailEntry.mark c ∈ above :=
    (List.mem_append.mp present).resolve_right fun member => (states.beneath c member).2 d same
  obtain ⟨records, rest, laid, absent⟩ := List.eq_append_cons_of_mem inside
  have left : (s.withTrail above).reroll c = .ok _ :=
    reroll_eq_ok_iff.mpr ⟨records, rest, laid, absent, rfl⟩
  have both := paired.reroll same
  rw [left] at both
  generalize right : (s'.withTrail above').reroll d = r at both
  cases both with
  | @ok _ back' paired' =>
    obtain rfl := Except.ok.inj (undone.symm.trans (reroll_above left split))
    obtain ⟨records', rest', -, -, rfl⟩ := reroll_eq_ok_iff.mp right
    refine ⟨_, reroll_above right split', ⟨states.deadline, states.resets, states.clock,
      states.calendar, states.chance⟩, ⟨rest, rest', rfl, rfl, paired'⟩, states.beneath⟩

end State

end Deliberation
