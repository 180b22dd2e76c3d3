import Deliberation.Term.Basic

/-!
Scopes: what the variables of one line of reasoning are bound to. A bound value may contain
variables again, so reading a variable means walking a chain of bindings to its end. A chain visits
each binding at most once when the scope has no cycle, which bounds the walk.
-/
namespace Deliberation

/-- Bindings, newest first; no variable is bound twice. -/
structure Scope where
  bindings : List (Var × Term) := []
deriving Inhabited

namespace Scope

def empty : Scope := {}

def find? (v : Var) : List (Var × Term) → Option Term
  | [] => none
  | (w, value) :: rest => if w = v then some value else find? v rest

def get? (s : Scope) (v : Var) : Option Term := find? v s.bindings

def size (s : Scope) : Nat := s.bindings.length

def isEmpty (s : Scope) : Bool := s.bindings.isEmpty

def bind (s : Scope) (v : Var) (value : Term) : Scope := ⟨(v, value) :: s.bindings⟩

def unbind (s : Scope) (v : Var) : Scope := ⟨s.bindings.eraseP fun entry => entry.1 = v⟩

/-- Follows at most `steps` bindings. -/
def walkWithin (s : Scope) : Nat → Term → Term
  | steps + 1, .var v =>
    match s.get? v with
    | some value => s.walkWithin steps value
    | none => .var v
  | _, t => t

/-- The end of a chain of bindings: an unbound variable or a term that is no variable. -/
def walk (s : Scope) : Term → Term
  | .var v =>
    match s.get? v with
    | some (.var w) => s.walkWithin (s.size - 1) (.var w)
    | some value => value
    | none => .var v
  | t => t

/-- The nodes of all bound terms and one for each bound variable. -/
def weight (s : Scope) : Nat := s.bindings.foldr (fun entry n => 1 + entry.2.size + n) 0

@[simp] theorem get?_empty (v : Var) : empty.get? v = none := rfl

@[simp] theorem get?_bind_self (s : Scope) (v : Var) (value : Term) :
    (s.bind v value).get? v = some value := by
  simp [get?, bind, find?]

theorem get?_bind_of_ne (s : Scope) {v w : Var} (value : Term) (different : w ≠ v) :
    (s.bind v value).get? w = s.get? w := by
  simp [get?, bind, find?, Ne.symm different]

/-- Undoing the newest binding gives back the scope before it. -/
@[simp] theorem unbind_bind (s : Scope) (v : Var) (value : Term) :
    (s.bind v value).unbind v = s := by
  simp [unbind, bind]

@[simp] theorem size_bind (s : Scope) (v : Var) (value : Term) :
    (s.bind v value).size = s.size + 1 := rfl

@[simp] theorem walk_empty (t : Term) : empty.walk t = t := by
  cases t <;> rfl

@[simp] theorem walkWithin_of_not_var (s : Scope) (steps : Nat) {t : Term}
    (compound : ∀ v, t ≠ .var v) : s.walkWithin steps t = t := by
  cases t with
  | var v => exact absurd rfl (compound v)
  | _ => cases steps <;> rfl

/-- A bound variable leaves a step for its own binding. -/
theorem size_pos_of_get? {s : Scope} {v : Var} {value : Term} (found : s.get? v = some value) :
    0 < s.size := by
  cases s with
  | mk bindings =>
    cases bindings with
    | nil => simp [get?, find?] at found
    | cons entry rest => simp [size]

theorem walk_eq_walkWithin (s : Scope) (t : Term) : s.walk t = s.walkWithin s.size t := by
  cases t with
  | var v =>
    cases found : s.get? v with
    | none => cases h : s.size <;> simp [walk, walkWithin, found]
    | some value =>
      obtain ⟨steps, h⟩ := Nat.exists_eq_succ_of_ne_zero (Nat.ne_of_gt (size_pos_of_get? found))
      cases value <;> simp [walk, walkWithin, found, h]
  | _ => cases h : s.size <;> rfl

end Scope

end Deliberation
