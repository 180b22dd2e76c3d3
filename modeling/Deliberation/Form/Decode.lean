import Deliberation.Document.Basic
import Deliberation.Form.System

/-!
Systems from documents. A record is a table with one entry per field, or a list of its fields in
order; entries that name no field are passed over. A term is a table whose only entry names its
kind. Containers that are looked into may be nested only so deep as the conventions of the format
say.
-/
namespace Deliberation.Form

structure Conventions where
  /-- Whether a list that stands for a record may have more items than the record has fields. -/
  surplusItems : Bool
  /-- What may be the content of an entry that needs none. -/
  isUnit : Document → Bool
  /-- How many containers may be nested. -/
  depth : Nat

abbrev Decoder (α : Type) := Document → Except String α

/-- The values of the named fields. No field may be given twice. -/
def fields (conv : Conventions) (names : List String) : Decoder (List (Option Document))
  | .table entries => names.mapM fun name =>
    match entries.filter fun entry => entry.1 = name with
    | [] => .ok none
    | [(_, value)] => .ok (some value)
    | _ => .error ("duplicate field " ++ name)
  | .list items =>
    if conv.surplusItems || items.length ≤ names.length then
      .ok ((List.range names.length).map fun i => items[i]?)
    else .error "too many items for a record"
  | _ => .error "expected a record"

def required {α : Type} (decode : Decoder α) : Option Document → Except String α
  | some d => decode d
  | none => .error "missing field"

def withDefault {α : Type} (default : α) (decode : Decoder α) : Option Document → Except String α
  | some d => decode d
  | none => .ok default

def text : Decoder String
  | .text s => .ok s
  | _ => .error "expected a string"

def list {α : Type} (decode : Decoder α) : Decoder (List α)
  | .list items => items.mapM decode
  | _ => .error "expected a list"

def natural : Decoder Nat
  | .int i => if 0 ≤ i ∧ i < UInt64.size then .ok i.toNat else .error "number out of range"
  | _ => .error "expected an integer"

def int64 : Decoder Int64
  | .int i =>
    if Int64.minValue.toInt ≤ i ∧ i ≤ Int64.maxValue.toInt then .ok (Int64.ofInt i)
    else .error "number out of range"
  | _ => .error "expected an integer"

/-- A float, or an integer in its place. -/
def double : Decoder Double
  | .float x => .ok x
  | .int i => .ok (Double.ofInt i)
  | _ => .error "expected a number"

def optional {α : Type} (decode : Decoder α) : Decoder (Option α)
  | .null => .ok none
  | d => (decode d).map some

def deeper {α : Type} (depth : Nat) (decode : Nat → Except String α) : Except String α :=
  match depth with
  | 0 => .error "nested too deep"
  | depth + 1 => decode depth

def listWithin {α : Type} (depth : Nat) (decode : Nat → Decoder α) : Decoder (List α) :=
  fun d => deeper depth fun depth => list (decode depth) d

/-- A written term. `fuel` bounds the nesting of terms, never deeper than that of containers. -/
def term (conv : Conventions) : Nat → Nat → Decoder TermForm
  | 0, _, _ => .error "nested too deep"
  | fuel + 1, depth, .table [(kind, value)] =>
    deeper depth fun depth =>
      match kind with
      | "var" => (text value).map .var
      | "atom" => (text value).map .atom
      | "int" => (int64 value).map .int
      | "float" => (double value).map .float
      | "str" => (text value).map .str
      | "seq" => (listWithin depth (term conv fuel) value).map .seq
      | "lit" => deeper depth fun depth => do
        match ← fields conv ["functor", "args", "annots"] value with
        | [functor, args, annots] =>
          return .lit (← required text functor)
            (← withDefault [] (listWithin depth (term conv fuel)) args)
            (← withDefault [] (listWithin depth (term conv fuel)) annots)
        | _ => throw "expected a literal"
      | _ => .error "unknown kind of term"
  | _, _, _ => .error "expected a term"

def termWithin (conv : Conventions) (depth : Nat) : Decoder TermForm := term conv depth depth

def policyNamed (name : String) : Except String Policy :=
  match name with
  | "first" => .ok .first
  | "all" => .ok .all
  | _ => .error "unknown policy"

/-- A policy: its name, or a table with its name and no content. -/
def policy (conv : Conventions) (depth : Nat) : Decoder Policy
  | .text name => policyNamed name
  | .table [(name, value)] => deeper depth fun _ =>
    if conv.isUnit value then policyNamed name else .error "a policy has no content"
  | _ => .error "expected a policy"

def rule (conv : Conventions) (depth : Nat) : Decoder RuleForm := fun d =>
  deeper depth fun depth => do
    match ← fields conv ["head", "body"] d with
    | [head, body] =>
      return ⟨← required (termWithin conv depth) head, ← required (termWithin conv depth) body⟩
    | _ => throw "expected a rule"

def goal (conv : Conventions) (depth : Nat) : Decoder GoalForm := fun d =>
  deeper depth fun depth => do
    match ← fields conv ["goal", "policy"] d with
    | [goal, chosen] =>
      return ⟨← required (termWithin conv depth) goal,
        ← withDefault .first (policy conv depth) chosen⟩
    | _ => throw "expected a goal"

def agent (conv : Conventions) (depth : Nat) : Decoder AgentForm := fun d =>
  deeper depth fun depth => do
    match ← fields conv ["name", "beliefs", "rules", "goals"] d with
    | [name, beliefs, rules, goals] =>
      return {
        name := ← required text name
        beliefs := ← withDefault [] (listWithin depth (termWithin conv)) beliefs
        rules := ← withDefault [] (listWithin depth (rule conv)) rules
        goals := ← withDefault [] (listWithin depth (goal conv)) goals }
    | _ => throw "expected an agent"

def schedulerConfig (conv : Conventions) (depth : Nat) : Decoder SchedulerConfig := fun d =>
  deeper depth fun _ => do
    match ← fields conv ["max_steps", "idle_poll_ms"] d with
    | [maxSteps, idlePoll] =>
      return ⟨← withDefault none (optional natural) maxSteps, ← withDefault 10 natural idlePoll⟩
    | _ => throw "expected the settings of a scheduler"

def system (conv : Conventions) : Decoder SystemForm := fun d =>
  deeper conv.depth fun depth => do
    match ← fields conv ["scheduler", "agents"] d with
    | [config, agents] =>
      return ⟨← withDefault {} (schedulerConfig conv depth) config,
        ← withDefault [] (listWithin depth (agent conv)) agents⟩
    | _ => throw "expected a system"

end Deliberation.Form
