import Accelerator.Stage
import Accelerator.WorkGroup

/-!
# What can go wrong

An error is a cause. Its wording is in one place, `Error.message`.

Some errors are *contract violations*: a call that no correct user of a device makes. The others
report input that cannot be used, or a fault of the world outside. A `Fault` is neither: it is a
computation that has no value, and nothing can be continued after it.

An `Attempt` is a call that may be refused half-way, and what it has changed until then stays
changed.
-/

namespace Accelerator

/-- A computation without a value. -/
inductive Fault where
  /-- A quotient or remainder by zero. -/
  | zeroDivisor
  /-- An index outside its table. -/
  | indexOutside
  /-- The cycle counter would leave its 64 bits. -/
  | cycleOverflow
  /-- A sum would leave its word. -/
  | sumOverflow
deriving DecidableEq, Inhabited

/-- Why a call is refused. -/
inductive Error where
  /-- A compute unit without a work-group was asked to advance. -/
  | idleUnit (unit : Nat)
  /-- A work-group was asked of a launch in which none waits. -/
  | nonePending (launch : Nat)
  /-- A second work-group was given to a compute unit. -/
  | unitBusy (unit running : Nat)
  /-- A work-group was to leave its order of waiting, running and done. -/
  | invalidTransition (group : Nat) (source target : Status)
  | unknownUnit (unit : Nat)
  | unknownGroup (group : Nat)
  /-- The device still works on another launch. -/
  | launchInFlight (active requested : Nat)
  /-- A stage filled a latch that nobody had drained. -/
  | latchOverrun (unit : Nat) (stage : Stage)
  | invalidConfig (reason : String)
  | invalidLaunch (reason : String)
  | groupTooLarge (requested limit : Nat)
  /-- A file could not be read or written. -/
  | io (reason : String)
  /-- A configuration text is malformed. -/
  | configText (reason : String)
  /-- A JSON text is malformed, or not a value of the expected type. -/
  | json (reason : String)
  | fault (cause : Fault)
deriving DecidableEq, Inhabited

namespace Error

def message : Error → String
  | idleUnit unit => s!"compute unit {unit} stepped while idle"
  | nonePending launch => s!"no pending work-group in ndrange {launch}"
  | unitBusy unit running => s!"compute unit {unit} already runs work-group {running}"
  | invalidTransition group source target =>
    s!"work-group {group}: invalid status transition " ++ source.text ++ " -> " ++ target.text
  | unknownUnit unit => s!"unknown compute unit {unit}"
  | unknownGroup group => s!"unknown work-group {group}"
  | launchInFlight active requested =>
    s!"ndrange {active} still in flight, cannot run ndrange {requested}"
  | latchOverrun unit stage => s!"compute unit {unit}: latch after " ++ stage.name ++ " overrun"
  | invalidConfig reason => "invalid configuration: " ++ reason
  | invalidLaunch reason => "invalid ndrange: " ++ reason
  | groupTooLarge requested limit =>
    s!"work-group size {requested} exceeds device maximum {limit}"
  | io reason => "IO error: " ++ reason
  | configText reason => "config parse error: " ++ reason
  | json reason => "JSON error: " ++ reason
  | fault .zeroDivisor => "division by zero"
  | fault .indexOutside => "index out of range"
  | fault .cycleOverflow => "cycle counter overflow"
  | fault .sumOverflow => "arithmetic overflow"

/-- The error shows a mistake in what drives the device, not in its input. -/
def isContractViolation : Error → Bool
  | idleUnit _ | nonePending _ | unitBusy _ _ | invalidTransition _ _ _ | unknownUnit _
  | unknownGroup _ | launchInFlight _ _ | latchOverrun _ _ => true
  | invalidConfig _ | invalidLaunch _ | groupTooLarge _ _ | io _ | configText _ | json _
  | fault _ => false

end Error

/-- A sum that is needed. -/
def Sums.need {α : Type} : Option α → Except Error α
  | some a => .ok a
  | none => .error (.fault .sumOverflow)

@[simp] theorem Sums.need_some {α : Type} (a : α) : need (some a) = pure a := rfl

@[simp] theorem Sums.need_none {α : Type} :
    need (none : Option α) = .error (.fault .sumOverflow) := rfl

/-- A call that may be refused half-way. It answers with a result or an error, and with the state it
leaves behind in either case. -/
abbrev Attempt (σ : Type) := ExceptT Error (StateM σ)

namespace Attempt

/-- What an attempt from the state `s` answers, and the state it leaves. -/
def outcome {σ α : Type} (attempt : Attempt σ α) (s : σ) : Except Error α × σ :=
  attempt.run s

/-- A result that was computed without touching the state. -/
def ofExcept {σ α : Type} : Except Error α → Attempt σ α
  | .ok a => pure a
  | .error e => throw e

end Attempt

end Accelerator
