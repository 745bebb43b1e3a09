import Accelerator.Device.Basic

/-!
# Running a launch

A `Job` is a device at work on a launch. In every cycle waiting work-groups are first dispatched to
idle units, first come, first served and one to a unit, and then every busy unit advances by one
cycle. A unit whose work-group finishes becomes idle, and can be given work in the next cycle.

A run is over when no unit is busy after dispatch. It can be given a budget of cycles; when that is
used up the run is suspended, and the next call with the same launch goes on where it stopped. While a
run is suspended the device refuses every other launch.

Each operation is an `Attempt`: a refused one may have changed the job already, and the job keeps
what was changed.
-/

namespace Accelerator

structure Job (ι μ π : Type) where
  device : Device ι μ π
  launch : NdRange

/-- How a run with a budget ends. -/
inductive Outcome where
  /-- No unit is busy any more. -/
  | completed (stats : RunStats)
  /-- The budget is used up. -/
  | suspended (stats : RunStats)
deriving DecidableEq, Inhabited

namespace Outcome

def stats : Outcome → RunStats
  | completed stats => stats
  | suspended stats => stats

def isCompleted : Outcome → Bool
  | completed _ => true
  | suspended _ => false

end Outcome

namespace Job

variable {ι μ π : Type}

/-- Change the device, in a way that cannot be refused. -/
@[inline] def modifyDevice (change : Device ι μ π → Device ι μ π) : Attempt (Job ι μ π) Unit :=
  modify fun job => { job with device := change job.device }

/-- Change the launch, in a way that cannot be refused. -/
@[inline] def modifyLaunch (change : NdRange → NdRange) : Attempt (Job ι μ π) Unit :=
  modify fun job => { job with launch := change job.launch }

/-- Some unit is idle and some work-group waits. -/
def canDispatch (job : Job ι μ π) : Bool :=
  !job.device.idle.isEmpty && job.launch.hasPending

/-! ## Dispatch -/

section Dispatch

variable [Placement π]

/-- The idle unit that the placement picks, or nothing. The pick itself counts for the placement
whether or not its unit turns out to be idle. -/
def pickUnit : Attempt (Job ι μ π) (Option Nat) := do
  let device := (← get).device
  let (picked, placement) := Placement.pick device.placement device.idle
  modifyDevice fun device => { device with placement }
  return picked

/-- Take a unit out of the idle ones. -/
def reserveUnit (unit : Nat) : Attempt (Job ι μ π) Unit := do
  if (← get).device.idle.contains unit then
    modifyDevice fun device => { device with idle := device.idle.unlink unit }
  else
    throw (.unknownUnit unit)

/-- Take the group that has waited longest off the queue, for a unit that will run it. -/
def reserveGroup (unit : Nat) : Attempt (Job ι μ π) Nat := do
  let (group, launch) ← Attempt.ofExcept (← get).launch.takeNextPending
  modifyLaunch fun _ => launch
  let waiting ← Attempt.ofExcept ((← get).launch.waitingGroup group)
  modifyLaunch fun launch => launch.start waiting unit
  return group

/-- Give a unit its work-group. The dispatch belongs to the cycle that comes next. -/
def assignGroup (unit group : Nat) : Attempt (Job ι μ π) Unit := do
  let job ← get
  let wavefronts ← Attempt.ofExcept (job.launch.wavefrontsOf group)
  let resting ← Attempt.ofExcept (job.device.cluster.unit unit)
  let assigned ← Attempt.ofExcept (resting.assign group wavefronts)
  modifyDevice fun device => { device with
    cluster := device.cluster.setUnit unit assigned
    busy := device.busy.push unit
    sink := device.sink.record { cycle := device.cycle + 1, unit, group, action := .run } }

/-- Dispatch one work-group. The answer is whether the placement had a unit for it. -/
def dispatchOne : Attempt (Job ι μ π) Bool := do
  match ← pickUnit with
  | none => return false
  | some unit =>
    reserveUnit unit
    assignGroup unit (← reserveGroup unit)
    return true

/-- Dispatch at most `limit` work-groups, as long as a unit is idle and a group waits. The answer is
how many were dispatched. -/
def dispatchUpTo : (limit : Nat) → Attempt (Job ι μ π) Nat
  | 0 => return 0
  | limit + 1 => do
    if (← get).canDispatch then
      if ← dispatchOne then
        return (← dispatchUpTo limit) + 1
      else return 0
    else return 0

/-- Dispatch waiting work-groups to idle units until either runs out. Every dispatch takes one unit
out of the idle ones, whose number is therefore a bound. -/
def dispatch : Attempt (Job ι μ π) Nat := do
  dispatchUpTo (← get).device.idle.size

end Dispatch

/-! ## Advancing the units -/

section Step

variable [InstructionModel ι] [MemoryService μ]

/-- A unit has finished its group. If the launch does not accept this the unit keeps the group and
stays busy; otherwise the unit becomes idle. -/
def complete (unit group : Nat) : Attempt (Job ι μ π) Unit := do
  let (running, owner) ← Attempt.ofExcept ((← get).launch.runningGroup group)
  modifyLaunch fun launch => launch.finish running owner
  let (_, released) := (← Attempt.ofExcept ((← get).device.cluster.unit unit)).release
  modifyDevice fun device => { device with
    cluster := device.cluster.setUnit unit released
    busy := device.busy.remove unit
    idle := device.idle.push unit
    sink := device.sink.record { cycle := device.cycle, unit, group, action := .complete } }

/-- Let one busy unit work for the current cycle. -/
def stepUnit [Sums] (unit : Nat) : Attempt (Job ι μ π) Unit := do
  let device := (← get).device
  if device.cluster.units.size ≤ unit then
    throw (.unknownUnit unit)
  if !device.busy.contains unit then
    throw (.idleUnit unit)
  let (progress, bench) ← Attempt.ofExcept (device.cluster.stepUnit device.cycle unit)
  modifyDevice fun device => { device with
    cluster := device.cluster.settle unit bench
    sink := device.sink.recordStages bench.events }
  match progress with
  | .running => return ()
  | .finished group => complete unit group

/-- The next cycle of the device: every unit that is busy at its start works once. -/
def advance [Sums] : Attempt (Job ι μ π) Unit := do
  modifyDevice fun device => { device with cycle := device.cycle + 1 }
  (← get).device.busy.toList.forM stepUnit

end Step

/-! ## Runs -/

/-- What has to hold before the first cycle of a run. A launch that is under way already may go on;
otherwise its groups must be small enough, and its wavefronts of the size that the device has. -/
def begin : Attempt (Job ι μ π) Unit := do
  let job ← get
  let config := job.device.config
  let launch := job.launch
  match job.device.active with
  | some active =>
    if active.launch ≠ launch.launch then
      throw (.launchInFlight active.id launch.id)
  | none =>
    if config.maxGroupSize < launch.groupSize then
      throw (.groupTooLarge launch.groupSize config.maxGroupSize)
    if launch.wavefrontSize ≠ config.wavefrontSize then
      throw (.invalidLaunch ("wavefront size " ++ toString launch.wavefrontSize
        ++ " does not match device wavefront size " ++ toString config.wavefrontSize))
    modifyDevice fun device => { device with
      active := some { launch := launch.launch, id := launch.id } }

/-- Send on the events recorded so far. -/
def flush : Attempt (Job ι μ π) Unit := do
  modifyDevice fun device => { device with sink := device.sink.flush }

/-- The run is over, and the device free for another launch. -/
def finish : Attempt (Job ι μ π) Outcome := do
  modifyDevice fun device => { device with active := none }
  flush
  return .completed (← get).device.stats

/-- The run is interrupted. -/
def suspend : Attempt (Job ι μ π) Outcome := do
  flush
  return .suspended (← get).device.stats

section Run

variable [InstructionModel ι] [MemoryService μ] [Placement π]

/-- Go on with a run until it is over or until `budget` further cycles have passed. The counter of
cycles has room for `room` more. -/
def drive [Sums] : (room : Nat) → (budget : Option Nat) → Attempt (Job ι μ π) Outcome
  | room, budget => do
    if (← get).canDispatch then
      let _ ← dispatch
    if (← get).device.busy.isEmpty then
      finish
    else if budget = some 0 then
      suspend
    else
      match room with
      | 0 => throw (.fault .cycleOverflow)
      | room + 1 =>
        advance
        drive room (budget.map (· - 1))

/-- Run a launch, with a budget of cycles or without one. -/
def runWithin [Sums] (budget : Option Nat) : Attempt (Job ι μ π) Outcome := do
  begin
  drive (wordBound - 1 - (← get).device.cycle) budget

/-- Run a launch to its end. -/
def run [Sums] : Attempt (Job ι μ π) RunStats := do
  return (← runWithin none).stats

/-- Run a launch for at most `cycles` further cycles. -/
def runFor [Sums] (cycles : Nat) : Attempt (Job ι μ π) Outcome := runWithin (some cycles)

end Run

end Job

end Accelerator
