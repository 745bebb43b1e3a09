import Accelerator.Error
import Accelerator.Instruction
import Accelerator.Lane
import Accelerator.Latch

/-!
# Compute units

A compute unit has a row of lanes and a pipeline of six stages, and runs at most one work-group at a
time. An instruction crosses the pipeline as a *slot*. A slot waits in the latch behind the stage that
produced it, and stays in the execute stage for as long as its wavefront has sub-wavefronts left or
its memory requests are under way.

A unit is given a work-group by `assign`, and gives it back by `release` once it is *drained*: nothing
is in the pipeline and every wavefront has retired.
-/

namespace Accelerator

/-- An instruction on its way through the pipeline. -/
structure Slot where
  /-- Number of the wavefront in its launch. -/
  wavefront : Nat
  /-- Position of the wavefront in its work-group. -/
  index : Nat
  pc : Nat
  /-- The instruction, once it is fetched. -/
  instruction : Option Instruction := none
  /-- The cycle in which a stage last handed the slot on. -/
  producedAt : Nat
deriving DecidableEq, Inhabited

/-- The slot in the execute stage. -/
structure Execution where
  slot : Slot
  /-- The sub-wavefront whose turn is next. -/
  turn : Nat := 0
  /-- How many sub-wavefronts take a turn. -/
  turns : Nat
  /-- From this cycle on the results of all memory requests are available. -/
  readyAt : Nat
deriving DecidableEq, Inhabited

/-- The latches between the stages, each named for the stage that fills it. -/
structure Latches (α : Type) where
  schedule : Latch α := {}
  fetch : Latch α := {}
  decode : Latch α := {}
  read : Latch α := {}
  execute : Latch α := {}
deriving DecidableEq, Inhabited

namespace Latches

variable {α : Type}

/-- The latch that a stage fills. The last stage fills none. -/
def get (l : Latches α) : Stage → Latch α
  | .schedule => l.schedule
  | .fetch => l.fetch
  | .decode => l.decode
  | .read => l.read
  | .execute => l.execute
  | .write => .empty

/-- Replace the latch that a stage fills. -/
def set (l : Latches α) (stage : Stage) (latch : Latch α) : Latches α :=
  match stage with
  | .schedule => { l with schedule := latch }
  | .fetch => { l with fetch := latch }
  | .decode => { l with decode := latch }
  | .read => { l with read := latch }
  | .execute => { l with execute := latch }
  | .write => l

/-- A stage has left a value in the latch that it fills. -/
def isOccupied (l : Latches α) (stage : Stage) : Bool := (l.get stage).isOccupied

/-- How many latches hold something. -/
def heldCount (l : Latches α) : Nat :=
  (Stage.handingOn.filter fun stage => !(l.get stage).isEmpty).length

/-- No latch holds anything. -/
def isEmpty (l : Latches α) : Bool := Stage.handingOn.all fun stage => (l.get stage).isEmpty

/-- Commit every latch, from the first to the last. The answer to a refusal is the stage that fills
the latch. -/
def commit (l : Latches α) : Except Stage (Latches α) :=
  Stage.handingOn.foldlM (fun l stage =>
    match (l.get stage).commit? with
    | some latch => .ok (l.set stage latch)
    | none => .error stage) l

end Latches

/-- What a unit has done since it was built. -/
structure UnitStats where
  busyCycles : Nat := 0
  instructions : Nat := 0
  requests : Nat := 0
  groups : Nat := 0
deriving DecidableEq, Inhabited

structure ComputeUnit where
  id : Nat
  /-- The device the unit belongs to. -/
  deviceId : Nat
  lanes : List Lane
  /-- The work-group the unit holds. -/
  group : Option Nat := none
  /-- The wavefronts of that work-group. -/
  wavefronts : Array Resident := #[]
  /-- The wavefront that is asked first whether it can issue. -/
  cursor : Nat := 0
  latches : Latches Slot := {}
  /-- The slot in the execute stage. -/
  executing : Option Execution := none
  order : StageOrder := .reverse
  stats : UnitStats := {}
deriving DecidableEq, Inhabited

namespace ComputeUnit

/-- A unit that has never worked. -/
def create (id deviceId laneCount : Nat) : ComputeUnit where
  id
  deviceId
  lanes := (List.range laneCount).map fun lane => { id := lane, unit := id }

def isBusy (u : ComputeUnit) : Bool := u.group.isSome

/-- How many slots are in the pipeline, at most one for each latch and one in the execute stage. -/
def slotsInFlight (u : ComputeUnit) : Nat :=
  u.latches.heldCount + if u.executing.isSome then 1 else 0

/-- The pipeline is empty and every wavefront has retired. -/
def isDrained (u : ComputeUnit) : Bool :=
  u.executing.isNone && u.latches.isEmpty && u.wavefronts.all (·.retired)

def idleLanes (u : ComputeUnit) : ComputeUnit := { u with lanes := u.lanes.map Lane.idle }

/-- Give the unit a work-group, none of whose wavefronts has issued yet. Refused while it holds
another one. -/
def assign (u : ComputeUnit) (group : Nat) (wavefronts : List Wavefront) :
    Except Error ComputeUnit :=
  match u.group with
  | some running => throw (.unitBusy u.id running)
  | none => return { u with
      group := some group
      wavefronts := (wavefronts.map fun wavefront => { wavefront }).toArray
      cursor := 0 }

/-- Take a finished work-group back. There is none while the unit is not drained, or while it holds
none, and then nothing changes. -/
def release (u : ComputeUnit) : Option Nat × ComputeUnit :=
  match u.group with
  | some group =>
    if u.isDrained then
      (some group, { u.idleLanes with
        group := none
        wavefronts := #[]
        stats := { u.stats with groups := u.stats.groups + 1 } })
    else (none, u)
  | none => (none, u)

end ComputeUnit

end Accelerator
