import Accelerator.Device.Basic
import Accelerator.Snapshot

/-!
# Looking at a device

The work-groups that a device runs are known in several places: a unit is in one of two sets, holds a
group or none, and a launch remembers for each of its groups where it stands and on which unit.
`Device.violations` says where these disagree. `Device.snapshot` shows the device and a launch to
someone else.
-/

namespace Accelerator.Device

variable {ι μ π : Type}

/-- Where the sets of units disagree about a unit, or with what it holds. -/
def unitViolations (d : Device ι μ π) (launch : NdRange) (u : ComputeUnit) : List String :=
  let idle := d.idle.contains u.id
  let busy := d.busy.contains u.id
  (if idle = busy then [s!"cu {u.id}: idle={idle} busy={busy}"] else [])
  ++ (if busy = u.isBusy then []
    else [s!"cu {u.id}: in busy pool={busy} but holds work={u.isBusy}"])
  ++ (match u.group with
    | none => []
    | some group =>
      match launch.status group with
      | .ok .running => []
      | _ => [s!"cu {u.id}: holds work-group {group} which is not running"])

/-- The units that hold a group of the given number. -/
def holders (d : Device ι μ π) (group : Nat) : List Nat :=
  (d.units.filter fun u => u.group == some group).map (·.id)

/-- A unit that may be absent, as it is shown in a report. -/
def optionText : Option Nat → String
  | some n => s!"Some({n})"
  | none => "None"

/-- Numbers as they are shown in a report. -/
def listText (numbers : List Nat) : String :=
  "[" ++ ", ".intercalate (numbers.map toString) ++ "]"

/-- A running group is held by one unit, and by the one that the launch remembers. -/
def groupViolations (d : Device ι μ π) (g : WorkGroup) : List String :=
  let held := d.holders g.id
  if g.status ≠ .running ∨ (held.length = 1 ∧ g.unit? = held.head?) then []
  else [s!"work-group {g.id}: recorded on cu " ++ optionText g.unit? ++ ", held by "
    ++ listText held]

/-- Everything on which the device and a launch disagree. -/
def violations (d : Device ι μ π) (launch : NdRange) : List String :=
  d.units.flatMap (d.unitViolations launch) ++ launch.groups.toList.flatMap d.groupViolations

/-- The device and a launch as someone else sees them. -/
def snapshot [Placement π] (d : Device ι μ π) (launch : NdRange) (status : String)
    (timestamp : Nat) : Snapshot where
  status
  kernelName := launch.kernelName
  placement := Placement.name d.placement
  globalSize := launch.globalSize
  localSize := launch.localSize
  cycle := d.cycle
  groupsTotal := launch.groupCount
  groupsPending := launch.pending.length
  groupsDone := launch.doneCount
  idleUnits := d.idle.size
  busyUnits := d.busy.size
  unitGroups := d.units.map (·.group)
  unitSlots := d.units.map ComputeUnit.slotsInFlight
  instructions := d.stats.instructions
  timestamp

end Accelerator.Device
