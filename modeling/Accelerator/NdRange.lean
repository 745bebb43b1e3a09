import Accelerator.Error

/-!
# Launches

An `NdRange` is one launch of a kernel: a three-dimensional index space of work-items, cut into
equal work-groups, each of which is cut into wavefronts. It keeps the queue of the groups that wait
for dispatch and follows every group from waiting to done.

* `NdRange.create` accepts exactly the shapes that can be cut up, and cuts them;
* `takeNextPending`, `markRunning` and `markDone` are the only ways in which a launch changes, and a
  refused one changes nothing;
* `waitingGroup` and `runningGroup` say whether a group can be marked, and `start` and `finish` are the
  changes themselves.

The number by which the user calls a launch is not unique. Every launch therefore carries a second
number, `launch`, which whoever creates launches gives out once only.
-/

namespace Accelerator

/-- One launch of a kernel. -/
structure NdRange where
  /-- The number the user gave. -/
  id : Nat
  /-- The number that no other launch has. -/
  launch : Nat
  kernelName : String
  globalSize : Dim3
  localSize : Dim3
  wavefrontSize : Nat
  wavefrontsPerGroup : Nat
  groups : Array WorkGroup
  wavefronts : Array Wavefront
  /-- The groups that wait for dispatch, oldest first. -/
  pending : List Nat
  /-- How many groups are done. -/
  doneCount : Nat := 0

namespace NdRange

/-- The axes along which extents are checked, in order, with the extents of both sizes. -/
def axes (globalSize localSize : Dim3) : List (String × Nat × Nat) :=
  [("x", globalSize.x, localSize.x), ("y", globalSize.y, localSize.y),
    ("z", globalSize.z, localSize.z)]

/-- Along every axis both extents are positive and groups fill the space without a rest. -/
def checkAxis : String × Nat × Nat → Except Error Unit
  | (axis, whole, part) =>
    if whole = 0 ∨ part = 0 then
      throw (.invalidLaunch s!"zero size in {axis}")
    else if whole % part ≠ 0 then
      throw (.invalidLaunch
        s!"global size {whole} not a multiple of local size {part} in {axis}")
    else
      pure ()

/-- The size of a box, refused when it is not an item count. -/
def checkSize (which : String) (extent : Dim3) : Except Error Nat :=
  match extent.size with
  | some n => pure n
  | none =>
    throw (.invalidLaunch (which ++ " size " ++ extent.text ++ " exceeds "
      ++ toString (countBound - 1) ++ " work-items"))

/-- The wavefronts of one group: `perGroup` runs of `size` items, the last one cut off at the end of
the group. Wavefronts are numbered through all groups. -/
def groupWavefronts (size groupSize perGroup group : Nat) : List Wavefront :=
  (List.range perGroup).map fun w =>
    { id := group * perGroup + w
      group := group
      items := ⟨w * size, min (w * size + size) groupSize⟩
      base := group * groupSize }

/-- Cut an index space into work-groups and wavefronts. Along each axis in turn the extents are
checked for zero and for divisibility, and only then the number of items. -/
def create (launch id : Nat) (kernelName : String) (globalSize localSize : Dim3)
    (wavefrontSize : Nat) : Except Error NdRange := do
  if wavefrontSize = 0 then
    throw (.invalidLaunch "wavefront size is zero")
  (axes globalSize localSize).forM checkAxis
  let itemCount ← checkSize "global" globalSize
  let groupSize ← checkSize "local" localSize
  let grid := globalSize.div localSize
  let groupCount := itemCount / groupSize
  let perGroup := ceilDiv groupSize wavefrontSize
  return {
    id, launch, kernelName, globalSize, localSize, wavefrontSize
    wavefrontsPerGroup := perGroup
    groups := ((List.range groupCount).map fun group =>
      { id := group
        index := grid.ofFlat group
        wavefronts := ⟨group * perGroup, (group + 1) * perGroup⟩ }).toArray
    wavefronts := ((List.range groupCount).flatMap
      (groupWavefronts wavefrontSize groupSize perGroup)).toArray
    pending := List.range groupCount }

/-- How many work-items the launch has. -/
def itemCount (nd : NdRange) : Nat := nd.globalSize.volume

/-- How many work-items each group has. -/
def groupSize (nd : NdRange) : Nat := nd.localSize.volume

def groupCount (nd : NdRange) : Nat := nd.groups.size

def hasPending (nd : NdRange) : Bool := !nd.pending.isEmpty

/-- Every group is done. -/
def allDone (nd : NdRange) : Bool := nd.doneCount == nd.groupCount

def group (nd : NdRange) (id : Nat) : Except Error WorkGroup :=
  match nd.groups[id]? with
  | some g => pure g
  | none => throw (.unknownGroup id)

def status (nd : NdRange) (id : Nat) : Except Error Status :=
  return (← nd.group id).status

/-- The wavefronts of one group. -/
def wavefrontsOf (nd : NdRange) (id : Nat) : Except Error (List Wavefront) := do
  let span := (← nd.group id).wavefronts
  return (nd.wavefronts.extract span.start span.stop).toList

/-- Take the group that has waited longest off the queue. -/
def takeNextPending (nd : NdRange) : Except Error (Nat × NdRange) :=
  match nd.pending with
  | id :: rest => pure (id, { nd with pending := rest })
  | [] => throw (.nonePending nd.id)

/-- Give a group its new phase. -/
def setPhase (nd : NdRange) (g : WorkGroup) (phase : Phase) : NdRange :=
  { nd with groups := nd.groups.setIfInBounds g.id { g with phase } }

/-- The group of a number, which has to be waiting: no other one can start to run. -/
def waitingGroup (nd : NdRange) (id : Nat) : Except Error WorkGroup := do
  let g ← nd.group id
  match g.phase with
  | .pending => return g
  | _ => throw (.invalidTransition id g.status .running)

/-- The group of a number and the unit it runs on. It has to be running: no other one can be done. -/
def runningGroup (nd : NdRange) (id : Nat) : Except Error (WorkGroup × Nat) := do
  let g ← nd.group id
  match g.phase with
  | .running unit => return (g, unit)
  | _ => throw (.invalidTransition id g.status .done)

/-- A waiting group starts to run on `unit`. -/
def start (nd : NdRange) (g : WorkGroup) (unit : Nat) : NdRange := nd.setPhase g (.running unit)

/-- A group that runs on `unit` is done. -/
def finish (nd : NdRange) (g : WorkGroup) (unit : Nat) : NdRange :=
  let nd := nd.setPhase g (.done unit)
  { nd with doneCount := nd.doneCount + 1 }

/-- Start the group of a number on `unit`. Refused unless the group waits. -/
def markRunning (nd : NdRange) (id unit : Nat) : Except Error NdRange := do
  return nd.start (← nd.waitingGroup id) unit

/-- Finish the group of a number. Refused unless the group runs. -/
def markDone (nd : NdRange) (id : Nat) : Except Error NdRange := do
  let (g, unit) ← nd.runningGroup id
  return nd.finish g unit

end NdRange

end Accelerator
