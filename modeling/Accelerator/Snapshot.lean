import Accelerator.Config.Codec

/-!
# Snapshots

A snapshot shows a run in progress: the launch, where its work-groups stand, and what each compute
unit holds. It is written as a record, so that someone else can follow the run.
-/

namespace Accelerator

structure Snapshot where
  status : String := ""
  kernelName : String := ""
  /-- Name of the placement in use. -/
  placement : String := ""
  globalSize : Dim3 := ⟨0, 0, 0⟩
  localSize : Dim3 := ⟨0, 0, 0⟩
  cycle : Nat := 0
  groupsTotal : Nat := 0
  groupsPending : Nat := 0
  groupsDone : Nat := 0
  idleUnits : Nat := 0
  busyUnits : Nat := 0
  /-- For each unit, the work-group that it holds. -/
  unitGroups : List (Option Nat) := []
  /-- For each unit, how many slots are in its pipeline. -/
  unitSlots : List Nat := []
  instructions : Nat := 0
  /-- When the snapshot was taken, in milliseconds. -/
  timestamp : Nat := 0
deriving DecidableEq, Inhabited

namespace Snapshot

/-- The part of the work-groups that is done, from 0 to 1. Nothing of no work-groups is done. -/
def progress (s : Snapshot) : Float :=
  if s.groupsTotal = 0 then 0.0
  else s.groupsDone.toUInt64.toFloat / s.groupsTotal.toUInt64.toFloat

/-- The names of the fields, in the order of their declaration. -/
def fieldNames : List String :=
  ["status", "kernel_name", "placement", "global", "local", "cycle", "work_groups_total",
    "work_groups_pending", "work_groups_done", "idle_compute_units", "busy_compute_units",
    "cu_work_group", "cu_slots_in_flight", "instructions_retired", "timestamp_ms"]

/-- The values of the fields, in the order of their declaration. -/
def fieldValues (s : Snapshot) : List Tree :=
  [.text s.status, .text s.kernelName, .text s.placement, s.globalSize.toArray,
    s.localSize.toArray, .natural s.cycle, .natural s.groupsTotal, .natural s.groupsPending,
    .natural s.groupsDone, .natural s.idleUnits, .natural s.busyUnits,
    .list (s.unitGroups.map (.ofOption .natural)), .list (s.unitSlots.map .natural),
    .natural s.instructions, .natural s.timestamp]

def toTree (s : Snapshot) : Tree := .table (fieldNames.zip s.fieldValues)

/-- Every field has to be written, but for the slots in the pipelines. -/
def ofTree? (t : Tree) : Option Snapshot := do
  let word := required (Tree.natural? wordBound)
  let extents := required (Dim3.ofArray? .json)
  match ← t.fields? .json fieldNames false with
  | [status, kernelName, placement, globalSize, localSize, cycle, groupsTotal, groupsPending,
      groupsDone, idleUnits, busyUnits, unitGroups, unitSlots, instructions, timestamp] =>
    return {
      status := ← required Tree.text? status
      kernelName := ← required Tree.text? kernelName
      placement := ← required Tree.text? placement
      globalSize := ← extents globalSize
      localSize := ← extents localSize
      cycle := ← word cycle
      groupsTotal := ← word groupsTotal
      groupsPending := ← word groupsPending
      groupsDone := ← word groupsDone
      idleUnits := ← word idleUnits
      busyUnits := ← word busyUnits
      unitGroups := ← required
        (Tree.list? (Tree.optional? (Tree.natural? wordBound))) unitGroups
      unitSlots := ← fieldOr [] (Tree.list? (Tree.natural? wordBound)) unitSlots
      instructions := ← word instructions
      timestamp := ← word timestamp }
  | _ => none

end Snapshot

end Accelerator
