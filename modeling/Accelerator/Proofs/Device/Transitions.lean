import Accelerator.Device.Run
import Accelerator.Proofs.Attempt
import Accelerator.Proofs.Launch
import Accelerator.Proofs.Pipeline.Soundness

/-!
# Transitions of a device

In a run without mistakes a job changes in three ways: a waiting group is handed to an idle unit,
a busy unit works for a cycle, and a unit that has finished is relieved of its group. Here each of
them is a function on jobs, and the operations of the device are shown to do just that where
nothing stands in their way.
-/

namespace Accelerator

/-- A unit that has been given a work-group. -/
def ComputeUnit.loaded (u : ComputeUnit) (group : Nat) (wavefronts : List Wavefront) : ComputeUnit :=
  { u with
    group := some group
    wavefronts := (wavefronts.map fun wavefront => { wavefront }).toArray
    cursor := 0 }

theorem ComputeUnit.assign_eq {u : ComputeUnit} (free : u.group = none) (group : Nat)
    (wavefronts : List Wavefront) : u.assign group wavefronts = .ok (u.loaded group wavefronts) := by
  rw [assign, free]
  rfl

namespace Job

variable {ι μ π : Type}

/-! ## What happens -/

/-- The waiting group `g` is handed to the idle unit `u`, whose number is `unit`. -/
def handed (job : Job ι μ π) (placement : π) (unit : Nat) (u : ComputeUnit) (g : WorkGroup)
    (rest : List Nat) (wavefronts : List Wavefront) : Job ι μ π where
  device := { job.device with
    placement
    cluster := job.device.cluster.setUnit unit (u.loaded g.id wavefronts)
    idle := job.device.idle.unlink unit
    busy := job.device.busy.push unit
    sink := job.device.sink.record
      { cycle := job.device.cycle + 1, unit, group := g.id, action := .run } }
  launch := ({ job.launch with pending := rest } : NdRange).start g unit

/-- A unit and what it works with. -/
def bench (job : Job ι μ π) (u : ComputeUnit) : Bench ι μ where
  unit := u
  isa := job.device.cluster.isa
  memory := job.device.cluster.memory

/-- The work of a unit has led to `bench`. -/
def worked (job : Job ι μ π) (unit : Nat) (bench : Bench ι μ) : Job ι μ π :=
  { job with device := { job.device with
      cluster := job.device.cluster.settle unit bench
      sink := job.device.sink.recordStages bench.events } }

/-- The unit `u`, whose number is `unit`, has finished the group `g`. -/
def relieved (job : Job ι μ π) (unit : Nat) (u : ComputeUnit) (g : WorkGroup) : Job ι μ π where
  device := { job.device with
    cluster := job.device.cluster.setUnit unit u.release.2
    busy := job.device.busy.remove unit
    idle := job.device.idle.push unit
    sink := job.device.sink.record
      { cycle := job.device.cycle, unit, group := g.id, action := .complete } }
  launch := job.launch.finish g unit

/-- The unit `u`, whose number is `unit`, works on the group `g` for one cycle. -/
def stepped [InstructionModel ι] [MemoryService μ] (job : Job ι μ π) (unit : Nat) (u : ComputeUnit)
    (g : WorkGroup) : Job ι μ π :=
  let bench := (job.bench u).cycled u.order job.device.cycle g.id
  let job := job.worked unit bench
  if bench.unit.isDrained then job.relieved unit bench.unit g else job

/-! ## Dispatch -/

section Dispatch

variable {job : Job ι μ π} {unit : Nat} {g : WorkGroup} {rest : List Nat}

theorem pickUnit_outcome [Placement π] (job : Job ι μ π) :
    pickUnit.outcome job =
      (.ok (Placement.pick job.device.placement job.device.idle).1,
        { job with device := { job.device with
            placement := (Placement.pick job.device.placement job.device.idle).2 } }) := rfl

theorem reserveUnit_outcome (idle : job.device.idle.contains unit = true) :
    (reserveUnit unit).outcome job =
      (.ok (), { job with device := { job.device with idle := job.device.idle.unlink unit } }) := by
  rw [reserveUnit, Attempt.outcome_bind, Attempt.outcome_get]
  simp only [idle, if_true]
  rfl

theorem reserveGroup_outcome (pending : job.launch.pending = g.id :: rest)
    (found : job.launch.groups[g.id]? = some g) (waits : g.phase = .pending) :
    (reserveGroup unit).outcome job =
      (.ok g.id,
        { job with launch := ({ job.launch with pending := rest } : NdRange).start g unit }) := by
  have first : job.launch.takeNextPending = .ok (g.id, { job.launch with pending := rest }) := by
    rw [NdRange.takeNextPending, pending]
    rfl
  have waiting : ({ job.launch with pending := rest } : NdRange).waitingGroup g.id = .ok g := by
    simp [NdRange.waitingGroup, NdRange.group, found, bind, Except.bind, pure, Except.pure, waits]
  simp only [reserveGroup, modifyLaunch, Attempt.outcome_bind, Attempt.outcome_get,
    Attempt.outcome_ofExcept, first, waiting, Attempt.outcome_modify, Attempt.outcome_pure]

theorem assignGroup_outcome {u : ComputeUnit} {group : Nat} {wavefronts : List Wavefront}
    (listed : job.launch.wavefrontsOf group = .ok wavefronts)
    (resting : job.device.cluster.units[unit]? = some u) (free : u.group = none) :
    (assignGroup unit group).outcome job =
      (.ok (), { job with device := { job.device with
          cluster := job.device.cluster.setUnit unit (u.loaded group wavefronts)
          busy := job.device.busy.push unit
          sink := job.device.sink.record
            { cycle := job.device.cycle + 1, unit, group, action := .run } } }) := by
  have unit_eq : job.device.cluster.unit unit = .ok u := by
    rw [Cluster.unit, resting]
    rfl
  simp only [assignGroup, modifyDevice, Attempt.outcome_bind, Attempt.outcome_get,
    Attempt.outcome_ofExcept, listed, unit_eq, u.assign_eq free, Attempt.outcome_modify]

/-- One work-group is dispatched when the placement has a unit for the group that waits longest. -/
theorem dispatchOne_outcome [Placement π] {placement : π} {u : ComputeUnit}
    {wavefronts : List Wavefront}
    (picked : Placement.pick job.device.placement job.device.idle = (some unit, placement))
    (idle : job.device.idle.contains unit = true) (pending : job.launch.pending = g.id :: rest)
    (found : job.launch.groups[g.id]? = some g) (waits : g.phase = .pending)
    (listed : job.launch.wavefrontsOf g.id = .ok wavefronts)
    (resting : job.device.cluster.units[unit]? = some u) (free : u.group = none) :
    dispatchOne.outcome job = (.ok true, job.handed placement unit u g rest wavefronts) := by
  have started : (({ job.launch with pending := rest } : NdRange).start g unit).wavefrontsOf g.id =
      .ok wavefronts := by
    rw [(NdRange.sameShape_start found).wavefrontsOf, listed]
  let chosen : Job ι μ π := { job with device := { job.device with placement } }
  let reserved : Job ι μ π := { chosen with device := { chosen.device with
    idle := chosen.device.idle.unlink unit } }
  let queued : Job ι μ π := { reserved with
    launch := ({ reserved.launch with pending := rest } : NdRange).start g unit }
  have choose : pickUnit.outcome job = (.ok (some unit), chosen) := by
    rw [pickUnit_outcome, picked]
  have reserve : (reserveUnit unit).outcome chosen = (.ok (), reserved) :=
    reserveUnit_outcome idle
  have queue : (reserveGroup unit).outcome reserved = (.ok g.id, queued) :=
    reserveGroup_outcome pending found waits
  have assign : (assignGroup unit g.id).outcome queued =
      (.ok (), job.handed placement unit u g rest wavefronts) :=
    assignGroup_outcome started resting free
  rw [dispatchOne, Attempt.outcome_bind_of_ok choose]
  simp only
  rw [Attempt.outcome_bind_of_ok reserve, Attempt.outcome_bind_of_ok queue,
    Attempt.outcome_bind_of_ok assign]
  rfl

end Dispatch

/-! ## Work -/

section Work

variable [InstructionModel ι] [MemoryService μ] {job : Job ι μ π} {unit : Nat} {u : ComputeUnit}
  {g : WorkGroup}

omit [InstructionModel ι] [MemoryService μ] in
theorem complete_outcome (found : job.launch.groups[g.id]? = some g)
    (runs : g.phase = .running unit) (resident : job.device.cluster.units[unit]? = some u) :
    (complete unit g.id).outcome job = (.ok (), job.relieved unit u g) := by
  have running : job.launch.runningGroup g.id = .ok (g, unit) := by
    simp [NdRange.runningGroup, NdRange.group, found, bind, Except.bind, pure, Except.pure, runs]
  have unit_eq : job.device.cluster.unit unit = .ok u := by
    rw [Cluster.unit, resident]
    rfl
  simp only [complete, modifyLaunch, modifyDevice, Attempt.outcome_bind, Attempt.outcome_get,
    Attempt.outcome_ofExcept, running, unit_eq, Attempt.outcome_modify]
  rfl

/-- A unit that has worked is relieved of its group exactly if it is drained. -/
theorem stepped_cases (job : Job ι μ π) (unit : Nat) (u : ComputeUnit) (g : WorkGroup) :
    let bench := (job.bench u).cycled u.order job.device.cycle g.id
    (bench.unit.isDrained = true ∧
        job.stepped unit u g = (job.worked unit bench).relieved unit bench.unit g) ∨
      (bench.unit.isDrained = false ∧ job.stepped unit u g = job.worked unit bench) := by
  intro bench
  cases drained : bench.unit.isDrained with
  | true => exact Or.inl ⟨rfl, if_pos drained⟩
  | false => exact Or.inr ⟨rfl, if_neg (ne_true_of_eq_false drained)⟩

/-- What a unit with a group does in a cycle. -/
theorem cluster_stepUnit {group : Nat} (resident : job.device.cluster.units[unit]? = some u)
    (sound : u.Sound) (held : u.group = some group) :
    let bench := (job.bench u).cycled u.order job.device.cycle group
    job.device.cluster.stepUnit job.device.cycle unit = .ok (bench.progress group, bench) := by
  have unit_eq : job.device.cluster.unit unit = .ok u := by
    rw [Cluster.unit, resident]
    rfl
  rw [Cluster.stepUnit, unit_eq]
  exact Bench.stepIn_eq (b := job.bench u) sound rfl held u.order job.device.cycle

/-- A busy unit works for a cycle, and is relieved of its group if that is finished. -/
theorem stepUnit_outcome (busy : job.device.busy.contains unit = true)
    (resident : job.device.cluster.units[unit]? = some u) (sound : u.Sound)
    (held : u.group = some g.id) (found : job.launch.groups[g.id]? = some g)
    (runs : g.phase = .running unit) :
    (stepUnit unit).outcome job = (.ok (), job.stepped unit u g) := by
  have inside : ¬ job.device.cluster.units.size ≤ unit :=
    Nat.not_le.mpr (Array.getElem?_eq_some_iff.mp resident).1
  have cycle := cluster_stepUnit resident sound held
  let bench := (job.bench u).cycled u.order job.device.cycle g.id
  have settled : (job.worked unit bench).device.cluster.units[unit]? = some bench.unit := by
    simp [worked, Cluster.settle, Cluster.setUnit, (Array.getElem?_eq_some_iff.mp resident).1]
  simp only [stepUnit, modifyDevice, Attempt.outcome_bind, Attempt.outcome_get, inside, if_false,
    busy, Bool.not_true, Bool.false_eq_true, Attempt.outcome_ofExcept, cycle,
    Attempt.outcome_modify, Bench.progress]
  rcases job.stepped_cases unit u g with ⟨drained, after⟩ | ⟨running, after⟩
  · have completed : (complete unit g.id).outcome (job.worked unit bench) =
        (.ok (), (job.worked unit bench).relieved unit bench.unit g) :=
      complete_outcome found runs settled
    rw [after, ← completed, if_pos drained]
    rfl
  · rw [after, if_neg (ne_true_of_eq_false running)]
    rfl

end Work

end Job

end Accelerator
