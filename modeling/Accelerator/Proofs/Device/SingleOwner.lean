import Accelerator.Proofs.Device.Fresh
import Accelerator.Proofs.Device.Operations
import Accelerator.Proofs.Device.Runs

/-!
# One owner for every running group

Whatever a driver does with a job, in whatever order, and whether it is refused or not, the sets
of idle and busy units, the units and the launch go on to agree about who runs what.
-/

namespace Accelerator.Job

variable {ι μ π : Type}

/-! ## What a driver may do -/

/-- What a driver may ask of a device that works on a launch. -/
inductive Call where
  | run
  | runFor (cycles : Nat)
  | dispatch
  | stepUnit (unit : Nat)
deriving DecidableEq

variable [InstructionModel ι] [MemoryService μ] [Placement π]

/-- Do what is asked, and leave the answer aside. -/
def Call.perform : Call → Attempt (Job ι μ π) Unit
  | run => do
    let _ ← Job.run
  | runFor cycles => do
    let _ ← Job.runFor cycles
  | dispatch => do
    let _ ← Job.dispatch
  | stepUnit unit => Job.stepUnit unit

/-- The job after several calls, whether they were refused or not. -/
def afterCalls (job : Job ι μ π) (calls : List Call) : Job ι μ π :=
  calls.foldl (fun job call => (call.perform.outcome job).2) job

/-! ## Agreement is kept -/

section Keeps

open Attempt

omit [InstructionModel ι] [MemoryService μ] in
theorem keeps_dispatch : Keeps (Owned (ι := ι) (μ := μ) (π := π)) Job.dispatch := by
  intro job owned
  obtain ⟨count, after, dispatched, path, -⟩ := owned.dispatch
  rw [dispatched]
  clear dispatched
  induction path with
  | refl => exact owned
  | tail _ hands ih => exact hands.owned ih

theorem keeps_stepUnit (unit : Nat) :
    Keeps (Owned (ι := ι) (μ := μ) (π := π)) (Job.stepUnit unit) := by
  intro job owned
  cases busy : job.device.busy.contains unit with
  | true =>
      obtain ⟨after, works, stepped⟩ := owned.stepUnit busy
      rw [stepped]
      exact works.owned owned
  | false =>
      by_cases outside : job.device.cluster.units.size ≤ unit
      · simpa [Job.stepUnit, outcome_bind, outside] using owned
      · simpa [Job.stepUnit, outcome_bind, outside, busy] using owned

omit [InstructionModel ι] [MemoryService μ] in
/-- What has nothing to do with units keeps ownership as it is. -/
theorem keeps_modifyDevice {change : Device ι μ π → Device ι μ π}
    (units : ∀ d, (change d).cluster.units = d.cluster.units) (idle : ∀ d, (change d).idle = d.idle)
    (busy : ∀ d, (change d).busy = d.busy) (placement : ∀ d, (change d).placement = d.placement) :
    Keeps (Owned (ι := ι) (μ := μ) (π := π)) (modifyDevice change) :=
  keeps_modify fun job owned =>
    owned.congr (units job.device) (idle job.device) (busy job.device) (placement job.device)

omit [InstructionModel ι] [MemoryService μ] in
theorem keeps_begin : Keeps (Owned (ι := ι) (μ := μ) (π := π)) begin := by
  intro job owned
  rcases job.begin_cases with ⟨e, refused⟩ | ⟨goes_on, -⟩ | ⟨begins, -⟩
  · rwa [refused]
  · rwa [goes_on]
  · rw [begins]
    exact owned.congr rfl rfl rfl rfl

omit [InstructionModel ι] [MemoryService μ] in
theorem keeps_flush : Keeps (Owned (ι := ι) (μ := μ) (π := π)) flush :=
  keeps_modifyDevice (fun _ => rfl) (fun _ => rfl) (fun _ => rfl) fun _ => rfl

omit [InstructionModel ι] [MemoryService μ] in
theorem keeps_suspend : Keeps (Owned (ι := ι) (μ := μ) (π := π)) suspend :=
  keeps_flush.bind fun _ => keeps_get.bind fun _ => keeps_pure _

omit [InstructionModel ι] [MemoryService μ] in
theorem keeps_finish : Keeps (Owned (ι := ι) (μ := μ) (π := π)) finish := by
  unfold finish
  refine Keeps.bind (keeps_modifyDevice ?_ ?_ ?_ ?_) fun _ =>
    keeps_flush.bind fun _ => keeps_get.bind fun _ => keeps_pure _
  all_goals exact fun _ => rfl

omit [InstructionModel ι] [MemoryService μ] in
theorem keeps_place : Keeps (Owned (ι := ι) (μ := μ) (π := π)) place :=
  keeps_get.bind fun _ => Keeps.ite (keeps_dispatch.bind fun _ => keeps_pure ()) (keeps_pure ())

theorem keeps_advance : Keeps (Owned (ι := ι) (μ := μ) (π := π)) advance := by
  unfold advance
  refine Keeps.bind (keeps_modifyDevice ?_ ?_ ?_ ?_) fun _ =>
    keeps_get.bind fun job => Keeps.forM keeps_stepUnit job.device.busy.toList
  all_goals exact fun _ => rfl

theorem keeps_drive (room : Nat) (budget : Option Nat) :
    Keeps (Owned (ι := ι) (μ := μ) (π := π)) (drive room budget) := by
  rw [drive_eq_driveWith]
  exact keeps_driveWith keeps_place keeps_advance keeps_finish keeps_suspend room budget

theorem keeps_runWithin (budget : Option Nat) :
    Keeps (Owned (ι := ι) (μ := μ) (π := π)) (runWithin budget) :=
  keeps_begin.bind fun _ => keeps_get.bind fun _ => keeps_drive _ _

theorem keeps_perform (call : Call) :
    Keeps (Owned (ι := ι) (μ := μ) (π := π)) call.perform := by
  cases call with
  | run =>
      exact ((keeps_runWithin none).bind fun _ => keeps_pure _).bind fun _ => keeps_pure ()
  | runFor cycles => exact (keeps_runWithin (some cycles)).bind fun _ => keeps_pure ()
  | dispatch => exact keeps_dispatch.bind fun _ => keeps_pure ()
  | stepUnit unit => exact keeps_stepUnit unit

end Keeps

/-- No call makes units, sets and launch disagree. -/
theorem Owned.afterCalls {job : Job ι μ π} (owned : job.Owned) (calls : List Call) :
    (job.afterCalls calls).Owned := by
  induction calls generalizing job with
  | nil => exact owned
  | cons call rest ih => exact ih (keeps_perform call job owned)

/-- A run takes no unit away and brings none. -/
theorem keeps_size_runWithin (n : Nat) (budget : Option Nat) :
    Attempt.Keeps (fun job : Job ι μ π => job.Owned ∧ job.device.cluster.units.size = n)
      (runWithin budget) := by
  open Attempt in
  have beginning : Keeps (fun job : Job ι μ π => job.Owned ∧ job.device.cluster.units.size = n)
      begin := by
    rintro job ⟨owned, size⟩
    refine ⟨keeps_begin job owned, ?_⟩
    rcases job.begin_cases with ⟨e, refused⟩ | ⟨goes_on, -⟩ | ⟨begins, -⟩
    · rwa [refused]
    · rwa [goes_on]
    · rwa [begins]
  refine beginning.bind fun _ => keeps_get.bind fun _ => ?_
  rw [drive_eq_driveWith]
  refine keeps_driveWith ?_ ?_ ?_ ?_ _ _
  · rintro job ⟨owned, size⟩
    obtain ⟨placed, done, path, -⟩ := owned.place
    rw [done]
    refine ⟨(owned.of_hands path).1, ?_⟩
    clear done
    induction path with
    | refl => exact size
    | tail _ hands ih => exact hands.size_units.trans ih
  · rintro job ⟨owned, size⟩
    obtain ⟨after, sweeps, done⟩ := owned.advance
    rw [← advance_eq_advanceWith, done]
    exact ⟨(owned.of_sweeps sweeps).1, sweeps.size_units.trans size⟩
  · rintro job ⟨owned, size⟩
    exact ⟨keeps_finish job owned, size⟩
  · rintro job ⟨owned, size⟩
    exact ⟨keeps_suspend job owned, size⟩

/-! ## What agreement means -/

variable {job : Job ι μ π}

section Agreement

omit [InstructionModel ι] [MemoryService μ]

/-- A number names a unit of some kind when it is among those of the units of that kind. -/
theorem Owned.mem_map_id (owned : job.Owned) (kind : ComputeUnit → Bool) (unit : Nat) :
    unit ∈ (job.device.units.filter kind).map (·.id) ↔
      ∃ u, job.device.cluster.units[unit]? = some u ∧ kind u = true := by
  simp only [List.mem_map, List.mem_filter, Device.units]
  constructor
  · intro given
    rcases given with ⟨u, ⟨member, isKind⟩, rfl⟩
    obtain ⟨index, found⟩ := List.getElem?_of_mem member
    rw [Array.getElem?_toList] at found
    exact ⟨u, owned.numbered index u found ▸ found, isKind⟩
  · intro given
    rcases given with ⟨u, found, isKind⟩
    refine ⟨u, ⟨?_, isKind⟩, owned.numbered unit u found⟩
    rw [← Array.getElem?_toList] at found
    exact List.mem_of_getElem? found

theorem Owned.nodup_map_id (owned : job.Owned) (kind : ComputeUnit → Bool) :
    ((job.device.units.filter kind).map (·.id)).Nodup := by
  have all : job.device.units.map (·.id) = List.range job.device.cluster.units.size := by
    apply List.ext_getElem?
    intro unit
    rw [Device.units, List.getElem?_map, Array.getElem?_toList]
    rcases found : job.device.cluster.units[unit]? with _ | u
    · rw [List.getElem?_eq_none]
      · rfl
      · simpa using Array.getElem?_eq_none_iff.mp found
    · rw [List.getElem?_range (Array.getElem?_eq_some_iff.mp found).1]
      simp [owned.numbered unit u found]
  have nodup : (job.device.units.map (·.id)).Nodup := all ▸ List.nodup_range
  exact nodup.sublist (List.filter_sublist.map _)

/-- The unit of a running group, and no other, holds it. -/
theorem Owned.holders_eq (owned : job.Owned) {unit group : Nat} (runs : job.Runs unit group) :
    job.device.holders group = [unit] := by
  refine List.perm_singleton.mp ?_
  refine (List.perm_ext_iff_of_nodup (owned.nodup_map_id _) (by simp)).mpr fun other => ?_
  rw [owned.mem_map_id, List.mem_singleton]
  constructor
  · intro given
    rcases given with ⟨u, found, held⟩
    exact ((owned.owners other group).mp ⟨u, found, by simpa using held⟩).unit_eq runs
  · rintro rfl
    obtain ⟨u, found, held⟩ := (owned.owners other group).mpr runs
    exact ⟨u, found, by simpa using held⟩

/-- A unit is idle or busy, and busy if it holds a work-group. -/
theorem Owned.contains_eq (owned : job.Owned) {unit : Nat} {u : ComputeUnit}
    (found : job.device.cluster.units[unit]? = some u) :
    job.device.busy.contains unit = u.isBusy ∧ job.device.idle.contains unit = !u.isBusy := by
  have busy := owned.busy unit
  have idle := owned.idle unit
  simp only [Holds, Rests, found, Option.some.injEq, exists_eq_left'] at busy idle
  constructor
  · rw [Bool.eq_iff_iff, busy]
    cases held : u.group <;> simp [ComputeUnit.isBusy, held]
  · rw [Bool.eq_iff_iff, idle]
    cases held : u.group <;> simp [ComputeUnit.isBusy, held]

theorem Owned.unitViolations_eq_nil (owned : job.Owned) {unit : Nat} {u : ComputeUnit}
    (found : job.device.cluster.units[unit]? = some u) :
    job.device.unitViolations job.launch u = [] := by
  obtain ⟨busy, idle⟩ := owned.contains_eq found
  have status : ∀ group, u.group = some group → job.launch.status group = .ok .running := by
    intro group held
    obtain ⟨g, here, runs⟩ := (owned.owners unit group).mp ⟨u, found, held⟩
    exact NdRange.status_eq_ok.mpr ⟨g, here, congrArg Phase.status runs⟩
  rw [Device.unitViolations, owned.numbered unit u found, busy, idle]
  rcases held : u.group with _ | group
  · simp [ComputeUnit.isBusy, held]
  · simp [ComputeUnit.isBusy, held, status group held]

theorem Owned.groupViolations_eq_nil (owned : job.Owned) {group : Nat} {g : WorkGroup}
    (found : job.launch.groups[group]? = some g) : job.device.groupViolations g = [] := by
  rw [Device.groupViolations, owned.launch.named group g found]
  rcases phase : g.phase with _ | unit | unit
  · simp [WorkGroup.status, phase, Phase.status]
  · have held := owned.holders_eq ⟨g, found, phase⟩
    simp [held, WorkGroup.unit?, phase, Phase.unit?]
  · simp [WorkGroup.status, phase, Phase.status]

/-- The device and the launch disagree on nothing. -/
theorem Owned.violations_eq_nil (owned : job.Owned) : job.device.violations job.launch = [] := by
  rw [Device.violations, List.append_eq_nil_iff, List.flatMap_eq_nil_iff, List.flatMap_eq_nil_iff]
  constructor
  · intro u member
    obtain ⟨unit, found⟩ := List.getElem?_of_mem member
    rw [Device.units, Array.getElem?_toList] at found
    exact owned.unitViolations_eq_nil found
  · intro g member
    obtain ⟨group, found⟩ := List.getElem?_of_mem member
    rw [Array.getElem?_toList] at found
    exact owned.groupViolations_eq_nil found

/-- There are as many busy units as units that hold a work-group. -/
theorem Owned.size_busy (owned : job.Owned) :
    job.device.busy.size = (job.device.units.filter (·.isBusy)).length := by
  obtain ⟨busy, listed⟩ := owned.busyListed
  have same : busy.Perm ((job.device.units.filter (·.isBusy)).map (·.id)) := by
    refine (List.perm_ext_iff_of_nodup listed.distinct (owned.nodup_map_id _)).mpr fun unit => ?_
    rw [← listed.member, owned.busy, owned.mem_map_id]
    simp only [Holds, ComputeUnit.isBusy, Option.isSome_iff_exists]
    constructor
    · intro given
      rcases given with ⟨group, u, found, held⟩
      exact ⟨u, found, group, held⟩
    · intro given
      rcases given with ⟨u, found, group, held⟩
      exact ⟨group, u, found, held⟩
  rw [listed.size, same.length_eq, List.length_map]

theorem Owned.size_idle (owned : job.Owned) :
    job.device.idle.size = (job.device.units.filter (!·.isBusy)).length := by
  obtain ⟨idle, listed⟩ := owned.idleListed
  have same : idle.Perm ((job.device.units.filter (!·.isBusy)).map (·.id)) := by
    refine (List.perm_ext_iff_of_nodup listed.distinct (owned.nodup_map_id _)).mpr fun unit => ?_
    rw [← listed.member, owned.idle, owned.mem_map_id]
    simp [Rests, ComputeUnit.isBusy]
  rw [listed.size, same.length_eq, List.length_map]

end Agreement

/-! ## When a run is over -/

section Quiet

variable {after : Job ι μ π} {unit : Nat} {u : ComputeUnit}

section Units

omit [InstructionModel ι] [MemoryService μ]

/-- When a run is over no unit holds a group. -/
theorem Quiet.group_eq_none (quiet : Quiet job) (owned : job.Owned)
    (found : job.device.cluster.units[unit]? = some u) : u.group = none := by
  rcases owned.busyListed with ⟨busy, listed⟩
  have idle := quiet.idle
  rw [listed.isEmpty_eq, List.isEmpty_iff] at idle
  rcases held : u.group with _ | group
  · rfl
  · have member := (listed.member unit).mp ((owned.busy unit).mpr ⟨group, u, found, held⟩)
    rw [idle] at member
    cases member

theorem Quiet.idle_contains (quiet : Quiet job) (owned : job.Owned)
    (found : job.device.cluster.units[unit]? = some u) :
    job.device.idle.contains unit = true ∧ job.device.busy.contains unit = false := by
  rcases owned.contains_eq found with ⟨busy, idle⟩
  have free := quiet.group_eq_none owned found
  rw [busy, idle, ComputeUnit.isBusy, free]
  exact ⟨rfl, rfl⟩

/-- When a run is over no group waits. -/
theorem Quiet.pending_eq_nil (quiet : Quiet job) (owned : job.Owned)
    (found : job.device.cluster.units[unit]? = some u) : job.launch.pending = [] := by
  rcases owned.idleListed with ⟨idle, listed⟩
  have member := (listed.member unit).mp (quiet.idle_contains owned found).1
  have placed := quiet.placed
  rw [canDispatch, listed.isEmpty_eq, List.isEmpty_eq_false_iff.mpr (List.ne_nil_of_mem member)]
    at placed
  simpa [NdRange.hasPending] using placed

/-- When a run is over every group is done on some unit. -/
theorem Quiet.exists_done (quiet : Quiet job) (owned : job.Owned)
    (found : job.device.cluster.units[unit]? = some u) {group : Nat} {g : WorkGroup}
    (here : job.launch.groups[group]? = some g) : ∃ runner, g.phase = .done runner := by
  rcases phase : g.phase with _ | runner | runner
  · have waits := (owned.launch.waiting group).mpr ⟨g, here, phase⟩
    rw [quiet.pending_eq_nil owned found] at waits
    cases waits
  · rcases (owned.owners runner group).mpr ⟨g, here, phase⟩ with ⟨v, resident, held⟩
    cases held.symm.trans (quiet.group_eq_none owned resident)
  · exact ⟨runner, rfl⟩

theorem Quiet.status_eq_done (quiet : Quiet job) (owned : job.Owned)
    (found : job.device.cluster.units[unit]? = some u) {group : Nat}
    (inside : group < job.launch.groupCount) : job.launch.status group = .ok .done := by
  obtain ⟨g, here⟩ : ∃ g, job.launch.groups[group]? = some g :=
    ⟨_, Array.getElem?_eq_getElem inside⟩
  obtain ⟨runner, phase⟩ := quiet.exists_done owned found here
  exact NdRange.status_eq_ok.mpr ⟨g, here, congrArg Phase.status phase⟩

theorem Quiet.doneCount_eq (quiet : Quiet job) (owned : job.Owned)
    (found : job.device.cluster.units[unit]? = some u) :
    job.launch.doneCount = job.launch.groupCount := by
  rcases owned.busyListed with ⟨busy, listed⟩
  have idle := quiet.idle
  have counted := owned.counted
  rw [listed.isEmpty_eq, List.isEmpty_iff] at idle
  rw [quiet.pending_eq_nil owned found, listed.size, idle] at counted
  simpa using counted

end Units

/-- A run that is not suspended stops when nothing can be dispatched and no unit is busy. -/
theorem Owned.quiet_of_drive {room : Nat} {budget : Option Nat} {answer : Outcome}
    (owned : job.Owned) (done : (drive room budget).outcome job = (.ok answer, after))
    (ended : budget = none ∨ answer.isCompleted = true) : Quiet after := by
  induction room generalizing job budget
  all_goals
    obtain ⟨placed, place, path, full⟩ := owned.place
    obtain ⟨owned', -, -⟩ := owned.of_hands path
    rw [drive_outcome place] at done
    split at done
    next idle =>
      cases done
      exact ⟨full, idle⟩
    split at done
    next exhausted =>
      cases done
      simp [exhausted, Outcome.isCompleted] at ended
  case zero => cases done
  case succ room ih _ _ =>
    obtain ⟨next, sweeps, advanced⟩ := owned'.advance
    dsimp only at done
    rw [Attempt.outcome_bind_of_ok advanced] at done
    exact ih (sweeps.owned owned'.ticked) done (ended.imp_left fun none => by rw [none]; rfl)

theorem Owned.quiet_of_runWithin {budget : Option Nat} {answer : Outcome} (owned : job.Owned)
    (done : (runWithin budget).outcome job = (.ok answer, after))
    (ended : budget = none ∨ answer.isCompleted = true) : Quiet after := by
  rcases job.begin_cases with ⟨e, refused⟩ | ⟨goes_on, -⟩ | ⟨begins, -⟩
  · rw [runWithin_outcome_of_error refused] at done
    cases done
  · rw [runWithin_outcome goes_on] at done
    exact owned.quiet_of_drive done ended
  · have admitted : job.admitted.Owned := owned.congr rfl rfl rfl rfl
    rw [runWithin_outcome begins] at done
    exact admitted.quiet_of_drive done ended

theorem Owned.quiet_of_run {stats : RunStats} (owned : job.Owned)
    (done : run.outcome job = (.ok stats, after)) : Quiet after := by
  obtain ⟨answer, within, -⟩ := run_eq_ok.mp done
  exact owned.quiet_of_runWithin within (.inl rfl)

end Quiet

/-! ## Every driver -/

/-- Whatever a driver asks of a new device and a new launch, in whatever order, and whether it is
refused or not: a unit is in one of the two sets, and busy exactly if it holds a work-group; a
group is held exactly by the unit on which it runs; and every group is counted once. -/
theorem single_owner {id : Nat} {config : DeviceConfig} {isa : ι} {memory : μ}
    {device : Device ι μ Placer}
    (built : Device.build id config isa memory config.placement.build = .ok device)
    (small : config.wavefrontSize < countBound) {launch number : Nat} {kernelName : String}
    {globalSize localSize : Dim3} {wavefrontSize : Nat} {nd : NdRange}
    (made : NdRange.create launch number kernelName globalSize localSize wavefrontSize = .ok nd)
    (order : StageOrder) (sink : Sink) (calls : List Call) (status : String) (timestamp : Nat) :
    let job := (Job.fresh device order sink nd).afterCalls calls
    let shown := job.device.snapshot job.launch status timestamp
    (∀ (unit : Nat) (u : ComputeUnit), job.device.cluster.units[unit]? = some u →
      job.device.idle.contains unit = !job.device.busy.contains unit ∧
      job.device.busy.contains unit = u.isBusy ∧
      ∀ group, u.group = some group →
        ∃ g, job.launch.groups[group]? = some g ∧ g.phase = .running unit) ∧
    (∀ (group : Nat) (g : WorkGroup), job.launch.groups[group]? = some g → g.status = .running →
      ∃ unit, g.phase = .running unit ∧ job.device.holders group = [unit]) ∧
    job.device.violations job.launch = [] ∧
    job.launch.pending.length + job.device.busy.size + job.launch.doneCount =
      job.launch.groupCount ∧
    shown.groupsPending + shown.busyUnits + shown.groupsDone = shown.groupsTotal ∧
    shown.busyUnits = (shown.unitGroups.filter (·.isSome)).length ∧
    shown.idleUnits = (shown.unitGroups.filter (·.isNone)).length := by
  intro job shown
  have owned : job.Owned :=
    (Owned.fresh built small config.placement.reliable_build made order sink).afterCalls calls
  refine ⟨fun unit u found => ?_, fun group g found runs => ?_, owned.violations_eq_nil,
    owned.counted, owned.counted, ?_, ?_⟩
  · obtain ⟨busy, idle⟩ := owned.contains_eq found
    refine ⟨by rw [idle, busy], busy, fun group held => ?_⟩
    exact (owned.owners unit group).mp ⟨u, found, held⟩
  · rcases phase : g.phase with _ | unit | unit
    · simp [WorkGroup.status, phase, Phase.status] at runs
    · exact ⟨unit, rfl, owned.holders_eq ⟨g, found, phase⟩⟩
    · simp [WorkGroup.status, phase, Phase.status] at runs
  · have size := owned.size_busy
    simpa [shown, Device.snapshot, List.filter_map, Function.comp_def, ComputeUnit.isBusy] using size
  · have size := owned.size_idle
    simpa [shown, Device.snapshot, List.filter_map, Function.comp_def, ComputeUnit.isBusy] using size

/-- The same on a device of two units, through calls some of which are refused. -/
theorem single_owner_on_two_units :
    ∃ (device : Device SyntheticProgram FixedLatency Placer) (nd : NdRange),
      Device.build 0 { computeUnits := 2, streamCores := 2, wavefrontSize := 4 }
        (.ofKinds [.load, .alu]) { latency := 3 } PlacementPolicy.firstIdle.build = .ok device ∧
      NdRange.create 1 0 "kernel" ⟨24, 1, 1⟩ ⟨8, 1, 1⟩ 4 = .ok nd ∧
      let job := (Job.fresh device .reverse .keepAll nd).afterCalls
        [.dispatch, .stepUnit 0, .stepUnit 7, .runFor 5]
      job.device.violations job.launch = [] := by
  have built : Device.build 0 { computeUnits := 2, streamCores := 2, wavefrontSize := 4 }
      (SyntheticProgram.ofKinds [.load, .alu]) ({ latency := 3 } : FixedLatency)
      PlacementPolicy.firstIdle.build = .ok _ := rfl
  have made : NdRange.create 1 0 "kernel" ⟨24, 1, 1⟩ ⟨8, 1, 1⟩ 4 = .ok _ := rfl
  refine ⟨_, _, built, made, ?_⟩
  exact (single_owner built (by decide) made .reverse .keepAll
    [.dispatch, .stepUnit 0, .stepUnit 7, .runFor 5] "running" 0).2.2.1

end Accelerator.Job
