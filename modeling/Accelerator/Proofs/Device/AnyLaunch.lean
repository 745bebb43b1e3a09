import Accelerator.Proofs.Device.Isolation
import Accelerator.Proofs.Device.RefusedDispatch
import Accelerator.Proofs.Launch.Calls

/-!
# Devices in any hands

Nobody has to bring the launch to a device that it brought the last time, nor one that agrees with
what the units run; and a placement may pick what it likes. Then dispatch can be refused half-way,
and a unit can finish a group that its launch does not want. What is left is `Device.Sorted`: an
idle unit holds no group, and a busy one does. Every call keeps this, whatever it comes with
(`Device.Sorted.afterCalls`).

The launches get around as well. But whatever a device does with a launch, it does by calls to that
launch, and so the launch keeps its books in any hands (`NdRange.Reached.books`).
-/

namespace Accelerator

namespace Device

variable {ι μ π : Type}

/-! ## Calls -/

/-- What may be done with a device. Each call comes with a launch of its own, and what the device
works with can be replaced at any time. -/
inductive Call (ι μ π : Type) where
  | work (call : Job.Call) (launch : NdRange)
  | withIsa (isa : ι)
  | withMemory (memory : μ)
  | withPlacement (placement : π)
  | withSink (sink : Sink)
  | withOrder (order : StageOrder)

section Calls

variable [InstructionModel ι] [MemoryService μ] [Placement π]

/-- The device after a call, whether it was refused or not. -/
def afterCall (d : Device ι μ π) : Call ι μ π → Device ι μ π
  | .work call launch => (call.perform.outcome { device := d, launch }).2.device
  | .withIsa isa => d.withIsa isa
  | .withMemory memory => d.withMemory memory
  | .withPlacement placement => d.withPlacement placement
  | .withSink sink => d.withSink sink
  | .withOrder order => d.withOrder order

def afterCalls (d : Device ι μ π) (calls : List (Call ι μ π)) : Device ι μ π :=
  calls.foldl afterCall d

end Calls

/-! ## Idle units and busy units -/

/-- Idle units hold no group, and busy ones do. -/
structure Sorted (d : Device ι μ π) : Prop where
  sound : ∀ (unit : Nat) (u : ComputeUnit), d.cluster.units[unit]? = some u → u.Sound
  idleListed : ∃ l, d.idle.Lists l
  busyListed : ∃ l, d.busy.Lists l
  idleCapacity : d.idle.capacity = d.cluster.units.size
  busyCapacity : d.busy.capacity = d.cluster.units.size
  idle : ∀ unit, d.idle.contains unit = true →
    ∃ u, d.cluster.units[unit]? = some u ∧ u.group = none
  busy : ∀ unit, d.busy.contains unit = true →
    ∃ u group, d.cluster.units[unit]? = some u ∧ u.group = some group

variable {d : Device ι μ π} {unit : Nat} {u : ComputeUnit}

/-- Only the units and the two sets matter. -/
theorem Sorted.congr (sorted : d.Sorted) {after : Device ι μ π}
    (units : after.cluster.units = d.cluster.units) (idle : after.idle = d.idle)
    (busy : after.busy = d.busy) : after.Sorted where
  sound := by simpa only [units] using sorted.sound
  idleListed := by simpa only [idle] using sorted.idleListed
  busyListed := by simpa only [busy] using sorted.busyListed
  idleCapacity := by simpa only [idle, units] using sorted.idleCapacity
  busyCapacity := by simpa only [busy, units] using sorted.busyCapacity
  idle := by simpa only [idle, units] using sorted.idle
  busy := by simpa only [busy, units] using sorted.busy

theorem Sorted.notIdle (sorted : d.Sorted) {group : Nat}
    (resident : d.cluster.units[unit]? = some u) (held : u.group = some group) :
    d.idle.contains unit = false := by
  refine eq_false_of_ne_true fun isIdle => ?_
  obtain ⟨v, found, free⟩ := sorted.idle unit isIdle
  cases resident.symm.trans found
  cases free.symm.trans held

theorem Sorted.notBusy (sorted : d.Sorted) (resident : d.cluster.units[unit]? = some u)
    (free : u.group = none) : d.busy.contains unit = false := by
  refine eq_false_of_ne_true fun isBusy => ?_
  obtain ⟨v, group, found, held⟩ := sorted.busy unit isBusy
  cases resident.symm.trans found
  cases free.symm.trans held

/-- A new device holds no group at all. -/
theorem Sorted.of_build {id : Nat} {config : DeviceConfig} {isa : ι} {memory : μ} {placement : π}
    (built : build id config isa memory placement = .ok d)
    (small : config.wavefrontSize < countBound) : d.Sorted := by
  have units := getElem?_of_build built .reverse
  have same : d.withOrder .reverse = d := by
    obtain ⟨-, rfl⟩ := build_eq_ok built
    simp [withOrder, Cluster.setOrder, Cluster.create, ComputeUnit.create]
  have sound : ∀ (unit : Nat) (u : ComputeUnit), d.cluster.units[unit]? = some u → u.Sound :=
    fun unit u found => sound_of_build built small .reverse (same.symm ▸ found)
  rw [same] at units
  obtain ⟨valid, rfl⟩ := build_eq_ok built
  have size : (Cluster.create id config.computeUnits config.streamCores isa memory).units.size =
      config.computeUnits := by simp [Cluster.create]
  have idleListed := UnitSet.lists_full config.computeUnits
  refine ⟨sound, ⟨_, idleListed⟩, ⟨_, UnitSet.lists_empty _⟩, ?_, ?_, ?_, ?_⟩
  · exact (UnitSet.capacity_full _).trans size.symm
  · exact (by simp [UnitSet.empty, UnitSet.capacity] :
      (UnitSet.empty config.computeUnits).capacity = _).trans size.symm
  · intro unit isIdle
    have inside := List.mem_range.mp ((idleListed.member unit).mp isIdle)
    exact ⟨_, (units unit _).mpr ⟨inside, rfl⟩, rfl⟩
  · intro unit isBusy
    exact absurd (((UnitSet.lists_empty _).member unit).mp isBusy) List.not_mem_nil

/-- Groups do not depend on the order of the stages. -/
theorem Sorted.withOrder (sorted : d.Sorted) (order : StageOrder) : (d.withOrder order).Sorted := by
  have units : ∀ unit : Nat, (d.withOrder order).cluster.units[unit]? =
      d.cluster.units[unit]?.map fun u => { u with order } := fun unit => Array.getElem?_map ..
  have size : (d.withOrder order).cluster.units.size = d.cluster.units.size := Array.size_map ..
  refine ⟨fun unit u found => ?_, sorted.idleListed, sorted.busyListed,
    sorted.idleCapacity.trans size.symm, sorted.busyCapacity.trans size.symm,
    fun unit isIdle => ?_, fun unit isBusy => ?_⟩
  · rw [units, Option.map_eq_some_iff] at found
    obtain ⟨v, there, rfl⟩ := found
    exact (sorted.sound unit v there).withOrder order
  · obtain ⟨u, found, free⟩ := sorted.idle unit isIdle
    exact ⟨{ u with order }, by rw [units, found]; rfl, free⟩
  · obtain ⟨u, group, found, held⟩ := sorted.busy unit isBusy
    exact ⟨{ u with order }, group, by rw [units, found]; rfl, held⟩

/-! ## One unit changes -/

/-- One unit has changed, and is listed as it should be. -/
theorem Sorted.of_change (sorted : d.Sorted) {after : Device ι μ π} {v : ComputeUnit}
    (units : ∀ other, after.cluster.units[other]? =
      if other = unit then some v else d.cluster.units[other]?)
    (size : after.cluster.units.size = d.cluster.units.size) (sound : v.Sound)
    (idleListed : ∃ l, after.idle.Lists l) (busyListed : ∃ l, after.busy.Lists l)
    (idleCapacity : after.idle.capacity = d.idle.capacity)
    (busyCapacity : after.busy.capacity = d.busy.capacity)
    (idle : ∀ other, after.idle.contains other = true →
      if other = unit then v.group = none else d.idle.contains other = true)
    (busy : ∀ other, after.busy.contains other = true →
      if other = unit then ∃ group, v.group = some group else d.busy.contains other = true) :
    after.Sorted where
  sound other w found := by
    rw [units] at found
    split at found
    · cases found
      exact sound
    · exact sorted.sound other w found
  idleListed := idleListed
  busyListed := busyListed
  idleCapacity := (idleCapacity.trans sorted.idleCapacity).trans size.symm
  busyCapacity := (busyCapacity.trans sorted.busyCapacity).trans size.symm
  idle other isIdle := by
    have before := idle other isIdle
    rw [units]
    by_cases same : other = unit
    · rw [if_pos same] at before
      exact ⟨v, if_pos same, before⟩
    · rw [if_neg same] at before ⊢
      exact sorted.idle other before
  busy other isBusy := by
    have before := busy other isBusy
    rw [units]
    by_cases same : other = unit
    · rw [if_pos same] at before
      obtain ⟨group, held⟩ := before
      exact ⟨v, group, if_pos same, held⟩
    · rw [if_neg same] at before ⊢
      exact sorted.busy other before

/-- A unit works, and keeps its group. -/
theorem Sorted.settle (sorted : d.Sorted) {group : Nat}
    (resident : d.cluster.units[unit]? = some u) (held : u.group = some group) {bench : Bench ι μ}
    (sound : bench.unit.Sound) (kept : bench.unit.group = some group) (sink : Sink) :
    ({ d with cluster := d.cluster.settle unit bench, sink } : Device ι μ π).Sorted := by
  refine sorted.of_change (v := bench.unit) (Job.getElem?_setUnit resident)
    Array.size_setIfInBounds sound sorted.idleListed sorted.busyListed rfl rfl ?_ ?_
  · intro other isIdle
    split
    next same =>
      have notIdle := sorted.notIdle resident held
      rw [← same, isIdle] at notIdle
      cases notIdle
    next => exact isIdle
  · intro other isBusy
    split
    · exact ⟨group, kept⟩
    · exact isBusy

/-- A unit is taken out of the idle ones. -/
theorem Sorted.reserve (sorted : d.Sorted) (isIdle : d.idle.contains unit = true) :
    ({ d with idle := d.idle.unlink unit } : Device ι μ π).Sorted := by
  obtain ⟨idle, listed⟩ := sorted.idleListed
  have listed' := listed.unlink_erase ((listed.member unit).mp isIdle)
  exact { sorted with
    idleListed := ⟨_, listed'⟩
    idleCapacity := UnitSet.capacity_unlink.trans sorted.idleCapacity
    idle := fun other still => sorted.idle other ((UnitSet.contains_unlink other).mp still).2 }

/-- A unit that has been taken out of the idle ones gets its group. -/
theorem Sorted.load (sorted : d.Sorted) (resident : d.cluster.units[unit]? = some u)
    (free : u.group = none) (notIdle : d.idle.contains unit = false) (group : Nat)
    (wavefronts : List Wavefront) (sink : Sink) :
    ({ d with
      cluster := d.cluster.setUnit unit (u.loaded group wavefronts)
      busy := d.busy.push unit, sink } : Device ι μ π).Sorted := by
  obtain ⟨busy, listed⟩ := sorted.busyListed
  have inside : unit < d.busy.capacity := by
    rw [sorted.busyCapacity]
    exact (Array.getElem?_eq_some_iff.mp resident).1
  have stranger : unit ∉ busy := by
    intro member
    have notBusy := sorted.notBusy resident free
    rw [(listed.member unit).mpr member] at notBusy
    cases notBusy
  have listed' := listed.push inside stranger
  have sound := (sorted.sound unit u resident).assign (u.assign_eq free group wavefronts)
  refine sorted.of_change (v := u.loaded group wavefronts) (Job.getElem?_setUnit resident)
    Array.size_setIfInBounds sound sorted.idleListed ⟨_, listed'⟩ rfl UnitSet.capacity_push ?_ ?_
  · intro other isIdle
    split
    next same =>
      rw [← same, isIdle] at notIdle
      cases notIdle
    next => exact isIdle
  · intro other isBusy
    split
    next => exact ⟨group, rfl⟩
    next differs =>
      have member := (listed'.member other).mp isBusy
      rw [List.mem_append, List.mem_singleton, ← listed.member] at member
      exact member.resolve_right differs

/-- The device once the unit `u`, whose number is `unit`, has given its group back. -/
def freed (d : Device ι μ π) (unit : Nat) (u : ComputeUnit) (group : Nat) : Device ι μ π :=
  { d with
    cluster := d.cluster.setUnit unit u.release.2
    busy := d.busy.remove unit
    idle := d.idle.push unit
    sink := d.sink.record { cycle := d.cycle, unit, group, action := .complete } }

theorem group_release {group : Nat} (held : u.group = some group) (drained : u.isDrained = true) :
    u.release.2.group = none := by
  simp [ComputeUnit.release, held, drained]

theorem Sorted.lists_freed (sorted : d.Sorted) {group : Nat}
    (resident : d.cluster.units[unit]? = some u) (held : u.group = some group)
    (isBusy : d.busy.contains unit = true) :
    (d.freed unit u group).idle.Lists (d.idle.toList ++ [unit]) ∧
      (d.freed unit u group).busy.Lists (d.busy.toList.erase unit) ∧
      unit ∉ d.busy.toList.erase unit := by
  obtain ⟨idle, idleListed⟩ := sorted.idleListed
  obtain ⟨busy, busyListed⟩ := sorted.busyListed
  have inside : unit < d.idle.capacity := by
    rw [sorted.idleCapacity]
    exact (Array.getElem?_eq_some_iff.mp resident).1
  have stranger : unit ∉ idle := by
    intro member
    have notIdle := sorted.notIdle resident held
    rw [(idleListed.member unit).mpr member] at notIdle
    cases notIdle
  rw [idleListed.toList_eq, busyListed.toList_eq]
  refine ⟨idleListed.push inside stranger,
    busyListed.remove ((busyListed.member unit).mp isBusy), fun member => ?_⟩
  exact (busyListed.distinct.mem_erase_iff.mp member).1 rfl

theorem Sorted.freed (sorted : d.Sorted) {group : Nat}
    (resident : d.cluster.units[unit]? = some u) (held : u.group = some group)
    (drained : u.isDrained = true) (isBusy : d.busy.contains unit = true) :
    (d.freed unit u group).Sorted := by
  obtain ⟨idleListed, busyListed, left⟩ := sorted.lists_freed resident held isBusy
  obtain ⟨idle, idleListed'⟩ := sorted.idleListed
  obtain ⟨busy, busyListed'⟩ := sorted.busyListed
  refine sorted.of_change (v := u.release.2) (Job.getElem?_setUnit resident)
    Array.size_setIfInBounds (sorted.sound unit u resident).release ⟨_, idleListed⟩
    ⟨_, busyListed⟩ UnitSet.capacity_push UnitSet.capacity_remove ?_ ?_
  · intro other isIdle
    split
    next => exact group_release held drained
    next differs =>
      have member := (idleListed.member other).mp isIdle
      rw [List.mem_append, List.mem_singleton, idleListed'.toList_eq, ← idleListed'.member] at member
      exact member.resolve_right differs
  · intro other isBusy
    have member := (busyListed.member other).mp isBusy
    split
    next same => exact absurd (same ▸ member) left
    next =>
      rw [busyListed'.toList_eq] at member
      exact (busyListed'.member other).mpr (List.mem_of_mem_erase member)

end Device

namespace Job

variable {ι μ π : Type} {job : Job ι μ π} {unit group : Nat} {u : ComputeUnit}

/-! ## Work for any launch -/

/-- The launch does not take the group for finished, and nothing happens; or it does, and the unit
gives its group back. -/
theorem complete_cases (resident : job.device.cluster.units[unit]? = some u) (group : Nat) :
    (∃ e, job.launch.runningGroup group = .error e ∧
        (complete unit group).outcome job = (.error e, job)) ∨
      ∃ g owner, job.launch.runningGroup group = .ok (g, owner) ∧
        (complete unit group).outcome job =
          (.ok (), { device := job.device.freed unit u group
                     launch := job.launch.finish g owner }) := by
  have unit_eq : job.device.cluster.unit unit = .ok u := by
    rw [Cluster.unit, resident]
    rfl
  rw [complete, Attempt.outcome_get_bind, Attempt.outcome_bind, Attempt.outcome_ofExcept]
  rcases running : job.launch.runningGroup group with e | ⟨g, owner⟩
  · exact .inl ⟨e, rfl, rfl⟩
  · refine .inr ⟨g, owner, rfl, ?_⟩
    simp only [modifyLaunch, modifyDevice, Attempt.outcome_bind, Attempt.outcome_get,
      Attempt.outcome_ofExcept, unit_eq, Attempt.outcome_modify]
    rfl

variable [InstructionModel ι] [MemoryService μ]

/-- A busy unit works for a cycle, and when it is drained the launch is asked about its group. -/
theorem stepUnit_outcome_of_busy (isBusy : job.device.busy.contains unit = true)
    (resident : job.device.cluster.units[unit]? = some u) (sound : u.Sound)
    (held : u.group = some group) :
    let bench := (job.bench u).cycled u.order job.device.cycle group
    (stepUnit unit).outcome job =
      if bench.unit.isDrained then (complete unit group).outcome (job.worked unit bench)
      else (.ok (), job.worked unit bench) := by
  intro bench
  have inside : ¬ job.device.cluster.units.size ≤ unit :=
    Nat.not_le.mpr (Array.getElem?_eq_some_iff.mp resident).1
  have cycle : job.device.cluster.stepUnit job.device.cycle unit =
      .ok (bench.progress group, bench) := cluster_stepUnit resident sound held
  simp only [stepUnit, modifyDevice, Attempt.outcome_bind, Attempt.outcome_get, inside, if_false,
    isBusy, Bool.not_true, Bool.false_eq_true, Attempt.outcome_ofExcept, cycle,
    Attempt.outcome_modify, Bench.progress]
  cases bench.unit.isDrained <;> rfl

omit [InstructionModel ι] [MemoryService μ] in
theorem resident_worked {bench : Bench ι μ}
    (resident : job.device.cluster.units[unit]? = some u) :
    (job.worked unit bench).device.cluster.units[unit]? = some bench.unit :=
  (getElem?_setUnit resident unit).trans (if_pos rfl)

/-! ## What every call keeps -/

open Attempt

/-- The property is about the units, the two sets and the launch, and about nothing else of a job. -/
def AboutWork (P : Job ι μ π → Prop) : Prop :=
  ∀ {job after : Job ι μ π}, after.launch = job.launch →
    after.device.cluster = job.device.cluster → after.device.idle = job.device.idle →
    after.device.busy = job.device.busy → P job → P after

section AboutWork

variable {P : Job ι μ π → Prop}

omit [InstructionModel ι] [MemoryService μ]

theorem AboutWork.keeps_modifyDevice (about : AboutWork P) {change : Device ι μ π → Device ι μ π}
    (cluster : ∀ d, (change d).cluster = d.cluster) (idle : ∀ d, (change d).idle = d.idle)
    (busy : ∀ d, (change d).busy = d.busy) : Keeps P (modifyDevice change) :=
  keeps_modify fun job => about rfl (cluster job.device) (idle job.device) (busy job.device)

theorem AboutWork.keeps_begin (about : AboutWork P) : Keeps P begin := by
  intro job holds
  rcases job.begin_cases with ⟨e, refused⟩ | ⟨goes_on, -⟩ | ⟨begins, -⟩
  · rwa [refused]
  · rwa [goes_on]
  · rw [begins]
    refine about ?_ ?_ ?_ ?_ holds
    all_goals rfl

theorem AboutWork.keeps_flush (about : AboutWork P) : Keeps P flush :=
  about.keeps_modifyDevice (fun _ => rfl) (fun _ => rfl) fun _ => rfl

theorem AboutWork.keeps_suspend (about : AboutWork P) : Keeps P suspend :=
  about.keeps_flush.bind fun _ => keeps_get.bind fun _ => keeps_pure _

theorem AboutWork.keeps_finish (about : AboutWork P) : Keeps P finish := by
  refine Keeps.bind (about.keeps_modifyDevice ?_ ?_ ?_) fun _ =>
    about.keeps_flush.bind fun _ => keeps_get.bind fun _ => keeps_pure _
  all_goals exact fun _ => rfl

/-- What one dispatch keeps is kept by any number of them. -/
theorem keeps_dispatch_of_one [Placement π] (dispatching : Keeps P dispatchOne) :
    Keeps P dispatch := by
  have upTo : ∀ limit, Keeps P (dispatchUpTo limit) := by
    intro limit
    induction limit with
    | zero => exact keeps_pure _
    | succ limit ih =>
        refine keeps_get.bind fun job => Keeps.ite ?_ (keeps_pure _)
        refine dispatching.bind fun more => Keeps.ite ?_ (keeps_pure _)
        exact ih.bind fun count => keeps_pure _
  exact keeps_get.bind fun job => upTo _

end AboutWork

variable {P : Job ι μ π → Prop}

theorem AboutWork.keeps_runWithin [Placement π] (about : AboutWork P)
    (dispatching : Keeps P dispatchOne) (working : ∀ unit, Keeps P (stepUnit unit))
    (budget : Option Nat) : Keeps P (runWithin budget) := by
  have placing : Keeps P place := keeps_get.bind fun _ =>
    Keeps.ite ((keeps_dispatch_of_one dispatching).bind fun _ => keeps_pure ()) (keeps_pure ())
  have advancing : Keeps P (advanceWith stepUnit) := by
    refine Keeps.bind (about.keeps_modifyDevice ?_ ?_ ?_) fun _ =>
      keeps_get.bind fun job => Keeps.forM working _
    all_goals exact fun _ => rfl
  refine about.keeps_begin.bind fun _ => keeps_get.bind fun job => ?_
  rw [drive_eq_driveWith]
  exact keeps_driveWith placing advancing about.keeps_finish about.keeps_suspend _ _

/-- A call changes the units, the two sets and the launch by dispatching groups and by letting units
work, and what these keep is kept by the call. -/
theorem AboutWork.keeps_perform [Placement π] (about : AboutWork P)
    (dispatching : Keeps P dispatchOne) (working : ∀ unit, Keeps P (stepUnit unit))
    (call : Call) : Keeps P call.perform := by
  have running := about.keeps_runWithin dispatching working
  cases call with
  | run => exact ((running none).bind fun _ => keeps_pure _).bind fun _ => keeps_pure ()
  | runFor cycles => exact (running (some cycles)).bind fun _ => keeps_pure ()
  | dispatch => exact (keeps_dispatch_of_one dispatching).bind fun _ => keeps_pure ()
  | stepUnit unit => exact working unit

/-! ## Every call keeps idle and busy units apart -/

theorem keeps_sorted_stepUnit (unit : Nat) :
    Keeps (fun job : Job ι μ π => job.device.Sorted) (stepUnit unit) := by
  intro job sorted
  cases isBusy : job.device.busy.contains unit with
  | false =>
      rw [stepUnit_outcome_of_idle isBusy]
      exact sorted
  | true =>
      obtain ⟨u, group, resident, held⟩ := sorted.busy unit isBusy
      have sound := sorted.sound unit u resident
      let bench := (job.bench u).cycled u.order job.device.cycle group
      have kept : bench.unit.group = some group := (Bench.cycled_group ..).trans held
      have worked : (job.worked unit bench).device.Sorted :=
        sorted.settle resident held (Bench.sound_cycled _ _ _ sound) kept _
      rw [stepUnit_outcome_of_busy isBusy resident sound held]
      split
      next drained =>
        have resident' : (job.worked unit bench).device.cluster.units[unit]? = some bench.unit :=
          resident_worked resident
        rcases complete_cases resident' group with ⟨e, -, refused⟩ | ⟨g, owner, -, done⟩
        · rw [refused]
          exact worked
        · rw [done]
          exact worked.freed resident' kept drained isBusy
      next => exact worked

omit [InstructionModel ι] [MemoryService μ] in
theorem keeps_sorted_dispatchOne [Placement π] :
    Keeps (fun job : Job ι μ π => job.device.Sorted) dispatchOne := by
  intro job sorted
  rw [dispatchOne, outcome_bind_of_ok (pickUnit_outcome job)]
  let chosen : Job ι μ π := { job with device := { job.device with
    placement := (Placement.pick job.device.placement job.device.idle).2 } }
  rcases (Placement.pick job.device.placement job.device.idle).1 with _ | unit
  · exact sorted.congr rfl rfl rfl
  cases isIdle : chosen.device.idle.contains unit with
  | false =>
      dsimp only
      rw [outcome_bind_of_error (reserveUnit_outcome_of_stranger isIdle)]
      exact sorted.congr rfl rfl rfl
  | true =>
      obtain ⟨u, resident, free⟩ := sorted.idle unit isIdle
      let reserved : Job ι μ π := { chosen with device := { chosen.device with
        idle := chosen.device.idle.unlink unit } }
      have unchosen : chosen.device.Sorted := sorted.congr rfl rfl rfl
      have reserving : reserved.device.Sorted := unchosen.reserve isIdle
      have notIdle : reserved.device.idle.contains unit = false :=
        eq_false_of_ne_true fun still => ((UnitSet.contains_unlink unit).mp still).1 rfl
      have reserve : (reserveUnit unit).outcome chosen = (.ok (), reserved) :=
        reserveUnit_outcome isIdle
      obtain ⟨answer, launch, queued⟩ := reserveGroup_cases reserved unit
      dsimp only
      rw [outcome_bind_of_ok reserve]
      rcases answer with e | group
      · rw [outcome_bind_of_error queued]
        exact reserving
      · have resident' : ({ reserved with launch } : Job ι μ π).device.cluster.units[unit]? =
          some u := resident
        rw [outcome_bind_of_ok queued]
        rcases assignGroup_cases resident' free group with ⟨e, refused⟩ | ⟨wavefronts, loaded⟩
        · rw [outcome_bind_of_error refused]
          exact reserving
        · rw [outcome_bind_of_ok loaded]
          exact reserving.load resident free notIdle group wavefronts _

/-! ## What a device does to a launch -/

variable {origin : NdRange}

omit [InstructionModel ι] [MemoryService μ] in
theorem keeps_becomes_modifyDevice (change : Device ι μ π → Device ι μ π) :
    Keeps (fun job : Job ι μ π => origin.Becomes job.launch) (modifyDevice change) :=
  keeps_modify fun _ becomes => becomes

omit [InstructionModel ι] [MemoryService μ] in
/-- A dispatch takes a group off the queue and starts it. -/
theorem keeps_becomes_dispatchOne [Placement π] :
    Keeps (fun job : Job ι μ π => origin.Becomes job.launch) dispatchOne := by
  have pick : Keeps (fun job : Job ι μ π => origin.Becomes job.launch) pickUnit :=
    keeps_get.bind fun job => (keeps_becomes_modifyDevice _).bind fun _ => keeps_pure _
  refine pick.bind fun picked => ?_
  rcases picked with _ | unit
  · exact keeps_pure _
  have reserve : Keeps (fun job : Job ι μ π => origin.Becomes job.launch) (reserveUnit unit) :=
    keeps_get.bind fun job => Keeps.ite (keeps_becomes_modifyDevice _) (keeps_throw _)
  have queue : Keeps (fun job : Job ι μ π => origin.Becomes job.launch) (reserveGroup unit) := by
    intro job becomes
    rw [reserveGroup, outcome_get_bind, outcome_bind, outcome_ofExcept]
    rcases taking : job.launch.takeNextPending with e | ⟨group, launch⟩
    · exact becomes
    · have taken := becomes.perform .take
      rw [NdRange.perform_of_taken taking] at taken
      dsimp only
      rw [modifyLaunch, outcome_bind, outcome_modify]
      dsimp only
      rw [outcome_get_bind, outcome_bind, outcome_ofExcept]
      dsimp only
      rcases waiting : launch.waitingGroup group with e | g
      · exact taken
      · have started := taken.perform (.start group unit)
        rwa [NdRange.perform_of_waiting waiting] at started
  have assign : ∀ group,
      Keeps (fun job : Job ι μ π => origin.Becomes job.launch) (assignGroup unit group) := by
    intro group
    refine keeps_get.bind fun job => (keeps_ofExcept _).bind fun wavefronts => ?_
    refine (keeps_ofExcept _).bind fun resting => (keeps_ofExcept _).bind fun assigned => ?_
    exact keeps_becomes_modifyDevice _
  exact reserve.bind fun _ => queue.bind fun group => (assign group).bind fun _ => keeps_pure _

/-- A cycle of a unit finishes a group or none. -/
theorem keeps_becomes_stepUnit (unit : Nat) :
    Keeps (fun job : Job ι μ π => origin.Becomes job.launch) (stepUnit unit) := by
  have completing : ∀ group,
      Keeps (fun job : Job ι μ π => origin.Becomes job.launch) (complete unit group) := by
    intro group job becomes
    rw [complete, outcome_get_bind, outcome_bind, outcome_ofExcept]
    rcases running : job.launch.runningGroup group with e | ⟨g, owner⟩
    · exact becomes
    · have finished := becomes.perform (.finish group)
      rw [NdRange.perform_of_running running] at finished
      dsimp only
      rw [modifyLaunch, outcome_bind, outcome_modify]
      exact (keeps_get.bind fun job => (keeps_ofExcept _).bind fun u =>
        keeps_becomes_modifyDevice _) _ finished
  have refusing : ∀ (e : Error) (next : Unit → Attempt (Job ι μ π) Unit),
      Keeps (fun job : Job ι μ π => origin.Becomes job.launch) (throw e >>= next) :=
    fun _ _ _ becomes => becomes
  refine keeps_get.bind fun job => Keeps.ite (refusing _ _) (Keeps.ite (refusing _ _) ?_)
  refine (keeps_ofExcept _).bind fun worked => (keeps_becomes_modifyDevice _).bind fun _ => ?_
  rcases worked.1 with _ | group
  · exact keeps_pure ()
  · exact completing group

/-- Whatever a device does with a launch are calls to that launch. -/
theorem keeps_becomes_perform [Placement π] (call : Call) :
    Keeps (fun job : Job ι μ π => origin.Becomes job.launch) call.perform := by
  have about : AboutWork fun job : Job ι μ π => origin.Becomes job.launch := by
    intro job after launch _ _ _ becomes
    rwa [launch]
  exact about.keeps_perform keeps_becomes_dispatchOne keeps_becomes_stepUnit call

end Job

/-- A launch that has been made, and since then has been called by its owner or brought to devices,
in whatever state they were. -/
inductive NdRange.Reached : NdRange → Prop
  | create {launch id : Nat} {kernelName : String} {globalSize localSize : Dim3}
      {wavefrontSize : Nat} {nd : NdRange}
      (made : NdRange.create launch id kernelName globalSize localSize wavefrontSize = .ok nd) :
    Reached nd
  | perform {nd : NdRange} (reached : Reached nd) (call : NdRange.Call) :
    Reached (nd.perform call).2
  | work {ι μ π : Type} [InstructionModel ι] [MemoryService μ] [Placement π] {nd : NdRange}
      (reached : Reached nd) (d : Device ι μ π) (call : Job.Call) :
    Reached (call.perform.outcome { device := d, launch := nd }).2.launch

/-- It is what some calls have made of a new one, whose books they have kept. -/
theorem NdRange.Reached.books {nd : NdRange} (reached : nd.Reached) : ∃ taken, nd.Books taken := by
  have called : ∃ origin : NdRange, origin.Books 0 ∧ origin.Becomes nd := by
    induction reached with
    | create made =>
        obtain ⟨-, -, -, -, -, -, rfl⟩ := create_eq_ok made
        exact ⟨_, books_cut .., .refl _⟩
    | perform _ call ih =>
        obtain ⟨origin, books, becomes⟩ := ih
        exact ⟨origin, books, becomes.perform call⟩
    | work _ d call ih =>
        obtain ⟨origin, books, becomes⟩ := ih
        exact ⟨origin, books, Job.keeps_becomes_perform call _ becomes⟩
  obtain ⟨origin, books, calls, rfl⟩ := called
  exact ⟨_, books.kept_session calls⟩

namespace Device

variable {ι μ π : Type} [InstructionModel ι] [MemoryService μ] [Placement π] {d : Device ι μ π}

theorem Sorted.afterCall (sorted : d.Sorted) (call : Call ι μ π) : (d.afterCall call).Sorted := by
  cases call with
  | work call launch =>
      have about : Job.AboutWork fun job : Job ι μ π => job.device.Sorted :=
        fun _ cluster idle busy sorted => sorted.congr (congrArg Cluster.units cluster) idle busy
      exact about.keeps_perform Job.keeps_sorted_dispatchOne Job.keeps_sorted_stepUnit call
        { device := d, launch } sorted
  | withIsa | withMemory | withPlacement | withSink => exact sorted.congr rfl rfl rfl
  | withOrder order => exact sorted.withOrder order

/-- Whatever is done with a device, idle and busy units stay apart. -/
theorem Sorted.afterCalls (sorted : d.Sorted) (calls : List (Call ι μ π)) :
    (d.afterCalls calls).Sorted := by
  induction calls generalizing d with
  | nil => exact sorted
  | cons call rest ih => exact ih (sorted.afterCall call)

end Device

end Accelerator
