import Accelerator.Proofs.Device.Ownership

/-!
# New jobs

A job is new when its device has never worked and nobody has worked on its launch. Every valid
configuration gives such a device, and its units, sets and launch agree that nobody runs anything.
-/

namespace Accelerator

/-! ## A new job -/

/-- What a valid configuration promises. -/
theorem DeviceConfig.validate_eq_ok {config : DeviceConfig} (valid : config.validate = .ok ()) :
    0 < config.computeUnits ∧ 0 < config.streamCores ∧ 0 < config.wavefrontSize ∧
      config.wavefrontSize % config.streamCores = 0 ∧ 0 < config.maxGroupSize := by
  unfold validate at valid
  repeat' split at valid
  all_goals first | omega | cases valid

/-- The lanes of a valid configuration can be counted with a word. -/
theorem DeviceConfig.streamCores_lt {config : DeviceConfig} (valid : config.validate = .ok ())
    (small : config.wavefrontSize < countBound) : config.streamCores < countBound := by
  obtain ⟨-, -, positive, whole, -⟩ := validate_eq_ok valid
  exact Nat.lt_of_le_of_lt (Nat.le_of_dvd positive (Nat.dvd_of_mod_eq_zero whole)) small

/-- The lanes of a valid configuration are a divisor that 32 bits can hold. -/
theorem DeviceConfig.laneWord_ne_zero {config : DeviceConfig} (valid : config.validate = .ok ())
    (small : config.wavefrontSize < countBound) : laneWord (max config.streamCores 1) ≠ 0 := by
  obtain ⟨-, lanes, -⟩ := validate_eq_ok valid
  rw [laneWord, Nat.max_eq_left lanes, Nat.mod_eq_of_lt (streamCores_lt valid small)]
  exact Nat.ne_of_gt lanes

namespace Device

variable {ι μ π : Type} {id : Nat} {config : DeviceConfig} {isa : ι} {memory : μ} {placement : π}
  {device : Device ι μ π}

theorem build_eq_ok (built : Device.build id config isa memory placement = .ok device) :
    config.validate = .ok () ∧ device = {
      id, config, placement
      cluster := .create id config.computeUnits config.streamCores isa memory
      idle := .full config.computeUnits
      busy := .empty config.computeUnits } := by
  unfold build at built
  rcases valid : config.validate with e | _
  · rw [valid] at built
    cases built
  · rw [valid] at built
    cases built
    exact ⟨rfl, rfl⟩

/-- The units of a new device are numbered and have never worked. -/
theorem getElem?_of_build (built : build id config isa memory placement = .ok device)
    (order : StageOrder) (unit : Nat) (u : ComputeUnit) :
    (device.withOrder order).cluster.units[unit]? = some u ↔
      unit < config.computeUnits ∧
        { ComputeUnit.create unit id config.streamCores with order } = u := by
  obtain ⟨-, rfl⟩ := build_eq_ok built
  simp only [withOrder, Cluster.setOrder, Cluster.create, Array.getElem?_map,
    List.getElem?_toArray, List.getElem?_map, Option.map_eq_some_iff]
  constructor
  · intro given
    rcases given with ⟨created, ⟨number, here, rfl⟩, rfl⟩
    obtain ⟨bound, rfl⟩ := List.getElem?_eq_some_iff.mp here
    rw [List.length_range] at bound
    simp [bound]
  · intro given
    rcases given with ⟨bound, rfl⟩
    exact ⟨_, ⟨unit, List.getElem?_range bound, rfl⟩, rfl⟩

theorem sound_of_build (built : build id config isa memory placement = .ok device)
    (small : config.wavefrontSize < countBound) (order : StageOrder) {unit : Nat} {u : ComputeUnit}
    (found : (device.withOrder order).cluster.units[unit]? = some u) : u.Sound := by
  obtain ⟨-, rfl⟩ := (getElem?_of_build built order unit u).mp found
  obtain ⟨valid, -⟩ := build_eq_ok built
  exact (ComputeUnit.Sound.create (DeviceConfig.laneWord_ne_zero valid small)).withOrder order

end Device

namespace Job

variable {ι μ π : Type} [Placement π]

/-- Ownership has nothing to do with the parts of a device that do not record it. -/
theorem Owned.congr {job : Job ι μ π} (owned : job.Owned) {device : Device ι μ π}
    (units : device.cluster.units = job.device.cluster.units) (idle : device.idle = job.device.idle)
    (busy : device.busy = job.device.busy) (placement : device.placement = job.device.placement) :
    ({ job with device } : Job ι μ π).Owned where
  sound := by simpa only [units] using owned.sound
  numbered := by simpa only [units] using owned.numbered
  launch := owned.launch
  placement := by simpa only [placement] using owned.placement
  idleListed := by simpa only [idle] using owned.idleListed
  busyListed := by simpa only [busy] using owned.busyListed
  idleCapacity := by simpa only [idle, units] using owned.idleCapacity
  busyCapacity := by simpa only [busy, units] using owned.busyCapacity
  idle := by simpa only [idle, Rests, units] using owned.idle
  busy := by simpa only [busy, Holds, units] using owned.busy
  owners := by simpa only [Holds, Runs, units] using owned.owners
  counted := by simpa only [busy] using owned.counted

/-- A new device, whose units work in some order and which reports to some sink, and a launch. -/
def fresh (device : Device ι μ π) (order : StageOrder) (sink : Sink) (launch : NdRange) :
    Job ι μ π where
  device := (device.withOrder order).withSink sink
  launch

/-- A device that has never worked owns no group of a launch that nobody has worked on. -/
theorem Owned.fresh {id : Nat} {config : DeviceConfig} {isa : ι} {memory : μ} {placement : π}
    {device : Device ι μ π} (built : Device.build id config isa memory placement = .ok device)
    (small : config.wavefrontSize < countBound) (reliable : Placement.Reliable placement)
    {launch number : Nat} {kernelName : String} {globalSize localSize : Dim3}
    {wavefrontSize : Nat} {nd : NdRange}
    (made : NdRange.create launch number kernelName globalSize localSize wavefrontSize = .ok nd)
    (order : StageOrder) (sink : Sink) : (Job.fresh device order sink nd).Owned := by
  have sound : ∀ (unit : Nat) (u : ComputeUnit),
      (device.withOrder order).cluster.units[unit]? = some u → u.Sound :=
    fun _ _ => Device.sound_of_build built small order
  have units := Device.getElem?_of_build built order
  obtain ⟨valid, rfl⟩ := Device.build_eq_ok built
  obtain ⟨-, -, itemCount, groupSize, -, -, rfl⟩ := NdRange.create_eq_ok made
  let job := Job.fresh ({
      id, config, placement
      cluster := .create id config.computeUnits config.streamCores isa memory
      idle := .full config.computeUnits
      busy := .empty config.computeUnits } : Device ι μ π) order sink
    (.cut launch number kernelName globalSize localSize wavefrontSize (itemCount / groupSize)
      groupSize)
  have size : job.device.cluster.units.size = config.computeUnits := by
    simp [job, Job.fresh, Device.withOrder, Device.withSink, Cluster.setOrder, Cluster.create]
  have idleListed := UnitSet.lists_full config.computeUnits
  have busyListed := UnitSet.lists_empty config.computeUnits
  have holdsNone : ∀ unit group, ¬ job.Holds unit group := by
    intro unit group given
    rcases given with ⟨u, found, held⟩
    obtain ⟨-, rfl⟩ := (units unit u).mp found
    cases held
  have runsNone : ∀ unit group, ¬ job.Runs unit group := by
    intro unit group given
    rcases given with ⟨g, found, runs⟩
    obtain ⟨-, rfl⟩ := NdRange.getElem?_groups_cut found
    cases runs
  exact {
    sound
    numbered := fun unit u found => by
      obtain ⟨-, rfl⟩ := (units unit u).mp found
      rfl
    launch := NdRange.consistent_cut
    placement := reliable
    idleListed := ⟨_, idleListed⟩
    busyListed := ⟨_, busyListed⟩
    idleCapacity := (UnitSet.capacity_full _).trans size.symm
    busyCapacity := (by simp [UnitSet.empty, UnitSet.capacity] :
      (UnitSet.empty config.computeUnits).capacity = _).trans size.symm
    idle := fun unit => by
      refine (idleListed.member unit).trans ?_
      rw [List.mem_range]
      constructor
      · exact fun bound => ⟨_, (units unit _).mpr ⟨bound, rfl⟩, rfl⟩
      · intro given
        rcases given with ⟨u, found, -⟩
        exact ((units unit u).mp found).1
    busy := fun unit => by
      refine (busyListed.member unit).trans ?_
      constructor
      · exact fun member => absurd member List.not_mem_nil
      · intro given
        rcases given with ⟨group, holds⟩
        exact absurd holds (holdsNone unit group)
    owners := fun unit group =>
      ⟨fun holds => absurd holds (holdsNone unit group),
        fun runs => absurd runs (runsNone unit group)⟩
    counted := by
      simp [Job.fresh, NdRange.cut, NdRange.groupCount, Device.withOrder, Device.withSink,
        UnitSet.empty] }

end Job

end Accelerator
