import Accelerator.Device.Diagnostics
import Accelerator.Proofs.Device.Transitions
import Accelerator.Proofs.Placement

/-!
# Who owns a work-group

That a unit runs a work-group is recorded four times: in the sets of idle and of busy units, in
the unit, and in the launch. `Job.Owned` says that the four agree. Every transition of a device
keeps them in agreement, so that nothing that is done to a job can ever be refused half-way.
-/

namespace Accelerator

namespace Job

variable {ι μ π : Type}

/-- The unit of a number holds a work-group. -/
def Holds (job : Job ι μ π) (unit group : Nat) : Prop :=
  ∃ u, job.device.cluster.units[unit]? = some u ∧ u.group = some group

/-- The unit of a number holds no work-group. -/
def Rests (job : Job ι μ π) (unit : Nat) : Prop :=
  ∃ u, job.device.cluster.units[unit]? = some u ∧ u.group = none

/-- The launch remembers that a work-group runs on a unit. -/
def Runs (job : Job ι μ π) (unit group : Nat) : Prop :=
  ∃ g, job.launch.groups[group]? = some g ∧ g.phase = .running unit

/-- Units, sets of units and launch agree. -/
structure Owned [Placement π] (job : Job ι μ π) : Prop where
  sound : ∀ (unit : Nat) (u : ComputeUnit), job.device.cluster.units[unit]? = some u → u.Sound
  numbered : ∀ (unit : Nat) (u : ComputeUnit), job.device.cluster.units[unit]? = some u →
    u.id = unit
  launch : job.launch.Consistent
  placement : Placement.Reliable job.device.placement
  idleListed : ∃ l, job.device.idle.Lists l
  busyListed : ∃ l, job.device.busy.Lists l
  idleCapacity : job.device.idle.capacity = job.device.cluster.units.size
  busyCapacity : job.device.busy.capacity = job.device.cluster.units.size
  idle : ∀ unit, job.device.idle.contains unit = true ↔ job.Rests unit
  busy : ∀ unit, job.device.busy.contains unit = true ↔ ∃ group, job.Holds unit group
  owners : ∀ unit group, job.Holds unit group ↔ job.Runs unit group
  /-- Every group is waiting, held by a unit, or done. -/
  counted : job.launch.pending.length + job.device.busy.size + job.launch.doneCount =
    job.launch.groupCount

variable {job : Job ι μ π} {unit : Nat} {u : ComputeUnit} {g : WorkGroup}

theorem Holds.group_eq {group other : Nat} (first : job.Holds unit group)
    (second : job.Holds unit other) : group = other := by
  obtain ⟨u, found, held⟩ := first
  obtain ⟨v, found', held'⟩ := second
  cases found.symm.trans found'
  exact Option.some.inj (held.symm.trans held')

theorem Runs.unit_eq {group other : Nat} (first : job.Runs unit group)
    (second : job.Runs other group) : unit = other := by
  obtain ⟨g, found, runs⟩ := first
  obtain ⟨h, found', runs'⟩ := second
  cases found.symm.trans found'
  exact Phase.running.inj (runs.symm.trans runs')

theorem Rests.not_holds {group : Nat} (rests : job.Rests unit) : ¬ job.Holds unit group := by
  intro given
  rcases given with ⟨v, found, held⟩
  obtain ⟨u, resident, free⟩ := rests
  cases resident.symm.trans found
  cases free.symm.trans held

/-- A unit without a group is listed among the idle ones only. -/
theorem Owned.lists_of_rests [Placement π] (owned : job.Owned) (rests : job.Rests unit) :
    ∃ idle busy, job.device.idle.Lists idle ∧ job.device.busy.Lists busy ∧ unit ∈ idle ∧
      unit ∉ busy ∧ unit < job.device.busy.capacity := by
  obtain ⟨idle, idleListed⟩ := owned.idleListed
  obtain ⟨busy, busyListed⟩ := owned.busyListed
  refine ⟨idle, busy, idleListed, busyListed, ?_, fun member => ?_, ?_⟩
  · exact (idleListed.member unit).mp ((owned.idle unit).mpr rests)
  · obtain ⟨group, holds⟩ := (owned.busy unit).mp ((busyListed.member unit).mpr member)
    exact rests.not_holds holds
  · obtain ⟨u, resident, -⟩ := rests
    rw [owned.busyCapacity]
    exact (Array.getElem?_eq_some_iff.mp resident).1

/-- A unit with a group is listed among the busy ones only. -/
theorem Owned.lists_of_holds [Placement π] {group : Nat} (owned : job.Owned)
    (holds : job.Holds unit group) :
    ∃ idle busy, job.device.idle.Lists idle ∧ job.device.busy.Lists busy ∧ unit ∈ busy ∧
      unit ∉ idle ∧ unit < job.device.idle.capacity := by
  obtain ⟨idle, idleListed⟩ := owned.idleListed
  obtain ⟨busy, busyListed⟩ := owned.busyListed
  refine ⟨idle, busy, idleListed, busyListed, ?_, fun member => ?_, ?_⟩
  · exact (busyListed.member unit).mp ((owned.busy unit).mpr ⟨group, holds⟩)
  · have rests := (owned.idle unit).mp ((idleListed.member unit).mpr member)
    exact rests.not_holds holds
  · obtain ⟨u, resident, -⟩ := holds
    rw [owned.idleCapacity]
    exact (Array.getElem?_eq_some_iff.mp resident).1

/-! ## One group changes -/

theorem runs_handed {placement : π} {rest : List Nat} {wavefronts : List Wavefront}
    (found : job.launch.groups[g.id]? = some g) (other group : Nat) :
    (job.handed placement unit u g rest wavefronts).Runs other group ↔
      if group = g.id then other = unit else job.Runs other group := by
  unfold Runs Job.handed
  rw [NdRange.getElem?_start found]
  by_cases same : group = g.id
  · simp [same, eq_comm]
  · simp [same]

theorem runs_relieved (found : job.launch.groups[g.id]? = some g) (other group : Nat) :
    (job.relieved unit u g).Runs other group ↔ group ≠ g.id ∧ job.Runs other group := by
  unfold Runs Job.relieved
  rw [NdRange.getElem?_finish found]
  by_cases same : group = g.id
  · simp [same]
  · simp [same]

/-! ## One unit changes -/

theorem getElem?_setUnit {c : Cluster ι μ} {v : ComputeUnit} (found : c.units[unit]? = some u)
    (other : Nat) :
    (c.setUnit unit v).units[other]? = if other = unit then some v else c.units[other]? := by
  have bound := (Array.getElem?_eq_some_iff.mp found).1
  rw [Cluster.setUnit, Array.getElem?_setIfInBounds]
  by_cases same : unit = other
  · subst same
    simp [bound]
  · simp [same, Ne.symm same]

section Change

variable {after : Job ι μ π} {v : ComputeUnit}
  (units : ∀ other, after.device.cluster.units[other]? =
    if other = unit then some v else job.device.cluster.units[other]?)

include units

/-- What holds of all units, and of the changed one, holds of all units after the change. -/
theorem forall_units {P : Nat → ComputeUnit → Prop} (changed : P unit v)
    (others : ∀ other w, job.device.cluster.units[other]? = some w → P other w) :
    ∀ other w, after.device.cluster.units[other]? = some w → P other w := by
  intro other w found
  rw [units] at found
  by_cases same : other = unit
  · rw [if_pos same] at found
    cases found
    exact same ▸ changed
  · rw [if_neg same] at found
    exact others other w found

theorem holds_iff (other group : Nat) :
    after.Holds other group ↔
      if other = unit then v.group = some group else job.Holds other group := by
  unfold Holds
  rw [units]
  by_cases same : other = unit <;> simp [same]

theorem rests_iff (other : Nat) :
    after.Rests other ↔ if other = unit then v.group = none else job.Rests other := by
  unfold Rests
  rw [units]
  by_cases same : other = unit <;> simp [same]

end Change

/-! ## The transitions keep it so -/

/-- What a unit does in a cycle leaves everything else about ownership alone. -/
theorem Owned.worked [Placement π] (owned : job.Owned) {bench : Bench ι μ}
    (resident : job.device.cluster.units[unit]? = some u) (sound : bench.unit.Sound)
    (id : bench.unit.id = u.id) (group : bench.unit.group = u.group) :
    (job.worked unit bench).Owned := by
  have units : ∀ other, (job.worked unit bench).device.cluster.units[other]? =
      if other = unit then some bench.unit else job.device.cluster.units[other]? :=
    getElem?_setUnit resident
  have holds : ∀ other held, (job.worked unit bench).Holds other held ↔ job.Holds other held := by
    intro other held
    rw [holds_iff units]
    by_cases same : other = unit
    · simp [same, Holds, resident, group]
    · rw [if_neg same]
  have rests : ∀ other, (job.worked unit bench).Rests other ↔ job.Rests other := by
    intro other
    rw [rests_iff units]
    by_cases same : other = unit
    · simp [same, Rests, resident, group]
    · rw [if_neg same]
  have size : (job.worked unit bench).device.cluster.units.size = job.device.cluster.units.size :=
    Array.size_setIfInBounds
  exact {
    sound := forall_units units sound owned.sound
    numbered := forall_units units (id.trans (owned.numbered unit u resident)) owned.numbered
    launch := owned.launch
    placement := owned.placement
    idleListed := owned.idleListed
    busyListed := owned.busyListed
    idleCapacity := owned.idleCapacity.trans size.symm
    busyCapacity := owned.busyCapacity.trans size.symm
    idle := fun other => (owned.idle other).trans (rests other).symm
    busy := fun other => (owned.busy other).trans (exists_congr fun held => (holds other held).symm)
    owners := fun other held => (holds other held).trans (owned.owners other held)
    counted := owned.counted }

/-- Only waiting groups are handed out, and only to idle units. -/
theorem Owned.handed [Placement π] (owned : job.Owned) {placement : π} {rest : List Nat}
    {wavefronts : List Wavefront} (reliable : Placement.Reliable placement)
    (pending : job.launch.pending = g.id :: rest) (found : job.launch.groups[g.id]? = some g)
    (waits : g.phase = .pending) (resident : job.device.cluster.units[unit]? = some u)
    (free : u.group = none) : (job.handed placement unit u g rest wavefronts).Owned := by
  have units : ∀ other,
      (job.handed placement unit u g rest wavefronts).device.cluster.units[other]? =
      if other = unit then some (u.loaded g.id wavefronts) else job.device.cluster.units[other]? :=
    getElem?_setUnit resident
  have size : (job.handed placement unit u g rest wavefronts).device.cluster.units.size =
      job.device.cluster.units.size := Array.size_setIfInBounds
  have loaded : (u.loaded g.id wavefronts).Sound :=
    (owned.sound unit u resident).assign (u.assign_eq free g.id wavefronts)
  have rests : job.Rests unit := ⟨u, resident, free⟩
  have runsNowhere : ∀ other, ¬ job.Runs other g.id := by
    intro other given
    rcases given with ⟨h, found', runs⟩
    cases found.symm.trans found'
    cases waits.symm.trans runs
  obtain ⟨idle, busy, idleListed, busyListed, isIdle, notBusy, inside⟩ :=
    owned.lists_of_rests rests
  have idleListed' : (job.device.idle.unlink unit).Lists (idle.erase unit) :=
    idleListed.unlink_erase isIdle
  have busyListed' : (job.device.busy.push unit).Lists (busy ++ [unit]) :=
    busyListed.push inside notBusy
  refine {
    sound := forall_units units loaded owned.sound
    numbered := forall_units units (owned.numbered unit u resident) owned.numbered
    launch := owned.launch.start pending found
    placement := reliable
    idleListed := ⟨_, idleListed'⟩
    busyListed := ⟨_, busyListed'⟩
    idleCapacity := (UnitSet.capacity_unlink.trans owned.idleCapacity).trans size.symm
    busyCapacity := (UnitSet.capacity_push.trans owned.busyCapacity).trans size.symm
    idle := fun other => ?_, busy := fun other => ?_, owners := fun other held => ?_
    counted := ?_ }
  · refine (idleListed'.member other).trans ?_
    rw [rests_iff units, idleListed.distinct.mem_erase_iff, ← idleListed.member, owned.idle]
    by_cases same : other = unit
    · simp [same, ComputeUnit.loaded]
    · simp [same]
  · refine (busyListed'.member other).trans ?_
    rw [List.mem_append, List.mem_singleton, ← busyListed.member, owned.busy]
    simp only [holds_iff units]
    by_cases same : other = unit
    · simp [same, ComputeUnit.loaded]
    · simp [same]
  · rw [holds_iff units, runs_handed found, owned.owners]
    by_cases same : other = unit <;> by_cases here : held = g.id
    · simp [same, here, ComputeUnit.loaded]
    · have elsewhere : ¬ job.Runs unit held := fun runs =>
        rests.not_holds ((owned.owners unit held).mpr runs)
      simp [same, here, ComputeUnit.loaded, elsewhere, Ne.symm here]
    · simp [same, here, runsNowhere]
    · simp [same, here]
  · -- The group leaves the queue, and its unit comes to the busy ones.
    have counted := owned.counted
    have started : (job.handed placement unit u g rest wavefronts).launch.groupCount =
        job.launch.groupCount := (NdRange.sameShape_start found).groupCount
    rw [started, ← counted, pending, busyListed.size]
    have busySize : (job.handed placement unit u g rest wavefronts).device.busy.size =
        busy.length + 1 := by
      have size : (job.device.busy.push unit).size = (busy ++ [unit]).length := busyListed'.size
      rwa [List.length_append] at size
    rw [busySize]
    show rest.length + (busy.length + 1) + job.launch.doneCount = _
    rw [List.length_cons]
    omega

/-- A unit that has finished its group becomes idle, and the group is done. -/
theorem Owned.relieved [Placement π] (owned : job.Owned)
    (found : job.launch.groups[g.id]? = some g) (isRunning : g.phase = .running unit)
    (resident : job.device.cluster.units[unit]? = some u) (held : u.group = some g.id)
    (drained : u.isDrained = true) : (job.relieved unit u g).Owned := by
  have units : ∀ other, (job.relieved unit u g).device.cluster.units[other]? =
      if other = unit then some u.release.2 else job.device.cluster.units[other]? :=
    getElem?_setUnit resident
  have size : (job.relieved unit u g).device.cluster.units.size = job.device.cluster.units.size :=
    Array.size_setIfInBounds
  have released : u.release.2.group = none := by
    simp [ComputeUnit.release, held, drained]
  have id : u.release.2.id = u.id := by
    simp [ComputeUnit.release, held, drained, ComputeUnit.idleLanes]
  have holds : job.Holds unit g.id := ⟨u, resident, held⟩
  obtain ⟨idle, busy, idleListed, busyListed, isBusy, notIdle, inside⟩ :=
    owned.lists_of_holds holds
  have idleListed' : (job.device.idle.push unit).Lists (idle ++ [unit]) :=
    idleListed.push inside notIdle
  have busyListed' : (job.device.busy.remove unit).Lists (busy.erase unit) :=
    busyListed.remove isBusy
  refine {
    sound := forall_units units (owned.sound unit u resident).release owned.sound
    numbered := forall_units units (id.trans (owned.numbered unit u resident)) owned.numbered
    launch := owned.launch.finish found (by simp [isRunning])
    placement := owned.placement
    idleListed := ⟨_, idleListed'⟩
    busyListed := ⟨_, busyListed'⟩
    idleCapacity := (UnitSet.capacity_push.trans owned.idleCapacity).trans size.symm
    busyCapacity := (UnitSet.capacity_remove.trans owned.busyCapacity).trans size.symm
    idle := fun other => ?_, busy := fun other => ?_, owners := fun other group => ?_
    counted := ?_ }
  · refine (idleListed'.member other).trans ?_
    rw [rests_iff units, List.mem_append, List.mem_singleton, ← idleListed.member, owned.idle]
    by_cases same : other = unit
    · simp [same, released]
    · simp [same]
  · refine (busyListed'.member other).trans ?_
    rw [busyListed.distinct.mem_erase_iff, ← busyListed.member, owned.busy]
    simp only [holds_iff units]
    by_cases same : other = unit
    · simp [same, released]
    · simp [same]
  · rw [holds_iff units, runs_relieved found]
    by_cases same : other = unit
    · subst same
      have only : job.Runs other group → group = g.id := fun runs =>
        ((owned.owners other group).mpr runs).group_eq holds
      rw [if_pos rfl, released]
      constructor
      · intro holds
        cases holds
      · intro given
        rcases given with ⟨differs, here⟩
        exact absurd (only here) differs
    · have differs : job.Holds other group → group ≠ g.id := by
        rintro other_holds rfl
        exact same (((owned.owners other _).mp other_holds).unit_eq
          ((owned.owners unit _).mp holds))
      rw [if_neg same, ← owned.owners]
      exact ⟨fun here => ⟨differs here, here⟩, fun here => here.2⟩
  · -- The unit leaves the busy ones, and its group comes to those that are done.
    have counted := owned.counted
    have finished : (job.relieved unit u g).launch.groupCount = job.launch.groupCount :=
      (NdRange.sameShape_finish found).groupCount
    have busySize : (job.relieved unit u g).device.busy.size = busy.length - 1 := by
      have size : (job.device.busy.remove unit).size = (busy.erase unit).length := busyListed'.size
      rwa [List.length_erase_of_mem isBusy] at size
    have positive : 0 < busy.length := List.length_pos_of_mem isBusy
    rw [finished, ← counted, busyListed.size, busySize]
    show job.launch.pending.length + (busy.length - 1) + (job.launch.doneCount + 1) = _
    omega

end Job

end Accelerator
